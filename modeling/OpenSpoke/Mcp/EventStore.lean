import Mathlib.Data.List.DropRight
import Mathlib.Logic.Function.Basic
import OpenSpoke.Lib.Lts
import OpenSpoke.Python.Int

/-!
# The event store of the MCP server

`ValkeyEventStore`: events go to a Valkey stream per stream id, and the id of an
event is the stream id, a bar and the id of the stream's entry.
-/

namespace OpenSpoke.Mcp

open Lts
open Python (Text)

/-! ## Valkey streams -/

/-- The id of an entry. -/
structure Xid where
  ms : Nat
  seq : Nat
  deriving DecidableEq

def Xid.zero : Xid := ⟨0, 0⟩

def Xid.before (x y : Xid) : Prop := x.ms < y.ms ∨ x.ms = y.ms ∧ x.seq < y.seq

instance (x y : Xid) : Decidable (x.before y) :=
  inferInstanceAs (Decidable (x.ms < y.ms ∨ x.ms = y.ms ∧ x.seq < y.seq))

def Xid.text (x : Xid) : Text := Nat.toDigits 10 x.ms ++ '-' :: Nat.toDigits 10 x.seq

def parseNat (t : Text) : Option Nat :=
  if t ≠ [] ∧ t.all Char.isDigit = true then some (Nat.ofDigitChars 10 t 0) else none

/-- An id in a command; the second number may be left out. -/
def parseXid (t : Text) : Option Xid :=
  (parseNat (t.takeWhile (· ≠ '-'))).bind fun ms =>
    match t.dropWhile (· ≠ '-') with
    | [] => some ⟨ms, 0⟩
    | _ :: seq => (parseNat seq).map fun n => ⟨ms, n⟩

structure Entry where
  id : Xid
  -- the value of its only field `m`
  payload : Text
  deriving DecidableEq

structure ValkeyStream where
  entries : List Entry
  -- the last id given, also after its entry is gone
  last : Xid

/-- `XADD MAXLEN`. -/
def ValkeyStream.add (maxlen : Nat) (s : ValkeyStream) (e : Entry) : ValkeyStream :=
  ⟨(s.entries ++ [e]).rtake maxlen, e.id⟩

/-- `XRANGE` from behind the id in `t`, none if there is no id in it. -/
def ValkeyStream.rangeAfter (s : ValkeyStream) (t : Text) : Option (List Entry) :=
  (parseXid t).map fun x => s.entries.filter fun e => x.before e.id

/-! ## The store -/

/-- How messages are written to the store and read back. -/
structure Codec (M : Type*) where
  -- `message.model_dump_json`
  dump : M → Text
  -- `adapter.validate_json`, none if it raises
  validate : Text → Option M
  validate_dump : ∀ m, validate (dump m) = some m
  dump_ne_nil : ∀ m, dump m ≠ []

structure Settings (M : Type*) where
  codec : Codec M
  keyPrefix : Text
  eventMaxlen : Nat

/-- A call of `store_event`. -/
structure Call (M : Type*) where
  -- the session whose transport makes it
  session : Text
  streamId : Text
  message : Option M
  -- the id that Valkey gives, none if it cannot be reached
  xid : Option Xid

abbrev Streams := Text → ValkeyStream

def Streams.empty : Streams := fun _ => ⟨[], .zero⟩

section Store

variable {M : Type*} (E : Settings M)

def Settings.payload (message : Option M) : Text := message.elim [] E.codec.dump

def Settings.eventKey (streamId : Text) : Text :=
  E.keyPrefix ++ [':', 'e', 'v', 't', ':'] ++ streamId

/-- What `store_event` returns. -/
def Call.eventId (c : Call M) : Text := c.streamId ++ '|' :: (c.xid.getD .zero).text

/-- `store_event`; ids grow, and `0-0` is not given. -/
def storeEvent (db : Streams) (c : Call M) : Option Streams :=
  let key := E.eventKey c.streamId
  match c.xid with
  | none => some db
  | some x =>
    if (db key).last.before x then
      some (Function.update db key ((db key).add E.eventMaxlen ⟨x, E.payload c.message⟩))
    else none

/-- What `replay_events_after` sends, a message with its event id each, and what it
returns. -/
def replayEventsAfter (db : Streams) (reachable : Bool) (lastEventId : Text) :
    List (M × Text) × Option Text :=
  if '|' ∉ lastEventId then ([], none)
  else
    let streamId := lastEventId.takeWhile (· ≠ '|')
    let xid := (lastEventId.dropWhile (· ≠ '|')).tail
    match if reachable then (db (E.eventKey streamId)).rangeAfter xid else none with
    | none => ([], none)
    | some rows =>
      (rows.filterMap fun row =>
        if row.payload = [] then none
        else (E.codec.validate row.payload).map fun msg => (msg, streamId ++ '|' :: row.id.text),
        some streamId)

end Store

/-! ## Ids as text -/

theorem parseNat_toDigits (n : Nat) : parseNat (Nat.toDigits 10 n) = some n := by
  rw [parseNat, if_pos ⟨Nat.toDigits_ne_nil, List.all_eq_true.mpr fun c => Python.toDigits_isDigit⟩,
    Nat.ofDigitChars_toDigits (by decide) (by decide)]

theorem takeWhile_ne_append {d : Char} {s t : Text} (h : d ∉ s) :
    (s ++ d :: t).takeWhile (· ≠ d) = s := by
  have hAll : ∀ c ∈ s, decide (c ≠ d) = true :=
    fun c hc => decide_eq_true fun hEq => h (hEq ▸ hc)
  rw [List.takeWhile_append_of_pos hAll]
  simp

theorem dropWhile_ne_append {d : Char} {s t : Text} (h : d ∉ s) :
    (s ++ d :: t).dropWhile (· ≠ d) = d :: t := by
  have hAll : ∀ c ∈ s, decide (c ≠ d) = true :=
    fun c hc => decide_eq_true fun hEq => h (hEq ▸ hc)
  rw [List.dropWhile_append_of_pos hAll]
  simp

theorem not_mem_toDigits {c : Char} (h : c.isDigit = false) (n : Nat) : c ∉ Nat.toDigits 10 n :=
  fun hMem => absurd (Python.toDigits_isDigit hMem) (by simp [h])

theorem parseXid_text (x : Xid) : parseXid x.text = some x := by
  have hDash : '-' ∉ Nat.toDigits 10 x.ms := not_mem_toDigits rfl _
  rw [parseXid, Xid.text, takeWhile_ne_append hDash, dropWhile_ne_append hDash, parseNat_toDigits]
  simp [parseNat_toDigits]

theorem parseNat_eq_none {c : Char} {t : Text} (hMem : c ∈ t) (h : c.isDigit = false) :
    parseNat t = none :=
  if_neg fun hDigits => absurd (List.all_eq_true.mp hDigits.2 c hMem) (by simp [h])

theorem parseXid_eq_none {t : Text} (h : '|' ∈ t) : parseXid t = none := by
  rw [← List.takeWhile_append_dropWhile (p := (· ≠ '-')) (l := t)] at h
  rcases List.mem_append.mp h with h | h
  · rw [parseXid, parseNat_eq_none h rfl, Option.bind_none]
  · rw [parseXid]
    cases hRest : t.dropWhile (· ≠ '-') with
    | nil =>
      rw [hRest] at h
      cases h
    | cons c seq =>
      have hDash : c = '-' := by
        have hHead := List.head?_dropWhile_not (· ≠ '-') t
        rw [hRest] at hHead
        simpa using hHead
      have hSeq : '|' ∈ seq := by
        rw [hRest, hDash] at h
        simpa using h
      simp [parseNat_eq_none hSeq rfl]

theorem bar_not_mem_text (x : Xid) : '|' ∉ x.text := by
  rw [Xid.text, List.mem_append, List.mem_cons, not_or, not_or]
  exact ⟨not_mem_toDigits rfl _, by decide, not_mem_toDigits rfl _⟩

end OpenSpoke.Mcp
