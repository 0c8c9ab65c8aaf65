import Mathlib.Tactic.Simps.Basic
import OpenSpoke.Lib.Lts
import OpenSpoke.Python.Int

/-!
# RESP2

The replies of a server as the bytes on the wire, and the reading of one reply
after another line. A byte is the character with its code.
-/

namespace OpenSpoke.Valkey

open Python (Text)

/-- The text of a line. -/
abbrev Line := {t : Text // '\r' ∉ t ∧ '\n' ∉ t}

/-- The integers of 64 bits. -/
abbrev Integer := {i : Int // -2 ^ 63 ≤ i ∧ i < 2 ^ 63}

inductive Reply
  | simple (t : Line)
  | error (t : Line)
  | int (i : Integer)
  | bulk (data : Option Text)
  | nilArray
  | array (elems : List Reply)

/-- A value of the client. A text is that of its bytes. -/
inductive Value
  | text (t : Text)
  | int (i : Int)
  | none
  | bytes (data : Text)
  | list (elems : List Value)

def crlf : Text := ['\r', '\n']

mutual

def Reply.encode : Reply → Text
  | .simple t => '+' :: t.val ++ crlf
  | .error t => '-' :: t.val ++ crlf
  | .int i => ':' :: Python.decimal i.val ++ crlf
  | .bulk none => '$' :: Python.decimal (-1) ++ crlf
  | .bulk (some data) => '$' :: Python.decimal data.length ++ crlf ++ (data ++ crlf)
  | .nilArray => '*' :: Python.decimal (-1) ++ crlf
  | .array elems => '*' :: Python.decimal elems.length ++ crlf ++ encodeAll elems

def encodeAll : List Reply → Text
  | [] => []
  | r :: rs => r.encode ++ encodeAll rs

end

mutual

/-- The value of a reply, or the first error in it. -/
def Reply.result : Reply → Except Text Value
  | .simple t => .ok (.text t.val)
  | .error t => .error t.val
  | .int i => .ok (.int i.val)
  | .bulk none | .nilArray => .ok .none
  | .bulk (some data) => .ok (.bytes data)
  | .array elems => (resultAll elems).map .list

def resultAll : List Reply → Except Text (List Value)
  | [] => .ok []
  | r :: rs => r.result.bind fun v => (resultAll rs).map (v :: ·)

end

/-! ## What is still to be read of a reply -/

/-- An array of which elements are still to be read, the one in progress among them. -/
structure Frame where
  left : Nat
  values : List Value

/-- The frames after a value, or the value if there is none. -/
def settle : List Frame → Value → Value ⊕ List Frame
  | [], v => .inl v
  | f :: fs, v =>
    if f.left ≤ 1 then settle fs (.list (f.values ++ [v]))
    else .inr (⟨f.left - 1, f.values ++ [v]⟩ :: fs)

/-- The result of a reply, from that of the element in progress and from the elements that
follow it in each frame. -/
def resume : List Frame → List (List Reply) → Except Text Value → Except Text Value
  | f :: fs, rest :: rests, res =>
    resume fs rests (res.bind fun v => (resultAll rest).map fun vs => .list (f.values ++ v :: vs))
  | _, _, res => res

/-- The frames count the elements that follow. -/
def Counts (frames : List Frame) (rests : List (List Reply)) : Prop :=
  List.Forall₂ (fun f rest => f.left = rest.length + 1) frames rests

def encodeRests (rests : List (List Reply)) : Text := (rests.map encodeAll).flatten

theorem resume_error (frames : List Frame) (rests : List (List Reply)) (e : Text) :
    resume frames rests (.error e) = .error e := by
  induction frames generalizing rests with
  | nil => rfl
  | cons f fs ih =>
    cases rests with
    | nil => rfl
    | cons rest rests => exact ih rests

theorem resume_array (frames : List Frame) (rests : List (List Reply)) (r : Reply)
    (rs : List Reply) :
    resume frames rests (Reply.array (r :: rs)).result =
      resume (⟨(r :: rs).length, []⟩ :: frames) (rs :: rests) r.result := by
  rw [resume]
  congr 1
  rw [Reply.result, resultAll]
  cases r.result with
  | error e => rfl
  | ok v => cases resultAll rs <;> rfl

theorem settle_spec {frames : List Frame} {rests : List (List Reply)} (h : Counts frames rests)
    (v : Value) :
    match settle frames v with
    | .inl w => encodeRests rests = [] ∧ resume frames rests (.ok v) = .ok w
    | .inr frames' => ∃ (cur : Reply) (rests' : List (List Reply)), Counts frames' rests' ∧
        encodeRests rests = cur.encode ++ encodeRests rests' ∧
        resume frames rests (.ok v) = resume frames' rests' cur.result := by
  induction h generalizing v with
  | nil => exact ⟨rfl, rfl⟩
  | @cons f rest fs rests hLeft hCounts ih =>
    cases rest with
    | nil =>
      rw [settle, if_pos (by simp [hLeft])]
      exact ih (.list (f.values ++ [v]))
    | cons r rest =>
      rw [settle, if_neg (by simp [hLeft])]
      refine ⟨r, rest :: rests, .cons (by simp [hLeft]) hCounts, ?_, ?_⟩
      · simp [encodeRests, encodeAll]
      · rw [resume, resume]
        congr 1
        rw [resultAll]
        cases r.result with
        | error e => rfl
        | ok w => cases resultAll rest <;> simp [Except.bind, Except.map]

theorem encodeRests_of_last {frames : List Frame} {rests : List (List Reply)}
    (h : Counts frames rests) (hLast : ∀ f ∈ frames, f.left ≤ 1) : encodeRests rests = [] := by
  induction h with
  | nil => rfl
  | @cons f rest fs rests hLeft hCounts ih =>
    have hEmpty : rest = [] := by
      have hOne := hLast f List.mem_cons_self
      rw [hLeft] at hOne
      exact List.eq_nil_of_length_eq_zero (by omega)
    subst hEmpty
    exact ih fun g hg => hLast g (List.mem_cons_of_mem _ hg)

end OpenSpoke.Valkey

/-!
## The Valkey client

`ValkeyClient` with a host: the calls of `execute`, which share a connection under
a lock, and the server at the other end. A call goes on by itself up to its next
await. The server answers the commands of a connection in their order, bytes
arrive in any portions, and the connection may be lost at any time.
-/

namespace OpenSpoke.Valkey

open Lts
open Python (Text)

/-! ## Lines -/

/-- What a line says to `_read_reply`. -/
inductive Parsed
  | value (v : Value)
  -- an error reply
  | error (t : Text)
  -- the end of the stream or an unknown tag
  | invalid
  -- an exception other than ValkeyError
  | raises
  -- elements follow
  | push (size : Nat)
  -- `readexactly` of so many bytes
  | bulk (size : Nat)

/-- `line[1:-2]`. -/
def lineBody (line : Text) : Text := (line.take (line.length - 2)).drop 1

/-- `_read_reply` on a line; `decodes` says whether bytes are UTF-8. -/
def parseLine (decodes : Text → Bool) (line : Text) : Parsed :=
  match line with
  | [] => .invalid
  | tag :: _ =>
    let body := lineBody line
    if tag = '+' then if decodes body then .value (.text body) else .raises
    else if tag = '-' then if decodes body then .error body else .raises
    else if tag = ':' then
      match Python.parseInt body with
      | some i => .value (.int i)
      | none => .raises
    else if tag = '$' then
      match Python.parseInt body with
      | some n =>
        if n = -1 then .value .none else if n + 2 < 0 then .raises else .bulk (n + 2).toNat
      | none => .raises
    else if tag = '*' then
      match Python.parseInt body with
      | some n =>
        if n = -1 then .value .none else if n ≤ 0 then .value (.list []) else .push n.toNat
      | none => .raises
    else .invalid

/-- `readline`: the line and what stays in the buffer; none if it waits. -/
def readline (buffer : Text) (eof : Bool) : Option (Text × Text) :=
  if '\n' ∈ buffer then
    some (buffer.takeWhile (· ≠ '\n') ++ ['\n'], (buffer.dropWhile (· ≠ '\n')).drop 1)
  else if eof then some (buffer, [])
  else none

/-! ## Calls -/

inductive Stage
  | auth
  | select
  -- the command of the call
  | own
  deriving DecidableEq

inductive Outcome
  | returned (v : Value)
  -- an error of the server
  | serverError (t : Text)
  -- another error
  | failed
  | cancelled

inductive CallPc
  | absent
  -- for the lock
  | waiting
  -- `open_connection`; in the second attempt or in the first
  | opening (again : Bool)
  | draining (again : Bool) (stage : Stage)
  -- `readline`
  | line (again : Bool) (stage : Stage) (frames : List Frame)
  -- `readexactly`
  | bulk (again : Bool) (stage : Stage) (size : Nat) (frames : List Frame)
  | finished (o : Outcome)

/-- The call has the lock. -/
def CallPc.holds : CallPc → Bool
  | .opening _ | .draining _ _ | .line _ _ _ | .bulk _ _ _ _ => true
  | _ => false

structure Call where
  pc : CallPc
  -- history: the command that it has sent last
  cmd : Option Nat

structure Conn where
  -- the commands that the server has not answered
  asked : List Nat
  -- bytes on the way
  wire : Text
  -- bytes that have arrived
  buffer : Text
  eof : Bool

structure World where
  password : Bool
  db : Bool
  conn : Option Conn
  lock : Option Nat
  nextCall : Nat
  call : Nat → Call
  nextCmd : Nat
  -- history: the call that has sent a command, and its reply
  sender : Nat → Option (Nat × Stage)
  reply : Nat → Option Reply

def World.init (password db : Bool) : World where
  password := password
  db := db
  conn := none
  lock := none
  nextCall := 0
  call _ := ⟨.absent, none⟩
  nextCmd := 0
  sender _ := none
  reply _ := none

inductive CallEv
  | acquire
  | opened
  | drained
  | read
  -- the await raises an Exception
  | raises
  -- the task is cancelled
  | cancel
  deriving DecidableEq

inductive ValkeyAct
  | request
  | call (n : Nat) (e : CallEv)
  | answer (r : Reply)
  | arrive (k : Nat)
  | lose

namespace World

@[simps -fullyApplied] def callTo (s : World) (n : Nat) (pc : CallPc) : World :=
  { s with call := Function.update s.call n { s.call n with pc := pc } }

@[simps -fullyApplied] def finish (s : World) (n : Nat) (o : Outcome) : World :=
  { s with
    call := Function.update s.call n { s.call n with pc := .finished o }
    lock := none }

/-- `_raw` up to its drain. -/
@[simps -fullyApplied] def send (s : World) (n : Nat) (k : Conn) (again : Bool) (stage : Stage) :
    World :=
  { s with
    conn := some { k with asked := k.asked ++ [s.nextCmd] }
    call := Function.update s.call n ⟨.draining again stage, some s.nextCmd⟩
    nextCmd := s.nextCmd + 1
    sender := Function.update s.sender s.nextCmd (some (n, stage)) }

/-- An attempt of a call that has the lock. -/
def start (s : World) (n : Nat) (again : Bool) : World :=
  match s.conn with
  | none => s.callTo n (.opening again)
  | some k => s.send n k again .own

/-- What follows AUTH. -/
def selectOrOwn (s : World) : Stage := if s.db then .select else .own

def afterStage (s : World) (n : Nat) (k : Conn) (again : Bool) (v : Value) : Stage → World
  | .auth => s.send n k again s.selectOrOwn
  | .select => s.send n k again .own
  | .own => { s with conn := some k }.finish n (.returned v)

/-- `_close`, and the second attempt after the first. -/
def broken (s : World) (n : Nat) (again : Bool) : World :=
  if again then { s with conn := none }.finish n .failed
  else { s with conn := none }.start n true

/-- What the call makes of a line or of a bulk string, with the connection as it is then. -/
def took (s : World) (n : Nat) (k : Conn) (again : Bool) (stage : Stage) (frames : List Frame) :
    Parsed → World
  | .value v =>
    match settle frames v with
    | .inl v => s.afterStage n k again v stage
    | .inr frames => { s with conn := some k }.callTo n (.line again stage frames)
  | .error t => { s with conn := some k }.finish n (.serverError t)
  | .invalid => { s with conn := some k }.finish n .failed
  | .raises => s.broken n again
  | .push size => { s with conn := some k }.callTo n (.line again stage (⟨size, []⟩ :: frames))
  | .bulk size => { s with conn := some k }.callTo n (.bulk again stage size frames)

section Step

variable (decodes : Text → Bool)

def callStep (s : World) (n : Nat) (e : CallEv) : Option World :=
  match (s.call n).pc, e with
  | .waiting, .acquire =>
    if s.lock.isNone then some ({ s with lock := some n }.start n false) else none
  | .opening again, .opened =>
    some (s.send n ⟨[], [], [], false⟩ again (if s.password then .auth else s.selectOrOwn))
  | .draining again stage, .drained => some (s.callTo n (.line again stage []))
  | .line again stage frames, .read =>
    s.conn.bind fun k =>
      (readline k.buffer k.eof).map fun (line, buffer) =>
        s.took n { k with buffer := buffer } again stage frames (parseLine decodes line)
  | .bulk again stage size frames, .read =>
    s.conn.bind fun k =>
      if size ≤ k.buffer.length then
        some (s.took n { k with buffer := k.buffer.drop size } again stage frames
          (.value (.bytes (k.buffer.take (size - 2)))))
      else if k.eof then some (s.broken n again)
      else none
  | .opening again, .raises | .draining again _, .raises | .line again _ _, .raises
  | .bulk again _ _ _, .raises => some (s.broken n again)
  | .waiting, .cancel => some (s.callTo n (.finished .cancelled))
  | .opening _, .cancel | .draining _ _, .cancel | .line _ _ _, .cancel | .bulk _ _ _ _, .cancel =>
    some (s.finish n .cancelled)
  | _, _ => none

def step (s : World) : ValkeyAct → Option World
  | .request =>
    some { s with
      call := Function.update s.call s.nextCall ⟨.waiting, none⟩
      nextCall := s.nextCall + 1 }
  | .call n e => s.callStep decodes n e
  | .answer r =>
    match s.conn with
    | some ⟨c :: asked, wire, buffer, false⟩ =>
      some { s with
        conn := some ⟨asked, wire ++ r.encode, buffer, false⟩
        reply := Function.update s.reply c (some r) }
    | _ => none
  | .arrive size =>
    s.conn.map fun k =>
      { s with
        conn := some
          { k with
            wire := k.wire.drop size
            buffer := k.buffer ++ k.wire.take size } }
  | .lose =>
    s.conn.map fun k => { s with conn := some { k with wire := [], eof := true } }

end Step

end World

end OpenSpoke.Valkey
