import Mathlib.Logic.Function.Basic
import OpenSpoke.Lib.Keyed
import OpenSpoke.Lib.Lock
import OpenSpoke.Lib.Lts
import OpenSpoke.Mcp.Identity

/-!
# The session manager of the MCP server

`ResumableSessionManager` on top of the manager of the SDK: requests go to the
transport of their session, new sessions are registered in Valkey, and a session that
the process does not know but Valkey does gets a new transport, under the lock that
new sessions are created under. A request runs by itself up to its next await.
-/

namespace OpenSpoke.Mcp

open Lts
open Python (Text)

inductive Method
  | get
  | post
  | delete
  deriving DecidableEq

/-- A transport with the task that runs its session. -/
structure Instance where
  sid : Nat
  -- the request that started the task, whose context variables it has
  starter : Nat
  ctx : Payload
  terminated : Bool
  deriving DecidableEq

inductive Pc
  | absent
  | entered
  -- waits for EXISTS
  | checking
  -- waits for the lock
  | waiting
  -- has the lock and is to look again
  | locked
  -- is handled by the transport that `starter` started
  | handling (sid starter : Nat) (ctx : Payload) (locked : Bool)
  -- waits for SETEX, once for each of the sessions
  | registering (rest : List Nat)
  | done (handled : Bool)
  deriving DecidableEq

structure Request where
  sid : Option Nat
  method : Method
  headers : Headers
  -- `_current_user` in its own context
  payload : Payload
  pc : Pc

/-- What a request brings. -/
def Request.data (r : Request) : Option Nat × Method × Headers × Payload :=
  (r.sid, r.method, r.headers, r.payload)

structure Sessions where
  now : Nat
  -- when a session was last registered
  registry : Nat → Option Nat
  instances : List Instance
  -- ids of sessions to come
  nextSid : Nat
  -- when a request of the session was last taken in or answered
  used : Nat → Nat
  -- whether a DELETE of the session has been answered
  deleted : Nat → Bool

def Sessions.terminate (s : Sessions) (sid starter : Nat) : Sessions :=
  { s with
    instances := s.instances.map fun i =>
      if i.sid = sid ∧ i.starter = starter then { i with terminated := true } else i
    deleted := Function.update s.deleted sid true }

structure Manager extends Sessions where
  -- `_session_creation_lock`
  lock : Lock Nat
  req : Nat → Request

structure Server where
  auth : Auth
  sessionTtl : Nat
  -- whether the manager of the SDK keeps the lock while a new session handles its first request
  lockedCreation : Bool

inductive ManagerAct
  | arrive (n : Nat) (sid : Option Nat) (method : Method) (headers : Headers)
  | go (n : Nat)
  -- the response is complete
  | finish (n : Nat)
  -- the client of an event stream goes away
  | disconnect (n : Nat)
  | tick (d : Nat)
  -- the transport is dropped: the session was idle, or its task has ended
  | gone (sid : Nat)
  | restart

namespace Manager

def init : Manager where
  now := 0
  registry _ := none
  instances := []
  nextSid := 0
  lock := .free
  req _ := ⟨none, .post, ⟨[], []⟩, internalService, .absent⟩
  used _ := 0
  deleted _ := false

variable (s : Manager)

def pc (n : Nat) : Pc := (s.req n).pc

def instanceOf (sid : Nat) : Option Instance := Keyed.find Instance.sid sid s.instances

def goto (n : Nat) (pc : Pc) : Manager :=
  { s with req := Function.update s.req n { s.req n with pc := pc } }

/-- `session_known`. -/
def known (ttl sid : Nat) : Bool := (s.registry sid).any fun at_ => s.now < at_ + ttl

/-! ## The lock -/

def acquire (n : Nat) : Manager :=
  { s.goto n (if s.lock.holder.isNone then .locked else .waiting) with lock := s.lock.acquire n }

def release : Manager :=
  match s.lock.waiting with
  | [] => { s with lock := s.lock.release }
  | m :: _ => { s.goto m .locked with lock := s.lock.release }

def releaseIf (locked : Bool) : Manager := if locked then s.release else s

/-! ## Steps -/

/-- A transport takes request `n` in, or refuses it since it is terminated. -/
def serve (n : Nat) (i : Instance) (locked : Bool) : Manager :=
  if i.terminated then (s.goto n (.done false)).releaseIf locked
  else { s.goto n (.handling i.sid i.starter i.ctx locked) with
    used := Function.update s.used i.sid s.now }

/-- A transport for session `sid`, started by `n`. -/
def start (n sid : Nat) : Manager :=
  { s with instances := s.instances ++ [⟨sid, n, (s.req n).payload, false⟩] }

/-- Request `n` creates a session. -/
def create (locked : Bool) (n : Nat) : Manager :=
  let i : Instance := ⟨s.nextSid, n, (s.req n).payload, false⟩
  ({ s.start n s.nextSid with nextSid := s.nextSid + 1 }.serve n i locked).releaseIf !locked

def rehydrate (n sid : Nat) : Manager :=
  (s.start n sid).serve n ⟨sid, n, (s.req n).payload, false⟩ true

def deletes (n : Nat) : Bool := (s.req n).method = .delete ∧ (s.req n).sid.isSome

/-- What the answer to request `n` of session `sid` leaves. -/
def answered (n sid starter : Nat) : Sessions :=
  { (if s.deletes n then s.terminate sid starter else s.toSessions) with
    used := Function.update s.used sid s.now }

def answer (n sid starter : Nat) (locked : Bool) : Manager :=
  let t := { s with toSessions := s.answered n sid starter }
  let rest := t.instances.map Instance.sid
  (t.goto n (if (s.req n).sid.isNone then .registering rest else .done true)).releaseIf locked

def goStep (E : Server) (n : Nat) : Option Manager :=
  match s.pc n, (s.req n).sid with
  | .entered, none => some (s.acquire n)
  | .entered, some sid =>
    match s.instanceOf sid with
    | some i => some (s.serve n i false)
    | none => some (s.goto n .checking)
  | .checking, some sid =>
    if s.known E.sessionTtl sid then some (s.acquire n)
    else
      match s.instanceOf sid with
      | some i => some (s.serve n i false)
      | none => some (s.goto n (.done false))
  | .locked, none => some (s.create E.lockedCreation n)
  | .locked, some sid =>
    match s.instanceOf sid with
    | some i => some (s.serve n i true)
    | none => some (s.rehydrate n sid)
  | .registering [], _ => some (s.goto n (.done true))
  | .registering (sid :: rest), _ =>
    some { s.goto n (.registering rest) with
      registry := Function.update s.registry sid (some s.now) }
  | _, _ => none

def step (E : Server) (s : Manager) : ManagerAct → Option Manager
  | .arrive n sid method headers =>
    if s.pc n = .absent then
      some { s with
        req := Function.update s.req n
          (match E.auth.authenticate headers with
          | some p => ⟨sid, method, headers, p, .entered⟩
          | none => ⟨sid, method, headers, (s.req n).payload, .done false⟩) }
    else none
  | .go n => s.goStep E n
  | .finish n =>
    match s.pc n with
    | .handling sid starter _ locked =>
      if (s.req n).method = .get then none else some (s.answer n sid starter locked)
    | _ => none
  | .disconnect n =>
    match s.pc n with
    | .handling sid starter _ locked =>
      if (s.req n).method = .get then some (s.answer n sid starter locked) else none
    | _ => none
  | .tick d => some { s with now := s.now + d }
  | .gone sid => some { s with instances := Keyed.remove Instance.sid sid s.instances }
  | .restart =>
    some { s with
      instances := []
      lock := .free
      req := fun n => { s.req n with pc := if s.pc n = .absent then .absent else .done false } }

/-! ## What the lock leaves alone -/

section Lock

variable {s : Manager} {n m : Nat} {pc : Pc} {locked : Bool}

@[simp] theorem goto_toSessions : (s.goto n pc).toSessions = s.toSessions := rfl
@[simp] theorem goto_lock : (s.goto n pc).lock = s.lock := rfl

@[simp] theorem pc_goto_self : (s.goto n pc).pc n = pc := by simp [goto, Manager.pc]

theorem pc_goto_of_ne (h : m ≠ n) : (s.goto n pc).pc m = s.pc m := by simp [goto, Manager.pc, h]

@[simp] theorem goto_data : ((s.goto n pc).req m).data = (s.req m).data := by
  by_cases h : m = n
  · subst h
    simp [goto, Request.data]
  · simp [goto, h]

@[simp] theorem acquire_toSessions : (s.acquire n).toSessions = s.toSessions := rfl

@[simp] theorem acquire_data : ((s.acquire n).req m).data = (s.req m).data := goto_data

@[simp] theorem release_toSessions : s.release.toSessions = s.toSessions := by
  unfold release
  split <;> rfl

@[simp] theorem release_data : (s.release.req m).data = (s.req m).data := by
  unfold release
  split
  · rfl
  · exact goto_data

@[simp] theorem releaseIf_toSessions : (s.releaseIf locked).toSessions = s.toSessions := by
  unfold releaseIf
  split
  · exact release_toSessions
  · rfl

@[simp] theorem releaseIf_data : ((s.releaseIf locked).req m).data = (s.req m).data := by
  unfold releaseIf
  split
  · exact release_data
  · rfl

theorem pc_acquire_of_ne (h : m ≠ n) : (s.acquire n).pc m = s.pc m := pc_goto_of_ne h

theorem pc_acquire_self :
    (s.acquire n).pc n = if s.lock.holder.isNone then .locked else .waiting := pc_goto_self

@[simp] theorem release_lock : s.release.lock = s.lock.release := by
  unfold release
  split <;> rfl

theorem pc_release_next (h : s.lock.waiting.head? = some m) : s.release.pc m = .locked := by
  unfold release
  split
  next hNone => simp [hNone] at h
  next k rest hSome =>
    obtain rfl : k = m := by simpa [hSome] using h
    exact pc_goto_self

theorem pc_release_of_ne (h : s.lock.waiting.head? ≠ some m) : s.release.pc m = s.pc m := by
  unfold release
  split
  next => rfl
  next k rest hSome => exact pc_goto_of_ne fun hEq => h (by simp [hSome, hEq])

end Lock

end Manager

end OpenSpoke.Mcp
