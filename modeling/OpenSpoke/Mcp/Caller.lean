import OpenSpoke.Mcp.Turns

/-!
# Whom a tool call runs as

Tools read `_current_user` in the task of the session, which has the context variables
of the request that started it.
-/

namespace OpenSpoke.Mcp

open Lts
open Python (Text)

/-- Has come in with valid credentials, and is not refused. -/
def Pc.admitted : Pc → Bool
  | .absent | .done false => false
  | _ => true

namespace Manager

variable (E : Server) (s : Manager)

/-- Who sent request `n`, by its credentials. -/
def sender (n : Nat) : Option Identity :=
  (E.auth.authenticate (s.req n).headers).map E.auth.identity

/-- Who the tools that request `n` calls take its sender for. -/
def caller (n : Nat) : Option Identity :=
  match s.pc n with
  | .handling _ _ ctx _ => some (E.auth.identity ctx)
  | _ => none

/-- Tools run as the sender of the request that calls them. -/
def AsSender : Prop := ∀ n, (s.caller E n).isSome → s.caller E n = s.sender E n

/-- A request that enters a transport is from whoever started it. -/
def OwnSession : ManagerAct → Prop
  | .go n => ∀ i, Enters E s n i → s.sender E i.starter = s.sender E n
  | _ => True

/-- Requests and transports have the context of the credentials they are from. -/
structure Traced : Prop where
  lined : s.Lined
  request : ∀ n, (s.pc n).admitted = true →
    E.auth.authenticate (s.req n).headers = some (s.req n).payload
  instances : ∀ i ∈ s.instances, s.pc i.starter ≠ .absent ∧
    E.auth.authenticate (s.req i.starter).headers = some i.ctx

variable {E s} {t : Manager} {a : ManagerAct} {n m : Nat} {pc : Pc} {locked : Bool}

theorem admitted_of_goto (hn : (s.pc n).admitted = true)
    (hm : ((s.goto n pc).pc m).admitted = true) : (s.pc m).admitted = true := by
  by_cases hmn : m = n
  · rwa [hmn]
  · rwa [pc_goto_of_ne hmn] at hm

theorem Lined.admitted_of_releaseIf (h : s.Lined) (hn : (s.pc n).admitted = true)
    (hm : (((s.goto n pc).releaseIf locked).pc m).admitted = true) :
    (s.pc m).admitted = true := by
  unfold releaseIf at hm
  split at hm
  · by_cases hNext : s.lock.waiting.head? = some m
    · rw [Lined.pc_of_waiting h (List.mem_of_mem_head? hNext)]
      rfl
    · rw [@pc_release_of_ne (s.goto n pc) m hNext] at hm
      exact admitted_of_goto hn hm
  · exact admitted_of_goto hn hm

theorem Lined.admitted_of_serve (h : s.Lined) {i : Instance} (hn : (s.pc n).admitted = true)
    (hm : ((s.serve n i locked).pc m).admitted = true) : (s.pc m).admitted = true := by
  unfold Manager.serve at hm
  split at hm
  · exact h.admitted_of_releaseIf hn hm
  · exact admitted_of_goto hn hm

theorem Lined.admitted_move (h : s.Lined) (hMove : Move E s a t) (hm : (t.pc m).admitted = true) :
    (s.pc m).admitted = true ∨
      E.auth.authenticate (t.req m).headers = some (t.req m).payload := by
  cases hMove with
  | arrive n sid method headers r hPc hSid hMethod hNew =>
    by_cases hmn : m = n
    · subst hmn
      simp only [Manager.pc, Function.update_self] at hm ⊢
      rcases hNew with ⟨-, hAuth⟩ | hNew
      · exact .inr hAuth
      · rw [hNew] at hm
        cases hm
    · exact .inl (by simpa [Manager.pc, hmn] using hm)
  | acquire n hPc =>
    refine .inl (admitted_of_goto (n := n) ?_ hm)
    rcases hPc with ⟨hPc, -⟩ | ⟨hPc, -⟩ <;> rw [hPc] <;> rfl
  | serve n i hPc =>
    refine .inl (h.admitted_of_serve (n := n) ?_ hm)
    rcases hPc with hPc | ⟨hPc, -⟩ <;> rw [hPc] <;> rfl
  | serveLocked n i hPc => exact .inl (h.admitted_of_serve (n := n) (by rw [hPc]; rfl) hm)
  | check n sid hPc => exact .inl (admitted_of_goto (n := n) (by rw [hPc]; rfl) hm)
  | refuse n sid hPc => exact .inl (admitted_of_goto (n := n) (by rw [hPc]; rfl) hm)
  | create n hPc =>
    have hn : (s.pc n).admitted = true := congrArg Pc.admitted hPc
    obtain ⟨x, -, hEq⟩ := create_eq s E.lockedCreation n
    rw [hEq] at hm
    exact .inl (Lined.admitted_of_releaseIf (s := { s with toSessions := x }) h hn hm)
  | rehydrate n sid hPc =>
    have hn : (s.pc n).admitted = true := congrArg Pc.admitted hPc
    exact .inl (Lined.admitted_of_serve (s := s.start n sid) h hn hm)
  | register n sid rest hPc =>
    exact .inl (@admitted_of_goto s n m (.registering rest) (by rw [hPc]; rfl) hm)
  | registered n hPc => exact .inl (admitted_of_goto (n := n) (by rw [hPc]; rfl) hm)
  | answer a n sid starter ctx locked hPc =>
    have hn : (s.pc n).admitted = true := congrArg Pc.admitted hPc
    exact .inl (@Lined.admitted_of_releaseIf { s with toSessions := s.answered n sid starter } n m
      _ locked h hn hm)
  | tick | gone => exact .inl hm
  | restart =>
    change (if s.pc m = .absent then Pc.absent else .done false).admitted = true at hm
    split at hm <;> cases hm

theorem Traced.init : Traced E .init where
  lined := .init
  request n hn := by cases hn
  instances i hi := by cases hi

theorem Traced.move (h : Traced E s) (hMove : Move E s a t) : Traced E t where
  lined := h.lined.move hMove
  request n hn := by
    rcases h.lined.admitted_move hMove hn with hOld | hAuth
    · have hPresent : s.pc n ≠ .absent := fun hAbsent => by
        rw [hAbsent] at hOld
        cases hOld
      obtain ⟨-, -, hHeaders, hPayload⟩ := data_eq (hMove.data hPresent)
      rw [hHeaders, hPayload]
      exact h.request n hOld
    · exact hAuth
  instances i hi := by
    have hKept : ∀ i ∈ s.instances, t.pc i.starter ≠ .absent ∧
        E.auth.authenticate (t.req i.starter).headers = some i.ctx := fun i hi => by
      obtain ⟨hPresent, hAuth⟩ := h.instances i hi
      obtain ⟨-, -, hHeaders, -⟩ := data_eq (hMove.data hPresent)
      exact ⟨fun hAbsent => hPresent (hMove.absent hAbsent), hHeaders ▸ hAuth⟩
    rcases hMove.instances hi with hOld | ⟨i₀, hOld, rfl, -⟩ | ⟨n, -, hStarts⟩
    · exact hKept i hOld
    · exact hKept i₀ hOld
    · have hPresent : s.pc n ≠ .absent := by
        rw [hStarts.pc]
        exact Pc.noConfusion
      obtain ⟨-, -, hHeaders, -⟩ := data_eq (hMove.data hPresent)
      rw [hStarts.starter, hHeaders, hStarts.ctx]
      exact ⟨fun hAbsent => hPresent (hMove.absent hAbsent), h.request n (by rw [hStarts.pc]; rfl)⟩

/-! ## Senders -/

theorem step_of_enters {i : Instance} (h : Enters E s n i) :
    ∃ t l, Manager.step E s (.go n) = some t ∧ t.pc n = .handling i.sid i.starter i.ctx l := by
  have hServe : ∀ l, (s.serve n i l).pc n = .handling i.sid i.starter i.ctx l := fun l => by
    rw [Manager.serve, if_neg (by simp [h.live])]
    exact pc_goto_self
  rcases h.pc with hPc | ⟨hPc, hUnknown⟩ | hPc
  · exact ⟨_, false, by simp [Manager.step, goStep, hPc, h.sid, h.find], hServe false⟩
  · exact ⟨_, false, by simp [Manager.step, goStep, hPc, h.sid, h.find, hUnknown], hServe false⟩
  · exact ⟨_, true, by simp [Manager.step, goStep, hPc, h.sid, h.find], hServe true⟩

theorem Traced.sender_starter (h : Traced E s) {i : Instance} (hFind : s.instanceOf i.sid = some i) :
    s.sender E i.starter = some (E.auth.identity i.ctx) := by
  rw [sender, (h.instances i (Keyed.mem_of_find hFind)).2]
  rfl

theorem sender_move (hMove : Move E s a t) (hn : s.pc n ≠ .absent) :
    t.sender E n = s.sender E n := by
  obtain ⟨-, -, hHeaders, -⟩ := data_eq (hMove.data hn)
  rw [sender, sender, hHeaders]

theorem Traced.asSender_iff (h : Traced E s) (hAs : s.AsSender E) (a : ManagerAct) :
    (∀ t, Manager.step E s a = some t → t.AsSender E) ↔ s.OwnSession E a := by
  constructor
  · intro hAll
    cases a with
    | go n =>
      intro i hEnters
      obtain ⟨t, l, hs, hPc⟩ := step_of_enters hEnters
      have hCaller : t.caller E n = some (E.auth.identity i.ctx) := by rw [caller, hPc]
      have hPresent : s.pc n ≠ .absent := by
        rcases hEnters.pc with hPc | ⟨hPc, -⟩ | hPc <;> rw [hPc] <;> exact Pc.noConfusion
      calc
        s.sender E i.starter = some (E.auth.identity i.ctx) := h.sender_starter hEnters.find
        _ = t.sender E n := hCaller.symm.trans (hAll t hs n (by rw [hCaller]; rfl))
        _ = s.sender E n := sender_move (step_move hs) hPresent
    | _ => trivial
  · intro hOwn t hs n hSome
    have hMove := step_move hs
    cases hPc : t.pc n <;> simp only [caller, hPc, Option.isSome_none, Bool.false_eq_true] at hSome
    rename_i sid starter ctx l
    have hCaller : t.caller E n = some (E.auth.identity ctx) := by rw [caller, hPc]
    rcases hMove.handling hPc with hOld | ⟨rfl, -, hEnters | hStarts⟩
    · have hBefore : s.caller E n = some (E.auth.identity ctx) := by rw [caller, hOld]
      rw [sender_move hMove (by rw [hOld]; exact Pc.noConfusion), hCaller, ← hBefore]
      exact hAs n (by rw [hBefore]; rfl)
    · have hPresent : s.pc n ≠ .absent := by
        rcases hEnters.pc with hPc | ⟨hPc, -⟩ | hPc <;> rw [hPc] <;> exact Pc.noConfusion
      rw [sender_move hMove hPresent, hCaller, ← hOwn _ hEnters]
      exact (h.sender_starter hEnters.find).symm
    · have hPresent : s.pc n ≠ .absent := by
        rw [hStarts.pc]
        exact Pc.noConfusion
      rw [sender_move hMove hPresent, hCaller, sender, h.request n (by rw [hStarts.pc]; rfl),
        ← hStarts.ctx]
      rfl

/-- In a run every tool call is made as the sender of its request if and only if every
request enters transports only that somebody of the same identity started. A GET and a DELETE
are held to this as well, for they are handled in the same context. -/
theorem calls_asSender_iff (E : Server) (acts : List ManagerAct) :
    Along (Manager.step E) (fun s a => ∀ t, Manager.step E s a = some t → t.AsSender E) .init acts ↔
      Along (Manager.step E) (fun s a => s.OwnSession E a) .init acts := by
  refine along_congr (fun s => Traced E s ∧ s.AsSender E)
    (fun s a hs => hs.1.asSender_iff hs.2 a) (fun s a t hs hOwn h => ?_)
    ⟨.init, fun n hSome => by cases hSome⟩ acts
  exact ⟨hs.1.move (step_move h), (hs.1.asSender_iff hs.2 a).mpr hOwn t h⟩

end Manager

/-! ## A run in which a tool call is not as its sender -/

/-- Two users with tokens of their own; neither is an administrator. -/
def twoUsers : Server where
  auth := {
    apiKey := ['k']
    decode := fun t =>
      if t = ['a'] then some ⟨['a', 'n', 'n'], [], [], [], []⟩
      else if t = ['b'] then some ⟨['b', 'o', 'b'], [], [], [], []⟩
      else none
    bootstrap := []
  }
  sessionTtl := 60
  lockedCreation := true

def bearer (t : Text) : Headers := ⟨[], ['B', 'e', 'a', 'r', 'e', 'r', ' '] ++ t⟩

/-- The administrative client creates a session, and a user goes on with it. -/
def sharedSession : List ManagerAct :=
  [.arrive 0 none .post ⟨['k'], []⟩, .go 0, .go 0, .finish 0, .arrive 1 (some 0) .post (bearer ['a']),
    .go 1]

theorem sharedSession_asStarter : ∃ t, run (Manager.step twoUsers) .init sharedSession = some t ∧
    t.caller twoUsers 1 = t.sender twoUsers 0 ∧ ¬t.AsSender twoUsers := by
  obtain ⟨t, hRun, ht⟩ := exists_run_of_any (Manager.step twoUsers) .init sharedSession
    (fun t => decide (t.caller twoUsers 1 = t.sender twoUsers 0 ∧
      (t.caller twoUsers 1).isSome ∧ t.caller twoUsers 1 ≠ t.sender twoUsers 1)) (by decide)
  obtain ⟨hStarter, hSome, hOther⟩ := of_decide_eq_true ht
  exact ⟨t, hRun, hStarter, fun hAs => hOther (hAs 1 hSome)⟩

end OpenSpoke.Mcp
