import OpenSpoke.Mcp.Moves

/-!
# Turns at the session creation lock

In every state reached the lock and the requests agree on who has it and who waits.
-/

namespace OpenSpoke.Mcp

open Lts
open Lock (Place)

def Pc.place : Pc → Place
  | .waiting => .waiting
  | .locked => .inside
  | .handling _ _ _ l => if l then .inside else .outside
  | _ => .outside

/-- The lock and the requests agree. -/
def Manager.Lined (s : Manager) : Prop := s.lock.Lined fun m => (s.pc m).place

namespace Manager.Lined

variable {E : Server} {s t : Manager} {a : ManagerAct} {n m : Nat} {pc : Pc} {locked : Bool}

theorem init : Manager.init.Lined := Lock.lined_free fun _ => rfl

theorem pc_of_waiting (h : s.Lined) (hm : m ∈ s.lock.waiting) : s.pc m = .waiting := by
  have hPlace := (h.waiting m).mp hm
  cases hPc : s.pc m <;> simp only [hPc, Pc.place] at hPlace ⊢
  case handling sid starter ctx l => cases l <;> cases hPlace
  all_goals cases hPlace

theorem goto (h : s.Lined) (hPlace : pc.place = (s.pc n).place) : (s.goto n pc).Lined :=
  Lock.Lined.congr h fun m => by
    by_cases hmn : m = n
    · rw [hmn, pc_goto_self, hPlace]
    · rw [pc_goto_of_ne hmn]

theorem acquire (h : s.Lined) (hOutside : (s.pc n).place = .outside) : (s.acquire n).Lined := by
  refine Lock.Lined.acquire h hOutside ?_ fun m hmn => congrArg Pc.place (pc_acquire_of_ne hmn)
  rw [pc_acquire_self, Lock.entry]
  split <;> rfl

theorem goto_release (h : s.Lined) (hInside : (s.pc n).place = .inside)
    (hOutside : pc.place = .outside) : (s.goto n pc).release.Lined := by
  have hNotNext : s.lock.waiting.head? ≠ some n := fun hNext => by
    have hWaiting := (h.waiting n).mp (List.mem_of_mem_head? hNext)
    cases hInside.symm.trans hWaiting
  rw [Lined, release_lock, goto_lock]
  refine Lock.Lined.release h hInside (fun m hNext => ?_) ?_ fun m hmn hNext => ?_
  · exact congrArg Pc.place (pc_release_next (s := s.goto n pc) hNext)
  · rw [pc_release_of_ne (s := s.goto n pc) hNotNext, pc_goto_self, hOutside]
  · rw [pc_release_of_ne (s := s.goto n pc) hNext, pc_goto_of_ne hmn]

theorem goto_releaseIf (h : s.Lined) (hHas : (s.pc n).place = if locked then .inside else .outside)
    (hOutside : pc.place = .outside) : ((s.goto n pc).releaseIf locked).Lined := by
  unfold releaseIf
  split
  next hLocked => exact h.goto_release (hHas.trans (if_pos hLocked)) hOutside
  next hLocked => exact h.goto (hOutside.trans (hHas.trans (if_neg hLocked)).symm)

theorem serve (h : s.Lined) {i : Instance}
    (hHas : (s.pc n).place = if locked then .inside else .outside) : (s.serve n i locked).Lined := by
  unfold Manager.serve
  split
  · exact h.goto_releaseIf hHas rfl
  · exact h.goto hHas.symm

theorem move (h : s.Lined) (hMove : Move E s a t) : t.Lined := by
  cases hMove with
  | arrive n sid method headers r hPc hSid hMethod hNew =>
    refine Lock.Lined.congr h fun m => ?_
    by_cases hmn : m = n
    · subst hmn
      rw [hPc]
      rcases hNew with ⟨hNew, -⟩ | hNew <;> simp [Manager.pc, hNew, Pc.place]
    · simp [Manager.pc, hmn]
  | acquire n hPc =>
    refine h.acquire ?_
    rcases hPc with ⟨hPc, -⟩ | ⟨hPc, -⟩ <;> rw [hPc] <;> rfl
  | serve n i hPc =>
    refine h.serve ?_
    rcases hPc with hPc | ⟨hPc, -⟩ <;> rw [hPc] <;> rfl
  | serveLocked n i hPc =>
    refine h.serve ?_
    rw [hPc]
    rfl
  | check n sid hPc => exact h.goto (by rw [hPc]; rfl)
  | refuse n sid hPc => exact h.goto (by rw [hPc]; rfl)
  | create n hPc =>
    have hInside : (s.pc n).place = .inside := congrArg Pc.place hPc
    obtain ⟨x, -, hEq⟩ := create_eq s E.lockedCreation n
    rw [hEq]
    cases E.lockedCreation with
    | true => exact goto (s := { s with toSessions := x }) h hInside.symm
    | false => exact goto_release (s := { s with toSessions := x }) h hInside rfl
  | rehydrate n sid hPc =>
    obtain ⟨x, -, hEq⟩ := rehydrate_eq s n sid
    rw [hEq]
    exact goto (s := { s with toSessions := x }) h (congrArg Pc.place hPc).symm
  | register n sid rest hPc => exact @goto s n (.registering rest) h (by rw [hPc]; rfl)
  | registered n hPc => exact h.goto (by rw [hPc]; rfl)
  | answer a n sid starter ctx locked hPc =>
    refine goto_releaseIf (s := { s with toSessions := s.answered n sid starter }) h ?_ ?_
    · exact (congrArg Pc.place hPc).trans rfl
    · split <;> rfl
  | tick | gone => exact h
  | restart =>
    refine Lock.lined_free fun m => ?_
    change (if s.pc m = .absent then Pc.absent else .done false).place = .outside
    by_cases hAbsent : s.pc m = .absent
    · rw [if_pos hAbsent]
      rfl
    · rw [if_neg hAbsent]
      rfl

end Manager.Lined

end OpenSpoke.Mcp
