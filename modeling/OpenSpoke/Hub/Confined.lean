import OpenSpoke.Hub.Registry

/-!
# Confinement of users

If administrators alone write to the registry, the hub calls only the URLs that they have
given, a user reaches the clusters of the user's document, and what a user does changes
nothing for the others.
-/

namespace OpenSpoke.Hub

open Lts
open Python (Text)

namespace World

variable {E : Host} {w t : World} {u v : Text} {n : Nat}

def CarefulAt (E : Host) (w : World) (u : Text) : Pc → Prop
  | .registering s => E.admin u = true ∧ E.doc s.clusterName = some s.clusterName
  | .updating name changes old _ => E.admin u = true ∧ E.doc name = some name ∧
    (changes.url = none → (w.registry.get name).map Spoke.url = some old.url)
  | .deleting name => E.admin u = true ∧ E.doc name = some name
  | _ => True

instance : (pc : Pc) → Decidable (CarefulAt E w u pc)
  | .registering _ | .updating .. | .deleting _ => inferInstanceAs (Decidable (_ ∧ _))
  | .absent | .listing | .filtering _ | .heading .. | .getting .. | .checking _ | .resolving ..
  | .replied _ | .recordGet .. | .recordPut .. | .done _ => .isTrue trivial

def PlainAt (w : World) (u : Text) (answered : Bool) : Pc → Prop
  | .checking cluster => (w.currentAcl u answered).Plain cluster
  | _ => True

instance (answered : Bool) : (pc : Pc) → Decidable (PlainAt w u answered pc)
  | .checking _ => inferInstanceAs (Decidable (Allowed.Plain _ _))
  | .absent | .listing | .filtering _ | .heading .. | .getting .. | .registering _ | .updating ..
  | .deleting _ | .resolving .. | .replied _ | .recordGet .. | .recordPut .. | .done _ => .isTrue trivial

/-- Only administrators write, under names that stand in paths as they are; the URL of an
entry is still there when an update without one writes the entry. -/
def Careful (E : Host) (w : World) : Act → Prop
  | .request u n a => a = .refused ∨ w.CarefulAt E u (w.call u n)
  | .acl u n answered => w.PlainAt u answered (w.call u n)
  | .record _ _ (some key) _ => E.astray key = none
  | _ => True

instance : (act : Act) → Decidable (w.Careful E act)
  | .request .. => inferInstanceAs (Decidable (_ ∨ _))
  | .acl u _ answered => inferInstanceAs (Decidable (w.PlainAt u answered _))
  | .record _ _ (some key) _ => inferInstanceAs (Decidable (E.astray key = none))
  | .record _ _ none _ | .call .. | .reach .. | .grant .. => .isTrue trivial

/-- What a call has been let through to. -/
def CallOk (E : Host) (u : Text) : Pc → Prop
  | .resolving cluster allowed => E.admin u = false → ∃ a, allowed = some a ∧ a.has cluster
  | .recordGet key _ _ | .recordPut key _ _ _ => E.astray key = none
  | _ => True

structure Inv (E : Host) (w : World) : Prop where
  entries : ∀ id s, w.registry.get id = some s →
    orElse s.clusterName id = id ∧ w.given id = some (rstripSlash s.url)
  calls : ∀ u n, CallOk E u (w.call u n)
  called : ∀ v ∈ w.called, v.given = some v.url ∧
    (E.admin v.user = false → ∃ a, v.allowed = some a ∧ a.has v.cluster)

structure Initial (w : World) : Prop where
  entries : ∀ id s, w.registry.get id = some s →
    orElse s.clusterName id = id ∧ w.given id = some (rstripSlash s.url)
  absent : ∀ u n, w.call u n = .absent
  called : w.called = []

theorem Initial.inv (h : w.Initial) : w.Inv E where
  entries := h.entries
  calls u n := by
    rw [h.absent u n]
    trivial
  called v hv := by
    rw [h.called] at hv
    cases hv

/-! ## Lookups -/

theorem entry_load {x : SpokeIndex} {cluster : Text} {s : Spoke}
    (h : entry (load x) cluster = some s) :
    ∃ id, x.get id = some s ∧ orElse s.clusterName id = cluster := by
  obtain ⟨d, hFind, rfl⟩ := Option.map_eq_some_iff.mp h
  have hName : d.1 = cluster := by simpa using List.find?_some hFind
  have hMem := List.mem_reverse.mp (List.mem_of_find?_eq_some hFind)
  obtain ⟨e, he, rfl⟩ := List.mem_map.mp hMem
  exact ⟨e.1, DocIndex.mem_docs_iff.mp (DocIndex.mem_of_mem_search he).1, hName⟩

theorem resolve_ok {clusters : List (Text × Spoke)} {cluster url : Text}
    (h : resolve clusters cluster = .ok url) :
    ∃ s, entry clusters cluster = some s ∧ url = rstripSlash s.url := by
  unfold resolve at h
  split at h
  · cases h
  · split at h
    · cases h
    next s hEntry =>
      split at h
      · cases h
      · cases h
        exact ⟨s, hEntry, rfl⟩

theorem Inv.resolved (h : w.Inv E) {a : Answer} {cluster url : Text}
    (hUrl : resolve (if a = .answered then load w.registry else []) cluster = .ok url) :
    w.given cluster = some url := by
  obtain ⟨s, hEntry, rfl⟩ := resolve_ok hUrl
  split at hEntry
  · obtain ⟨id, hGet, hName⟩ := entry_load hEntry
    obtain ⟨hId, hGiven⟩ := h.entries id s hGet
    obtain rfl : id = cluster := hId.symm.trans hName
    exact hGiven
  · cases hEntry

/-! ## Steps -/

theorem call_goto_self {pc : Pc} : (w.goto u n pc).call u n = pc := by
  simp [goto]

theorem call_goto {pc : Pc} (v : Text) (m : Nat) :
    (w.goto u n pc).call v m = pc ∨ (w.goto u n pc).call v m = w.call v m := by
  by_cases hv : v = u
  · subst hv
    by_cases hm : m = n
    · subst hm
      exact .inl call_goto_self
    · exact .inr (by simp [goto, hm])
  · exact .inr (by simp [goto, hv])

theorem call_goto_of_ne {pc : Pc} (h : v ≠ u) : (w.goto u n pc).call v = w.call v := by
  simp [goto, h]

theorem Inv.goto (h : w.Inv E) {pc : Pc} (hPc : CallOk E u pc) : (w.goto u n pc).Inv E where
  entries := h.entries
  called := h.called
  calls v m := by
    by_cases hv : v = u
    · subst hv
      have hMoved : (w.goto v n pc).call v m = pc ∨ (w.goto v n pc).call v m = w.call v m :=
        call_goto v m
      rcases hMoved with hNew | hOld
      · rw [hNew]
        exact hPc
      · rw [hOld]
        exact h.calls v m
    · rw [call_goto_of_ne hv]
      exact h.calls v m

theorem Inv.given (h : w.Inv E) {name : Text} {s : Spoke} (hName : s.clusterName = name) :
    World.Inv E { w with
      registry := w.registry.put name s
      given := Function.update w.given name (some (rstripSlash s.url)) } where
  calls := h.calls
  called := h.called
  entries id r hGet := by
    by_cases hId : id = name
    · subst hId
      rw [DocIndex.get_put_self] at hGet
      cases hGet
      refine ⟨?_, Function.update_self _ _ _⟩
      unfold orElse
      split
      · rfl
      · exact hName
    · rw [DocIndex.get_put_of_ne _ _ hId] at hGet
      refine (h.entries id r hGet).imp_right fun hGiven => ?_
      exact (Function.update_of_ne hId _ _).trans hGiven

theorem Inv.kept (h : w.Inv E) {name : Text} {s : Spoke} (hName : s.clusterName = name)
    (hUrl : (w.registry.get name).map Spoke.url = some s.url) :
    (w.put (some name) s).Inv E := by
  obtain ⟨old, hOld, hEq⟩ := Option.map_eq_some_iff.mp hUrl
  obtain ⟨-, hGiven⟩ := h.entries name old hOld
  have hSame : Function.update w.given name (some (rstripSlash s.url)) = w.given := by
    rw [← hEq, ← hGiven, Function.update_eq_self]
  have hInv := h.given hName
  rw [hSame] at hInv
  exact hInv

theorem Inv.deleted (h : w.Inv E) (name : Text) :
    World.Inv E { w with
      registry := w.registry.delete name
      given := Function.update w.given name none } where
  calls := h.calls
  called := h.called
  entries id r hGet := by
    by_cases hId : id = name
    · subst hId
      rw [DocIndex.get_delete_self] at hGet
      cases hGet
    · rw [DocIndex.get_delete_of_ne _ hId] at hGet
      refine (h.entries id r hGet).imp_right fun hGiven => ?_
      exact (Function.update_of_ne hId _ _).trans hGiven

theorem give_of_admin {name : Text} {url : Option Text} (h : E.admin u = true) :
    w.give E u name url = { w with given := Function.update w.given name url } := if_pos h

theorem Inv.request (h : w.Inv E) {a : Answer} (hOk : w.Careful E (.request u n a))
    (hs : w.request E u n a = some t) : t.Inv E := by
  have hCall := h.calls u n
  have hDone : ∀ result, (w.goto u n (.done result)).Inv E := fun _ => h.goto trivial
  unfold World.request at hs
  rw [Careful] at hOk
  split at hs
  next =>
    cases hs
    apply h.goto
    generalize (if a = .answered then load w.registry else []) = clusters
    split
    · trivial
    · trivial
  next =>
    split at hs <;> cases hs
    · exact h.goto trivial
    · exact h.goto trivial
  next s hPc =>
    rw [hPc] at hOk
    cases hs
    split
    · exact h.goto trivial
    next hA =>
      obtain ⟨hAdmin, hDoc⟩ := hOk.resolve_left hA
      rw [give_of_admin hAdmin, hDoc]
      exact (hDone _).given rfl
  next =>
    split at hs
    · cases hs
      exact h.goto trivial
    · split at hs <;> cases hs
      · exact h.goto trivial
      · exact h.goto trivial
  next name changes old now hPc =>
    rw [hPc] at hOk
    cases hs
    split
    · exact h.goto trivial
    next hA =>
      obtain ⟨hAdmin, hDoc, hUrl⟩ := hOk.resolve_left hA
      rw [hDoc]
      split
      next url hSome =>
        have hEq : rstripSlash url = rstripSlash (changes.apply name now old).url := by
          simp [Changes.apply, hSome, rstripSlash_rstripSlash]
        rw [give_of_admin hAdmin, hEq]
        exact (hDone _).given rfl
      next hNone =>
        have hName : (changes.apply name now old).clusterName = name := rfl
        apply (hDone _).kept hName
        change (w.registry.get name).map Spoke.url = some (changes.apply name now old).url
        rw [hUrl hNone, Changes.apply, hNone]
        rfl
  next name hPc =>
    rw [hPc] at hOk
    cases hs
    split
    · exact h.goto trivial
    next hA =>
      obtain ⟨hAdmin, hDoc⟩ := hOk.resolve_left hA
      rw [give_of_admin hAdmin, hDoc]
      exact (hDone _).deleted name
  next key now result hPc =>
    rw [hPc] at hCall
    cases hs
    exact h.goto hCall
  next key now old result hPc =>
    rw [hPc] at hCall
    cases hs
    split
    · exact h.goto trivial
    · rw [show E.astray key = none from hCall]
      exact h.goto trivial
  next => cases hs

theorem Inv.checked (h : w.Inv E) {answered : Bool} (hOk : w.Careful E (.acl u n answered))
    (hs : w.checked E u n answered = some t) : t.Inv E := by
  unfold World.checked at hs
  rw [Careful] at hOk
  split at hs
  next =>
    cases hs
    apply h.goto
    trivial
  next cluster hPc =>
    rw [hPc] at hOk
    cases hs
    apply h.goto
    split
    next hAdmin =>
      intro hNot
      rw [hAdmin] at hNot
      cases hNot
    · split
      next hPasses =>
        intro _
        exact ⟨_, rfl, Allowed.has_of_passes hOk hPasses⟩
      · trivial
  next => cases hs

theorem Inv.reach (h : w.Inv E) {a : Answer} {answer : Text}
    (hs : w.reach u n a answer = some t) : t.Inv E := by
  have hCall := h.calls u n
  unfold World.reach at hs
  split at hs
  next cluster allowed hPc =>
    rw [hPc] at hCall
    split at hs <;> cases hs
    · exact h.goto trivial
    next url hUrl =>
      have hInv : (w.goto u n (.replied (.reached url answer))).Inv E := h.goto trivial
      refine ⟨hInv.entries, hInv.calls, fun v hv => ?_⟩
      rcases List.mem_cons.mp hv with rfl | hv
      · exact ⟨h.resolved hUrl, hCall⟩
      · exact h.called v hv
  next => cases hs

theorem Inv.step (h : w.Inv E) {act : Act} (hOk : w.Careful E act) (hs : w.step E act = some t) :
    t.Inv E := by
  cases act with
  | call u n op =>
    simp only [World.step] at hs
    split at hs
    · cases hs
      apply h.goto
      cases op with
      | spokeRegister s now =>
        simp only [Op.begin]
        split
        · trivial
        · trivial
      | _ => trivial
    · cases hs
  | request u n a => exact h.request hOk hs
  | acl u n answered => exact h.checked hOk hs
  | reach u n a answer => exact h.reach hs
  | record u n key now =>
    simp only [World.step, World.record] at hs
    split at hs
    · split at hs <;> cases hs
      · exact h.goto hOk
      · exact h.goto trivial
    · cases hs
  | grant u allowed =>
    cases hs
    exact ⟨h.entries, h.calls, h.called⟩

/-! ## What the others see -/

/-- The same but for the calls of one user, and for the notes. -/
structure Same (u : Text) (w w' : World) : Prop where
  registry : w'.registry = w.registry
  acl : w'.acl = w.acl
  call : ∀ v, v ≠ u → w'.call v = w.call v

theorem Same.refl (u : Text) (w : World) : Same u w w := ⟨rfl, rfl, fun _ _ => rfl⟩

variable {w' : World}

theorem Same.goto (h : Same u w w') (v : Text) (n : Nat) (pc : Pc) :
    Same u (w.goto v n pc) (w'.goto v n pc) where
  registry := h.registry
  acl := h.acl
  call x hx := by
    by_cases hv : x = v
    · subst hv
      simp [World.goto, h.call x hx]
    · rw [call_goto_of_ne hv, call_goto_of_ne hv, h.call x hx]

theorem Same.put (h : Same u w w') (id : Option Text) (s : Spoke) :
    Same u (w.put id s) (w'.put id s) := by
  cases id with
  | none => exact h
  | some id => exact ⟨congrArg (·.put id s) h.registry, h.acl, h.call⟩

theorem Same.delete (h : Same u w w') (id : Option Text) : Same u (w.delete id) (w'.delete id) := by
  cases id with
  | none => exact h
  | some id => exact ⟨congrArg (·.delete id) h.registry, h.acl, h.call⟩

theorem Same.give (h : Same u w w') (v name : Text) (url : Option Text) :
    Same u (w.give E v name url) (w'.give E v name url) := by
  unfold World.give
  split
  · exact ⟨h.registry, h.acl, h.call⟩
  · exact h

theorem Same.get (h : Same u w w') (name : Text) : w'.get E name = w.get E name := by
  rw [World.get, World.get, h.registry]

theorem Same.request (h : Same u w w') (hv : v ≠ u) {a : Answer} (hs : w.request E v n a = some t) :
    ∃ t', w'.request E v n a = some t' ∧ Same u t t' := by
  have hCall : w'.call v n = w.call v n := congrFun (h.call v hv) n
  have hGoto := h.goto v n
  unfold World.request at hs ⊢
  rw [hCall, h.registry]
  simp only [h.get]
  split at hs
  next =>
    cases hs
    exact ⟨_, rfl, hGoto _⟩
  next s now hPc =>
    split at hs <;> cases hs
    next hA => exact ⟨_, if_pos hA, hGoto _⟩
    next hA => exact ⟨_, if_neg hA, hGoto _⟩
  next s hPc =>
    cases hs
    refine ⟨_, rfl, ?_⟩
    split
    · exact hGoto _
    · exact ((hGoto _).put _ _).give _ _ _
  next name changes now hPc =>
    split at hs
    · cases hs
      exact ⟨_, rfl, hGoto _⟩
    · split at hs <;> cases hs
      next hNo => exact ⟨_, if_pos hNo, hGoto _⟩
      next hNo => exact ⟨_, if_neg hNo, hGoto _⟩
  next name changes old now hPc =>
    cases hs
    refine ⟨_, rfl, ?_⟩
    split
    · exact hGoto _
    · split
      · exact ((hGoto _).put _ _).give _ _ _
      · exact (hGoto _).put _ _
  next name hPc =>
    cases hs
    refine ⟨_, rfl, ?_⟩
    split
    · exact hGoto _
    · exact ((hGoto _).delete _).give _ _ _
  next key now result hPc =>
    cases hs
    exact ⟨_, rfl, hGoto _⟩
  next key now old result hPc =>
    cases hs
    refine ⟨_, rfl, ?_⟩
    split
    · exact hGoto _
    · exact (hGoto _).put _ _
  next => cases hs

theorem Same.step (h : Same u w w') {act : Act} (hSeen : act.user ≠ some u)
    (hs : w.step E act = some t) : ∃ t', w'.step E act = some t' ∧ Same u t t' := by
  cases act with
  | call v n op =>
    have hv : v ≠ u := fun hEq => hSeen (congrArg some hEq)
    simp only [World.step, h.call v hv] at hs ⊢
    split at hs
    next hPc =>
      cases hs
      exact ⟨_, rfl, h.goto v n _⟩
    next => cases hs
  | request v n a => exact h.request (fun hEq => hSeen (congrArg some hEq)) hs
  | acl v n answered =>
    have hv : v ≠ u := fun hEq => hSeen (congrArg some hEq)
    simp only [World.step, World.checked, World.currentAcl, h.acl, h.call v hv] at hs ⊢
    split at hs
    next clusters hPc =>
      cases hs
      exact ⟨_, rfl, h.goto v n _⟩
    next cluster hPc =>
      cases hs
      exact ⟨_, rfl, h.goto v n _⟩
    next => cases hs
  | reach v n a answer =>
    have hv : v ≠ u := fun hEq => hSeen (congrArg some hEq)
    simp only [World.step, World.reach, h.registry, h.call v hv] at hs ⊢
    split at hs
    next cluster allowed hPc =>
      split at hs <;> cases hs
      next e hUrl => exact ⟨_, rfl, h.goto v n _⟩
      next url hUrl =>
        have hGoto := h.goto v n (.replied (.reached url answer))
        exact ⟨_, rfl, hGoto.registry, hGoto.acl, hGoto.call⟩
    next => cases hs
  | record v n key now =>
    have hv : v ≠ u := fun hEq => hSeen (congrArg some hEq)
    simp only [World.step, World.record, h.call v hv] at hs ⊢
    split at hs
    next result hPc =>
      split at hs <;> cases hs
      · exact ⟨_, rfl, h.goto v n _⟩
      · exact ⟨_, rfl, h.goto v n _⟩
    next => cases hs
  | grant v allowed =>
    cases hs
    exact ⟨_, rfl, h.registry, congrArg (Function.update · v allowed) h.acl, h.call⟩

theorem same_goto {pc : Pc} : Same u (w.goto u n pc) w :=
  ⟨rfl, rfl, fun _ hv => (call_goto_of_ne hv).symm⟩

/-- A user who is no administrator writes nothing that the others see. -/
theorem Inv.hidden (h : w.Inv E) (hUser : E.admin u = false) {act : Act} (hMine : act.user = some u)
    (hOk : w.Careful E act) (hs : w.step E act = some t) : Same u t w := by
  cases act with
  | call v n op =>
    obtain rfl : v = u := Option.some.inj hMine
    simp only [World.step] at hs
    split at hs <;> cases hs
    exact same_goto
  | request v n a =>
    obtain rfl : v = u := Option.some.inj hMine
    have hCall := h.calls v n
    rw [Careful] at hOk
    have hNot : ¬E.admin v = true := by
      rw [hUser]
      decide
    simp only [World.step] at hs
    unfold World.request at hs
    split at hs
    next =>
      cases hs
      exact same_goto
    next =>
      split at hs <;> cases hs
      · exact same_goto
      · exact same_goto
    next s hPc =>
      rw [hPc] at hOk
      cases hs
      split
      · exact same_goto
      next hA => exact absurd (hOk.resolve_left hA).1 hNot
    next =>
      split at hs
      · cases hs
        exact same_goto
      · split at hs <;> cases hs
        · exact same_goto
        · exact same_goto
    next hPc =>
      rw [hPc] at hOk
      cases hs
      split
      · exact same_goto
      next hA => exact absurd (hOk.resolve_left hA).1 hNot
    next hPc =>
      rw [hPc] at hOk
      cases hs
      split
      · exact same_goto
      next hA => exact absurd (hOk.resolve_left hA).1 hNot
    next =>
      cases hs
      exact same_goto
    next key now old result hPc =>
      rw [hPc] at hCall
      cases hs
      split
      · exact same_goto
      · rw [show E.astray key = none from hCall]
        exact same_goto
    next => cases hs
  | acl v n answered =>
    obtain rfl : v = u := Option.some.inj hMine
    simp only [World.step, World.checked] at hs
    split at hs <;> cases hs
    · exact same_goto
    · exact same_goto
  | reach v n a answer =>
    obtain rfl : v = u := Option.some.inj hMine
    simp only [World.step, World.reach] at hs
    split at hs
    · split at hs <;> cases hs
      · exact same_goto
      · exact ⟨rfl, rfl, fun _ hv => (call_goto_of_ne hv).symm⟩
    · cases hs
  | record v n key now =>
    obtain rfl : v = u := Option.some.inj hMine
    simp only [World.step, World.record] at hs
    split at hs
    · split at hs <;> cases hs
      · exact same_goto
      · exact same_goto
    · cases hs
  | grant v allowed => cases hMine

theorem Same.trans {w'' : World} (h : Same u w w') (h' : Same u w' w'') : Same u w w'' :=
  ⟨h'.registry.trans h.registry, h'.acl.trans h.acl, fun v hv => (h'.call v hv).trans (h.call v hv)⟩

def others (u : Text) (act : Act) : Bool := act.user ≠ some u

/-- Each URL that has been called is what an administrator had last given to the cluster, a
user who is no administrator has called only clusters of the user's document, and without
the steps of such a user everything comes to the same for the others. -/
theorem users_confined {w₀ : World} (hInit : w₀.Initial) {acts : List Act}
    (hRun : run (World.step E) w₀ acts = some w) (hOk : Along (World.step E) (Careful E) w₀ acts) :
    (∀ v ∈ w.called, v.given = some v.url ∧
      (E.admin v.user = false → ∃ a, v.allowed = some a ∧ a.has v.cluster)) ∧
    ∀ u, E.admin u = false → ∃ w', run (World.step E) w₀ (acts.filter (others u)) = some w' ∧
      Same u w w' := by
  have hInv : w.Inv E := by
    have hReach : Reach (World.step E) (Careful E) w₀ w := .of_run hRun hOk
    exact hReach.invariant hInit.inv fun _ _ _ _ hInv hOk hs => hInv.step hOk hs
  refine ⟨hInv.called, fun u hUser => ?_⟩
  have hBoth : Along (World.step E) (fun w act => w.Inv E ∧ w.Careful E act) w₀ acts :=
    hOk.of_invariant (World.Inv E) (fun _ _ hInv hOk => ⟨hInv, hOk⟩)
      (fun _ _ _ hInv hOk hs => hInv.step hOk hs) hInit.inv
  refine run_filter (R := Same u) ?_ ?_ (.refl u w₀) hRun hBoth
  · intro s s' act t hSame hGood hHidden hs
    have hMine : act.user = some u := by simpa [others] using hHidden
    exact (hGood.1.hidden hUser hMine hGood.2 hs).trans hSame
  · intro s s' act t hSame hSeen hs
    exact hSame.step (of_decide_eq_true hSeen) hs

/-! ## A spoke that is moved -/

def root : Text := ['r']

def guest : Text := ['g']

def aye : Text := ['a']

def plainHost : Host where
  admin u := u = root
  doc name := some name
  astray _ := none

def spokeAt (url : Text) : Spoke :=
  ⟨aye, url, [], [], [], [], [], [], [], true, [], clusterKind, [], []⟩

/-- An administrator has registered a cluster, and nobody may reach it. -/
def oneSpoke : World where
  registry := DocIndex.empty.put aye (spokeAt ['x'])
  acl _ := .list []
  call _ _ := .absent
  given := Function.update (fun _ => none) aye (some ['x'])
  called := []

theorem oneSpoke_initial : oneSpoke.Initial where
  absent _ _ := rfl
  called := rfl
  entries id s hGet := by
    by_cases hId : id = aye
    · subst hId
      obtain rfl : spokeAt ['x'] = s :=
        Option.some.inj ((DocIndex.get_put_self _ _ _).symm.trans hGet)
      exact ⟨rfl, rfl⟩
    · have hNone : oneSpoke.registry.get id = none := DocIndex.get_put_of_ne _ _ hId
      rw [hNone] at hGet
      cases hGet

def movedTo (url : Text) : Changes := { Changes.nothing with url := some url }

/-- A user moves the spoke; the cluster is then called by the administrator. -/
def moveRun (u : Text) : List Act :=
  [.call u 0 (.spokeUpdate aye (movedTo ['y', '/']) []), .request u 0 .answered, .request u 0 .answered,
    .call root 1 (.clusterTool aye), .acl root 1 true, .reach root 1 .answered []]

theorem admin_moves : ∃ w, run (World.step plainHost) oneSpoke (moveRun root) = some w ∧
    ∃ v ∈ w.called, v.url = ['y'] ∧ v.given = some v.url := by
  obtain ⟨w, hRun, hw⟩ := exists_run_of_any (World.step plainHost) oneSpoke (moveRun root)
    (fun w => decide (∃ v ∈ w.called, v.url = ['y'])) (by decide)
  obtain ⟨v, hv, hUrl⟩ := of_decide_eq_true hw
  have hOk : Along (World.step plainHost) (Careful plainHost) oneSpoke (moveRun root) := by
    decide
  exact ⟨w, hRun, v, hv, hUrl, ((users_confined oneSpoke_initial hRun hOk).1 v hv).1⟩

/-- Anyone can move a spoke. -/
theorem user_moves : ∃ w, run (World.step plainHost) oneSpoke (moveRun guest) = some w ∧
    plainHost.admin guest = false ∧ ∃ v ∈ w.called, v.url = ['y'] ∧ v.given = some ['x'] := by
  obtain ⟨w, hRun, hw⟩ := exists_run_of_any (World.step plainHost) oneSpoke (moveRun guest)
    (fun w => decide (∃ v ∈ w.called, v.url = ['y'] ∧ v.given = some ['x'])) (by decide)
  exact ⟨w, hRun, by decide, of_decide_eq_true hw⟩

end World

end OpenSpoke.Hub
