import OpenSpoke.Spawn.Terminal

/-!
# Who is handed a spawn

A pickup takes effect only on the version its search has seen, which was queued,
and no write makes a spawn queued again. So one pickup takes effect at most, and
none once a cancellation has taken effect on the queued spawn.
-/

namespace OpenSpoke.Spawn

open Lts

/-- A reply with a spawn is the reply of a pickup that has taken effect. -/
def CallPc.Sober : CallPc → Prop
  | .update u _ done conflict =>
    (∀ d, done = .picked (some d) → u = .pickup) ∧ ∀ d, conflict ≠ .picked (some d)
  | .reply r => ∀ d, r ≠ .picked (some d)
  | _ => True

theorem Api.begin_sober (api : Api) : api.begin.Sober := by
  cases api with
  | forceState new =>
    simp only [Api.begin]
    split <;> simp [CallPc.Sober]
  | answer text =>
    simp only [Api.begin]
    split <;> simp [CallPc.Sober]
  | _ => simp [Api.begin, CallPc.Sober]

theorem Api.afterRead_sober (api : Api) (i : Nat) (d : SpawnDoc) : (api.afterRead i d).Sober := by
  cases api with
  | updateState u | finalize => simp [Api.afterRead, CallPc.Sober]
  | _ =>
    simp only [Api.afterRead]
    split <;> simp [CallPc.Sober]

namespace World

/-- The reply of call `n` is a spawn, sent or about to be sent. -/
def Handed (s : World) (n : Nat) : Prop :=
  (∃ d, (s.call n).pc = .reply (.picked (some d))) ∨ ∃ d, (s.call n).reply = some (.picked (some d))

/-- Pickup call `n` has returned the spawn. -/
def Returned (s : World) (n : Nat) : Prop := ∃ d, (s.call n).reply = some (.picked (some d))

/-- The step is the update of pickup call `n`, and it takes effect. -/
def HandsOver (s : World) (n : Nat) (a : SpawnAct) : Prop :=
  a = .call n .land ∧ s.lands a = some .pickup

/-- A cancel or a force_state takes effect on the queued spawn. -/
def Kills (s : World) (a : SpawnAct) : Prop :=
  s.state = .queued ∧ ∃ new, s.lands a = some (.cancel new) ∨ s.lands a = some (.forceState new)

structure Picking (s : World) : Prop where
  sound : s.Sound
  sober : ∀ n, s.Handed n ∨ (s.call n).pc.Sober
  fresh : s.state = .queued → ∀ n, ¬ s.Handed n
  one : ∀ n m, s.Handed n → s.Handed m → n = m

theorem picking_init (isSupervisor : Bool) (mode : Mode) : (init isSupervisor mode).Picking :=
  ⟨sound_init isSupervisor mode, fun _ => .inr trivial, fun _ n => by simp [init, Handed],
    fun n m h => by simp [init, Handed] at h⟩

theorem callStep_handed {s t : World} {n : Nat} {e : CallEv} (hs : s.Picking)
    (h : s.callStep n e = some t) (hNot : ¬ s.Handed n) :
    (t.Handed n ∧ s.HandsOver n (.call n e)) ∨ (¬ t.Handed n ∧ (t.call n).pc.Sober) := by
  have hSober := (hs.sober n).resolve_left hNot
  simp only [Handed, not_or, not_exists] at hNot
  obtain ⟨hPcNot, hReplyNot⟩ := hNot
  cases callStep_move h with
  | read i hPc hi =>
    have hNew := Api.afterRead_sober (s.call n).api i (s.doc.version i)
    refine .inr ⟨?_, by simpa using hNew⟩
    rintro (⟨d, hd⟩ | ⟨d, hd⟩)
    · simp only [callTo_call, Function.update_self] at hd
      rw [hd] at hNew
      exact hNew d rfl
    · exact hReplyNot d (by simpa using hd)
  | unread hPc | failed u guard done conflict hPc =>
    exact .inr ⟨by simp [Handed, hReplyNot], by simp [CallPc.Sober]⟩
  | landed u guard done conflict d hPc hLand =>
    rw [hPc] at hSober
    by_cases hPicked : ∃ v, done = .picked (some v)
    · obtain ⟨v, rfl⟩ := hPicked
      obtain rfl := hSober.1 v rfl
      exact .inl ⟨.inl ⟨v, by simp⟩, rfl, by simp [lands, hPc, hLand]⟩
    · have hDone : ∀ v, done ≠ .picked (some v) := fun v hv => hPicked ⟨v, hv⟩
      exact .inr ⟨by simp [Handed, hReplyNot, hDone], by simpa [CallPc.Sober] using hDone⟩
  | refused u guard done conflict hPc hLand =>
    rw [hPc] at hSober
    exact .inr ⟨by simp [Handed, hReplyNot, hSober.2], by simpa [CallPc.Sober] using hSober.2⟩
  | noop u guard done conflict hPc hPartial hSame hCur =>
    rw [hPc] at hSober
    have hOk := hs.sound.calls n
    rw [hPc] at hOk
    obtain ⟨-, hNamed, hQueued, -⟩ := hOk
    -- a pickup changes the version that it names
    have hDone : ∀ v, done ≠ .picked (some v) := by
      rintro v rfl
      obtain rfl := hSober.1 v rfl
      obtain ⟨i, rfl⟩ := Option.ne_none_iff_exists'.mp (hNamed rfl)
      obtain rfl := hCur i rfl
      have hState := (hQueued _ rfl (by simp [Update.sets])).2
      have hRun := congrArg SpawnDoc.state hSame
      simp only [Update.apply, Document.cur] at hRun
      rw [hState] at hRun
      cases hRun
    exact .inr ⟨by simp [Handed, hReplyNot, hDone], by simpa [CallPc.Sober] using hDone⟩
  | abandon u guard done conflict hPc =>
    exact .inr ⟨by simp [Handed, hPc], by simpa [hPc] using hSober⟩
  | ret r hPc =>
    refine .inr ⟨?_, by simp [CallPc.Sober]⟩
    have hr : ∀ d, r ≠ .picked (some d) := fun d hd => hPcNot d (hd ▸ hPc)
    cases hReply : (s.call n).reply with
    | none => simp [Handed, hr]
    | some r' => simpa [Handed, hReply] using hReplyNot

theorem callStep_reply {s t : World} {n : Nat} {e : CallEv} (h : s.callStep n e = some t) {r : Reply}
    (hReply : (s.call n).reply = some r) : (t.call n).reply = some r := by
  cases callStep_move h <;> simp_all

theorem callStep_handing {s t : World} {n : Nat} {e : CallEv} (h : s.callStep n e = some t) {d : SpawnDoc}
    (hPc : (s.call n).pc = .reply (.picked (some d))) : (t.call n).pc = .over := by
  cases e <;> simp only [callStep, hPc] at h <;> cases h
  simp

theorem step_replies {s t : World} {a : SpawnAct} (h : s.step a = some t) :
    s.nextCall ≤ t.nextCall ∧
      ∀ m < s.nextCall, ∀ r, (s.call m).reply = some r → (t.call m).reply = some r := by
  cases step_calls h with
  | none _ _ _ hNext hCall => exact ⟨hNext.ge, fun m _ r hr => hCall ▸ hr⟩
  | request _ _ api _ _ hNext hCall =>
    refine ⟨hNext ▸ Nat.le_succ _, fun m hm r hr => ?_⟩
    rw [hCall, request_call, Function.update_of_ne (Nat.ne_of_lt hm)]
    exact hr
  | move n e _ hNext hStep hOther =>
    refine ⟨hNext.ge, fun m _ r hr => ?_⟩
    rcases eq_or_ne m n with rfl | hm
    · exact callStep_reply hStep hr
    · rwa [hOther m hm]

theorem run_replies {s t : World} {acts : List SpawnAct} (h : run step s acts = some t) :
    s.nextCall ≤ t.nextCall ∧
      ∀ m < s.nextCall, ∀ r, (s.call m).reply = some r → (t.call m).reply = some r := by
  refine run_induction (motive := fun _ t => s.nextCall ≤ t.nextCall ∧
    ∀ m < s.nextCall, ∀ r, (s.call m).reply = some r → (t.call m).reply = some r) h
    ⟨Nat.le_refl _, fun _ _ _ hr => hr⟩ ?_
  rintro _ t a u - ⟨hLe, hKeep⟩ hStep
  obtain ⟨hNext, hStay⟩ := step_replies hStep
  exact ⟨hLe.trans hNext, fun m hm r hr => hStay m (hm.trans_le hLe) r (hKeep m hm r hr)⟩

theorem Quiet.handed {s t : World} (h : Quiet s t) {n : Nat} :
    (t.Handed n → s.Handed n) ∧ (s.Handed n ∨ (s.call n).pc.Sober → t.Handed n ∨ (t.call n).pc.Sober) := by
  rcases h.calls n with hEq | ⟨api, -, hEq⟩
  · simp only [Handed, hEq]
    exact ⟨id, id⟩
  · have hNew := api.begin_sober
    refine ⟨?_, fun _ => .inr (hEq ▸ hNew)⟩
    rintro (⟨d, hd⟩ | ⟨d, hd⟩)
    · rw [hEq] at hd
      rw [show api.begin = .reply (.picked (some d)) from hd] at hNew
      exact absurd rfl (hNew d)
    · rw [hEq] at hd
      cases hd

/-- A call gets its claim on the spawn from the update of a pickup. -/
theorem handed_step {s t : World} {a : SpawnAct} (hs : s.Picking) (h : s.step a = some t) (n : Nat) :
    (t.Handed n → s.Handed n ∨ s.HandsOver n a) ∧ (t.Handed n ∨ (t.call n).pc.Sober) := by
  rcases step_cases h with hQuiet | ⟨m, e, rfl, hCall⟩
  · exact ⟨fun hn => .inl (hQuiet.handed.1 hn), hQuiet.handed.2 (hs.sober n)⟩
  · rcases eq_or_ne n m with rfl | hm
    · by_cases hHanded : s.Handed n
      · refine ⟨fun _ => .inl hHanded, ?_⟩
        rcases hHanded with ⟨d, hPc⟩ | ⟨d, hReply⟩
        · exact .inr (by rw [callStep_handing hCall hPc]; trivial)
        · exact .inl (.inr ⟨d, callStep_reply hCall hReply⟩)
      · rcases callStep_handed hs hCall hHanded with ⟨hNew, hOver⟩ | ⟨hStill, hSober⟩
        · exact ⟨fun _ => .inr hOver, .inl hNew⟩
        · exact ⟨fun hn => absurd hn hStill, .inr hSober⟩
    · have hEq := callStep_other hCall hm
      simp only [Handed, hEq]
      exact ⟨.inl, hs.sober n⟩

theorem handsOver_state {s t : World} {a : SpawnAct} (hs : s.Sound) (h : s.step a = some t) {n : Nat}
    (hOver : s.HandsOver n a) : s.state = .queued ∧ t.state = .running := by
  obtain ⟨rfl, hLands⟩ := hOver
  refine ⟨?_, by rw [step_state h, hLands]; rfl⟩
  obtain ⟨m, guard, done, conflict, hAct, hPc, hLand⟩ := lands_eq_some hLands
  obtain ⟨rfl, -⟩ := SpawnAct.call.inj hAct
  have hOk := hs.calls n
  rw [hPc] at hOk
  obtain ⟨i, rfl⟩ := Option.ne_none_iff_exists'.mp (hOk.2.1 rfl)
  exact hs.guarded hPc hLand (by simp [Update.sets])

theorem queued_step {s t : World} {a : SpawnAct} (hs : s.Sound) (h : s.step a = some t)
    (hQueued : t.state = .queued) : s.state = .queued := by
  rw [step_state h] at hQueued
  cases hLands : s.lands a with
  | none => simpa [hLands] using hQueued
  | some u =>
    cases hSets : u.sets with
    | none => simpa [hLands, hSets] using hQueued
    | some st =>
      have hst : st = .queued := by simpa [hLands, hSets] using hQueued
      exact absurd (hst ▸ hSets) (hs.lands_legal hLands).sets_ne

theorem Picking.step {s t : World} {a : SpawnAct} (hs : s.Picking) (h : s.step a = some t) :
    t.Picking := by
  have hClaim := handed_step hs h
  refine ⟨sound_step hs.sound h, fun n => (hClaim n).2, fun hQueued n hn => ?_, fun n m hn hm => ?_⟩
  · have hBefore := queued_step hs.sound h hQueued
    rcases (hClaim n).1 hn with hOld | hOver
    · exact hs.fresh hBefore n hOld
    · rw [(handsOver_state hs.sound h hOver).2] at hQueued
      cases hQueued
  · have hFirst : ∀ k l, s.HandsOver k a → s.Handed l → False := fun k l hOver hOld =>
      hs.fresh (handsOver_state hs.sound h hOver).1 l hOld
    rcases (hClaim n).1 hn with hOldN | hOverN <;> rcases (hClaim m).1 hm with hOldM | hOverM
    · exact hs.one n m hOldN hOldM
    · exact (hFirst m n hOverM hOldN).elim
    · exact (hFirst n m hOverN hOldM).elim
    · have hAct := hOverN.1.symm.trans hOverM.1
      exact (SpawnAct.call.inj hAct).1

theorem picking_run {isSupervisor : Bool} {mode : Mode} {acts : List SpawnAct} {s : World}
    (hRun : run step (init isSupervisor mode) acts = some s) : s.Picking :=
  run_induction (motive := fun _ s => s.Picking) hRun (picking_init isSupervisor mode)
    fun _ _ _ _ _ hs h => hs.step h

/-- The hand-over in the history of a spawn that a call holds or has returned. -/
theorem handed_history {isSupervisor : Bool} {mode : Mode} {acts : List SpawnAct} {s : World}
    (hRun : run step (init isSupervisor mode) acts = some s) {n : Nat} (hn : s.Handed n) :
    ∃ before after u, acts = before ++ .call n .land :: after ∧
      run step (init isSupervisor mode) before = some u ∧ u.state = .queued ∧
        u.lands (.call n .land) = some .pickup := by
  refine run_induction (motive := fun acts s => s.Handed n → ∃ before after u,
    acts = before ++ .call n .land :: after ∧ run step (init isSupervisor mode) before = some u ∧
      u.state = .queued ∧ u.lands (.call n .land) = some .pickup) hRun ?_ ?_ hn
  · intro hn
    simp [init, Handed] at hn
  · intro acts s a t hBefore ih hStep hn
    have hs := picking_run hBefore
    rcases (handed_step hs hStep n).1 hn with hOld | hOver
    · obtain ⟨before, after, u, rfl, hu⟩ := ih hOld
      exact ⟨before, after ++ [a], u, by simp, hu⟩
    · have hQueued := (handsOver_state hs.sound hStep hOver).1
      obtain ⟨rfl, hLands⟩ := hOver
      exact ⟨acts, [], s, rfl, hBefore, hQueued, hLands⟩

/-- A spawn that no call holds and that is no longer queued is never handed out. -/
theorem unhanded_run {s t : World} {acts : List SpawnAct} (hs : s.Picking) (hState : s.state ≠ .queued)
    (hNone : ∀ n, ¬ s.Handed n) (h : run step s acts = some t) (n : Nat) : ¬ t.Handed n := by
  refine (run_induction (motive := fun _ t => t.Picking ∧ t.state ≠ .queued ∧ ∀ n, ¬ t.Handed n) h
    ⟨hs, hState, hNone⟩ ?_).2.2 n
  rintro _ t a u - ⟨ht, hQueued, hNone⟩ hStep
  refine ⟨ht.step hStep, fun hu => hQueued (queued_step ht.sound hStep hu), fun m hm => ?_⟩
  rcases (handed_step ht hStep m).1 hm with hOld | hOver
  · exact hNone m hOld
  · exact hQueued (handsOver_state ht.sound hStep hOver).1

theorem killed_unhanded {isSupervisor : Bool} {mode : Mode} {before after : List SpawnAct}
    {a : SpawnAct} {s u : World}
    (hRun : run step (init isSupervisor mode) (before ++ a :: after) = some s)
    (hBefore : run step (init isSupervisor mode) before = some u) (hKills : u.Kills a) (n : Nat) :
    ¬ s.Handed n := by
  have hu := picking_run hBefore
  rw [run_append, hBefore, Option.bind_some, run_cons] at hRun
  obtain ⟨t, hStep, hAfter⟩ := Option.bind_eq_some_iff.mp hRun
  obtain ⟨hQueued, new, hLands⟩ := hKills
  have hSets : ∃ v, u.lands a = some v ∧ v.sets = some new ∧ v ≠ .pickup := by
    rcases hLands with hLands | hLands
    · exact ⟨_, hLands, rfl, by simp⟩
    · exact ⟨_, hLands, rfl, by simp⟩
  obtain ⟨v, hv, hNew, hNot⟩ := hSets
  refine unhanded_run (hu.step hStep) ?_ (fun m hm => ?_) hAfter n
  · rw [step_state hStep, hv, Option.bind_some, hNew, Option.getD_some]
    rintro rfl
    exact (hu.sound.lands_legal hv).sets_ne hNew
  · rcases (handed_step hu hStep m).1 hm with hOld | hOver
    · exact hu.fresh hQueued m hOld
    · exact hNot (Option.some.inj (hv.symm.trans hOver.2))

end World

/-! ## Pickups over all spawns -/

/-- The program counter of `core_spawn_pickup`; a hit is a spawn and the version
that the search has seen. -/
inductive PollPc
  | absent
  | search
  -- the update of spawn `id` is call `n` there; `rest` are the hits after it
  | hit (id : Nat) (n : Nat) (rest : List (Nat × Nat))
  -- returned `id`, which call `n` has taken, or nothing
  | returned (taken : Option (Nat × Nat))
  deriving DecidableEq

/-- A spawn with what has happened to it so far. -/
structure Spawned where
  isSupervisor : Bool
  mode : Mode
  world : World
  -- history
  trail : List SpawnAct

structure Fleet where
  spawn : Nat → Option Spawned
  nextPoll : Nat
  poll : Nat → PollPc

inductive FleetAct
  -- `core_spawn_submit` stores a spawn
  | submit (id : Nat) (isSupervisor : Bool) (mode : Mode)
  -- anything but a pickup happens to a spawn
  | spawn (id : Nat) (a : SpawnAct)
  | poll
  | search (p : Nat) (hits : List (Nat × Nat))
  -- the update of the hit has been answered; an exception ends the call
  | next (p : Nat) (raised : Bool)

namespace Fleet

def init : Fleet := ⟨fun _ => none, 0, fun _ => .absent⟩

@[simps -fullyApplied] def setPoll (s : Fleet) (p : Nat) (pc : PollPc) : Fleet :=
  { s with poll := Function.update s.poll p pc }

@[simps -fullyApplied] def setSpawn (s : Fleet) (id : Nat) (x : Spawned) : Fleet :=
  { s with spawn := Function.update s.spawn id (some x) }

/-- Spawn `id` takes the steps `acts`. -/
def act (s : Fleet) (id : Nat) (acts : List SpawnAct) : Option Fleet := do
  let x ← s.spawn id
  let w ← run World.step x.world acts
  pure (s.setSpawn id { x with world := w, trail := x.trail ++ acts })

/-- The loop over the hits. -/
def tryHits (s : Fleet) (p : Nat) : List (Nat × Nat) → Option Fleet
  | [] => some (s.setPoll p (.returned none))
  | (id, i) :: rest => do
    let x ← s.spawn id
    let t ← s.act id [.request .pickup, .call x.world.nextCall (.read i)]
    pure (t.setPoll p (.hit id x.world.nextCall rest))

/-- The search has seen version `i` of spawn `id`, and it was queued. -/
def Hit (s : Fleet) (h : Nat × Nat) : Prop :=
  ∃ x ∈ s.spawn h.1, h.2 ≤ x.world.doc.seqNo ∧ (x.world.doc.version h.2).state = .queued

instance (s : Fleet) (h : Nat × Nat) : Decidable (s.Hit h) :=
  match hx : s.spawn h.1 with
  | none => .isFalse (by simp [Hit, hx])
  | some x =>
    decidable_of_iff (h.2 ≤ x.world.doc.seqNo ∧ (x.world.doc.version h.2).state = .queued)
      (by simp [Hit, hx])

def step (s : Fleet) : FleetAct → Option Fleet
  | .submit id isSupervisor mode =>
    if s.spawn id = none then
      some (s.setSpawn id ⟨isSupervisor, mode, .init isSupervisor mode, []⟩)
    else none
  | .spawn id a => if a = .request .pickup then none else s.act id [a]
  | .poll => some { s.setPoll s.nextPoll .search with nextPoll := s.nextPoll + 1 }
  | .search p hits =>
    if s.poll p = .search ∧ hits.length ≤ 5 ∧ (hits.map Prod.fst).Nodup ∧ ∀ h ∈ hits, s.Hit h then
      s.tryHits p hits
    else none
  | .next p raised =>
    match s.poll p with
    | .hit id n rest =>
      match (s.spawn id).bind fun x => (x.world.call n).reply with
      | some (.picked (some _)) => some (s.setPoll p (.returned (some (id, n))))
      | some (.picked none) => s.tryHits p rest
      | some _ => if raised then some (s.setPoll p (.returned none)) else s.tryHits p rest
      | none => none
    | _ => none

/-- Pickup `p` tries spawn `id` by call `n`, or has taken it so. -/
def Names (s : Fleet) (p id n : Nat) : Prop :=
  (∃ rest, s.poll p = .hit id n rest) ∨ s.poll p = .returned (some (id, n))

structure Kept (s : Fleet) : Prop where
  worlds : ∀ id x, s.spawn id = some x →
    run World.step (.init x.isSupervisor x.mode) x.trail = some x.world
  known : ∀ p id n, s.Names p id n → ∃ x, s.spawn id = some x ∧ n < x.world.nextCall
  apart : ∀ p q id n, s.Names p id n → s.Names q id n → p = q
  returned : ∀ p id n, s.poll p = .returned (some (id, n)) →
    ∃ x, s.spawn id = some x ∧ x.world.Returned n

theorem kept_init : Kept init := by
  constructor <;> simp [init, Names]

theorem act_eq_some {s t : Fleet} {id : Nat} {acts : List SpawnAct} (h : s.act id acts = some t) :
    ∃ x w, s.spawn id = some x ∧ run World.step x.world acts = some w ∧
      t = s.setSpawn id { x with world := w, trail := x.trail ++ acts } := by
  simp only [act, Option.bind_eq_bind, Option.bind_eq_some_iff, Option.pure_def, Option.some.injEq] at h
  obtain ⟨x, hx, w, hw, rfl⟩ := h
  exact ⟨x, w, hx, hw, rfl⟩

theorem Kept.act {s t : Fleet} (hs : s.Kept) {id : Nat} {acts : List SpawnAct}
    (h : s.act id acts = some t) : t.Kept := by
  obtain ⟨x, w, hx, hw, rfl⟩ := act_eq_some h
  obtain ⟨hLe, hKeep⟩ := World.run_replies hw
  have hSpawn : ∀ d y, s.spawn d = some y →
      ∃ z, (s.setSpawn id { x with world := w, trail := x.trail ++ acts }).spawn d = some z ∧
        y.world.nextCall ≤ z.world.nextCall ∧
        ∀ m < y.world.nextCall, ∀ r, (y.world.call m).reply = some r →
          (z.world.call m).reply = some r := by
    intro d y hy
    rcases eq_or_ne d id with rfl | hd
    · obtain rfl := Option.some.inj (hx.symm.trans hy)
      exact ⟨_, Function.update_self _ _ _, hLe, hKeep⟩
    · exact ⟨y, by simpa [hd] using hy, Nat.le_refl _, fun _ _ _ hr => hr⟩
  refine ⟨fun d y hy => ?_, fun p d n hn => ?_, hs.apart, fun p d n hp => ?_⟩
  · rcases eq_or_ne d id with rfl | hd
    · simp only [setSpawn_spawn, Function.update_self, Option.some.injEq] at hy
      subst hy
      simp only [run_append, hs.worlds d x hx, Option.bind_some, hw]
    · rw [setSpawn_spawn, Function.update_of_ne hd] at hy
      exact hs.worlds d y hy
  · obtain ⟨y, hy, hn⟩ := hs.known p d n hn
    obtain ⟨z, hz, hLe', -⟩ := hSpawn d y hy
    exact ⟨z, hz, hn.trans_le hLe'⟩
  · obtain ⟨y, hy, v, hv⟩ := hs.returned p d n hp
    obtain ⟨y', hy', hn⟩ := hs.known p d n (.inr hp)
    obtain rfl := Option.some.inj (hy.symm.trans hy')
    obtain ⟨z, hz, -, hStay⟩ := hSpawn d y hy
    exact ⟨z, hz, v, hStay n hn _ hv⟩

theorem Kept.setPoll {s : Fleet} (hs : s.Kept) {p : Nat} {pc : PollPc}
    (hHit : ∀ id n rest, pc = .hit id n rest → (∃ x, s.spawn id = some x ∧ n < x.world.nextCall) ∧
      ∀ q, s.Names q id n → q = p)
    (hTaken : ∀ id n, pc = .returned (some (id, n)) →
      (∃ rest, s.poll p = .hit id n rest) ∧ ∃ x, s.spawn id = some x ∧ x.world.Returned n) :
    (s.setPoll p pc).Kept := by
  have hNames : ∀ q id n, (s.setPoll p pc).Names q id n → q ≠ p ∧ s.Names q id n ∨
      q = p ∧ ((∃ rest, pc = .hit id n rest) ∨ pc = .returned (some (id, n))) := by
    intro q id n hq
    rcases eq_or_ne q p with rfl | hne
    · exact .inr ⟨rfl, by simpa [Names] using hq⟩
    · exact .inl ⟨hne, by simpa [Names, hne] using hq⟩
  have hMine : ∀ id n, (∃ rest, pc = .hit id n rest) ∨ pc = .returned (some (id, n)) →
      (∃ x, s.spawn id = some x ∧ n < x.world.nextCall) ∧ ∀ q, s.Names q id n → q = p := by
    rintro id n (⟨rest, hpc⟩ | hpc)
    · exact hHit id n rest hpc
    · have hWas : s.Names p id n := .inl (hTaken id n hpc).1
      exact ⟨hs.known p id n hWas, fun q hq => hs.apart q p id n hq hWas⟩
  refine ⟨hs.worlds, fun q id n hq => ?_, fun q r id n hq hr => ?_, fun q id n hq => ?_⟩
  · rcases hNames q id n hq with ⟨-, hOld⟩ | ⟨-, hNew⟩
    · exact hs.known q id n hOld
    · exact (hMine id n hNew).1
  · rcases hNames q id n hq with ⟨hqp, hOldQ⟩ | ⟨rfl, hNewQ⟩ <;>
      rcases hNames r id n hr with ⟨hrp, hOldR⟩ | ⟨rfl, hNewR⟩
    · exact hs.apart q r id n hOldQ hOldR
    · exact absurd ((hMine id n hNewR).2 q hOldQ) hqp
    · exact absurd ((hMine id n hNewQ).2 r hOldR) hrp
    · rfl
  · rcases eq_or_ne q p with rfl | hne
    · exact (hTaken id n (by simpa using hq)).2
    · exact hs.returned q id n (by simpa [hne] using hq)

theorem Kept.tryHits {s t : Fleet} (hs : s.Kept) {p : Nat} {hits : List (Nat × Nat)}
    (h : s.tryHits p hits = some t) : t.Kept := by
  cases hits with
  | nil => cases h; exact hs.setPoll (by simp) (by simp)
  | cons hit rest =>
    obtain ⟨id, i⟩ := hit
    simp only [Fleet.tryHits, Option.bind_eq_bind, Option.bind_eq_some_iff, Option.pure_def,
      Option.some.injEq] at h
    obtain ⟨x, hx, u, hu, rfl⟩ := h
    refine (hs.act hu).setPoll ?_ (by simp)
    rintro id' n rest' ⟨⟩
    obtain ⟨x', w, hx', hw, rfl⟩ := act_eq_some hu
    obtain rfl := Option.some.inj (hx.symm.trans hx')
    -- the call is new
    have hNew : x.world.nextCall < w.nextCall := by
      rw [run_cons] at hw
      obtain ⟨v, hv, hw⟩ := Option.bind_eq_some_iff.mp hw
      have hNext : v.nextCall = x.world.nextCall + 1 := by
        cases hv
        rfl
      have hLe := (World.run_replies hw).1
      omega
    refine ⟨⟨_, Function.update_self _ _ _, hNew⟩, fun q hq => ?_⟩
    obtain ⟨y, hy, hLt⟩ := hs.known q id x.world.nextCall hq
    obtain rfl := Option.some.inj (hx.symm.trans hy)
    exact absurd hLt (Nat.lt_irrefl _)

theorem Kept.submit {s : Fleet} (hs : s.Kept) {id : Nat} (hNew : s.spawn id = none)
    (isSupervisor : Bool) (mode : Mode) :
    (s.setSpawn id ⟨isSupervisor, mode, .init isSupervisor mode, []⟩).Kept := by
  have hOld : ∀ d y, s.spawn d = some y →
      (s.setSpawn id ⟨isSupervisor, mode, .init isSupervisor mode, []⟩).spawn d = some y := by
    intro d y hy
    have hd : d ≠ id := by
      rintro rfl
      rw [hNew] at hy
      cases hy
    simpa [hd] using hy
  refine ⟨fun d y hy => ?_, fun p d n hn => ?_, hs.apart, fun p d n hp => ?_⟩
  · rcases eq_or_ne d id with rfl | hd
    · simp only [setSpawn_spawn, Function.update_self, Option.some.injEq] at hy
      subst hy
      rfl
    · exact hs.worlds d y (by simpa [hd] using hy)
  · obtain ⟨y, hy, hn⟩ := hs.known p d n hn
    exact ⟨y, hOld d y hy, hn⟩
  · obtain ⟨y, hy, hr⟩ := hs.returned p d n hp
    exact ⟨y, hOld d y hy, hr⟩

theorem Kept.step {s t : Fleet} (hs : s.Kept) {a : FleetAct} (h : s.step a = some t) : t.Kept := by
  cases a with
  | submit id isSupervisor mode =>
    simp only [Fleet.step, Option.ite_none_right_eq_some, Option.some.injEq] at h
    obtain ⟨hNew, rfl⟩ := h
    exact hs.submit hNew isSupervisor mode
  | spawn id a =>
    simp only [Fleet.step] at h
    split at h
    · cases h
    · exact hs.act h
  | poll =>
    cases h
    have hs' : (s.setPoll s.nextPoll .search).Kept := hs.setPoll (by simp) (by simp)
    exact ⟨hs'.worlds, hs'.known, hs'.apart, hs'.returned⟩
  | search p hits =>
    simp only [Fleet.step, Option.ite_none_right_eq_some] at h
    exact hs.tryHits h.2
  | next p raised =>
    simp only [Fleet.step] at h
    split at h
    next id n rest hPoll =>
      split at h
      next d hReply =>
        cases h
        refine hs.setPoll (by simp) ?_
        rintro id' n' ⟨⟩
        obtain ⟨x, hx, hReply⟩ := Option.bind_eq_some_iff.mp hReply
        exact ⟨⟨rest, hPoll⟩, x, hx, d, hReply⟩
      next => exact hs.tryHits h
      next =>
        split at h
        · cases h
          exact hs.setPoll (by simp) (by simp)
        · exact hs.tryHits h
      next => cases h
    next => cases h

end Fleet

/-- Of all the pickups of a run at most one returns a given spawn; it has taken the
spawn while that was queued, and no cancel or force_state had taken effect on it
by then. -/
theorem picked_up_once {acts : List FleetAct} {s : Fleet}
    (hRun : run Fleet.step .init acts = some s) {id : Nat} {x : Spawned} (hx : s.spawn id = some x) :
    run World.step (.init x.isSupervisor x.mode) x.trail = some x.world ∧
      (∀ p q n m, s.poll p = .returned (some (id, n)) → s.poll q = .returned (some (id, m)) → p = q) ∧
      (∀ p n, s.poll p = .returned (some (id, n)) → ∃ before after u,
        x.trail = before ++ .call n .land :: after ∧
          run World.step (.init x.isSupervisor x.mode) before = some u ∧ u.state = .queued ∧
            u.lands (.call n .land) = some .pickup) ∧
      ∀ before a after u, x.trail = before ++ a :: after →
        run World.step (.init x.isSupervisor x.mode) before = some u → u.Kills a →
          ∀ p n, s.poll p ≠ .returned (some (id, n)) := by
  have hs : s.Kept := run_induction (motive := fun _ s => s.Kept) hRun Fleet.kept_init
    fun _ _ _ _ _ hs h => hs.step h
  have hWorld := hs.worlds id x hx
  have hReturned : ∀ p n, s.poll p = .returned (some (id, n)) → x.world.Returned n := by
    intro p n hp
    obtain ⟨y, hy, hn⟩ := hs.returned p id n hp
    obtain rfl := Option.some.inj (hx.symm.trans hy)
    exact hn
  refine ⟨hWorld, fun p q n m hp hq => ?_, fun p n hp => ?_, fun before a after u hTrail hu hKills p n hp => ?_⟩
  · have hSame := (World.picking_run hWorld).one n m (.inr (hReturned p n hp)) (.inr (hReturned q m hq))
    subst hSame
    exact hs.apart p q id n (.inr hp) (.inr hq)
  · exact World.handed_history hWorld (.inr (hReturned p n hp))
  · rw [hTrail] at hWorld
    exact World.killed_unhanded hWorld hu hKills n (.inr (hReturned p n hp))

/-- Two pickups see the same queued spawn, and the second meets a version conflict. -/
def contendedPickup : List FleetAct :=
  [.submit 7 false .claude, .poll, .poll, .search 0 [(7, 0)], .search 1 [(7, 0)],
    .spawn 7 (.call 0 .land), .spawn 7 (.call 1 .land), .spawn 7 (.call 0 .ret),
    .spawn 7 (.call 1 .ret), .next 0 false, .next 1 false]

theorem contendedPickup_once : ∃ s x, run Fleet.step .init contendedPickup = some s ∧
    s.spawn 7 = some x ∧ s.poll 0 = .returned (some (7, 0)) ∧ s.poll 1 = .returned none ∧
    ∃ before after u, x.trail = before ++ .call 0 .land :: after ∧
      run World.step (.init x.isSupervisor x.mode) before = some u ∧ u.state = .queued ∧
        u.lands (.call 0 .land) = some .pickup := by
  obtain ⟨s, hRun, hs⟩ := exists_run_of_any Fleet.step .init contendedPickup
    (fun s => s.poll 0 = .returned (some (7, 0)) && s.poll 1 = .returned none &&
      (s.spawn 7).isSome) (by decide)
  simp only [Bool.and_eq_true, decide_eq_true_eq, Option.isSome_iff_exists] at hs
  obtain ⟨⟨hFirst, hSecond⟩, x, hx⟩ := hs
  exact ⟨s, x, hRun, hx, hFirst, hSecond, (picked_up_once hRun hx).2.2.1 0 0 hFirst⟩

end OpenSpoke.Spawn
