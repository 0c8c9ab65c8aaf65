import Mathlib.Data.List.Infix
import OpenSpoke.Lib.Lts
import OpenSpoke.Python.Text

/-!
# The CI dispatcher

`dispatch_target` looks at the head commit of a target and creates a Kubernetes Job
for each job of its `build.json`. A Job of the name that is there already stands for
the build; finished Jobs are removed after some time.
-/

namespace OpenSpoke.Ci

open Lts
open Python (Text)

/-! ## Names of CI jobs

The name that `create_job` gives to the Kubernetes Job of a target, a job of its
`build.json` and a commit. -/

/-- A commit; only the first seven digits of its sha count. -/
structure Sha where
  digits : Text
  long : 7 ≤ digits.length

def Sha.sha7 (c : Sha) : Text := c.digits.take 7

theorem Sha.sha7_length (c : Sha) : c.sha7.length = 7 := by
  rw [Sha.sha7, List.length_take]
  exact Nat.min_eq_left c.long

/-- What a Job is created for. -/
structure Build where
  target : Text
  job : Text
  sha7 : Text
  sha7_length : sha7.length = 7

theorem Build.ext {x y : Build} (ht : x.target = y.target) (hj : x.job = y.job)
    (hs : x.sha7 = y.sha7) : x = y := by
  cases x
  cases y
  simp only at ht hj hs
  subst ht hj hs
  rfl

instance : DecidableEq Build := fun x y =>
  decidable_of_iff (x.target = y.target ∧ x.job = y.job ∧ x.sha7 = y.sha7)
    ⟨fun h => Build.ext h.1 h.2.1 h.2.2, fun h => by rw [h]; exact ⟨rfl, rfl, rfl⟩⟩

/-- `tr '[:upper:]' '[:lower:]'`. -/
def lower (t : Text) : Text := t.map Char.toLower

/-- `cut -c1-48`. -/
def cut (t : Text) : Text := t.take 48

/-- `base` of `create_job`. -/
def Build.base (x : Build) : Text :=
  cut (lower (['c', 'i', '-'] ++ x.target ++ '-' :: x.job ++ '-' :: x.sha7))

inductive Trigger
  | auto
  -- with the time of day in the name
  | manual (hms : Text)
  deriving DecidableEq

def jobname (x : Build) : Trigger → Text
  | .auto => x.base
  | .manual hms => x.base ++ ['-', 'm'] ++ hms

/-! ## Clashes -/

/-- Target and job with the separator between them. -/
def Build.label (x : Build) : Text := lower (x.target ++ '-' :: x.job)

/-- Target, job and commit as they stand in the name. -/
def Build.text (x : Build) : Text := x.label ++ '-' :: lower x.sha7

/-- The separator leaves it open where the target ends. -/
def Ambiguous (x y : Build) : Prop := x.label = y.label ∧ lower x.sha7 = lower y.sha7

/-- What tells them apart does not fit in the name. -/
def CutTogether (x y : Build) : Prop :=
  45 ≤ x.text.length ∧ 45 ≤ y.text.length ∧ x.text.take 45 = y.text.take 45

def Clash (x y : Build) : Prop := Ambiguous x y ∨ CutTogether x y

instance (x y : Build) : Decidable (Clash x y) :=
  inferInstanceAs (Decidable ((_ ∧ _) ∨ (_ ∧ _ ∧ _)))

variable {x y : Build}

theorem base_eq (x : Build) : x.base = ['c', 'i', '-'] ++ x.text.take 45 := by
  simp [Build.base, cut, lower, Build.text, Build.label]

theorem text_inj : x.text = y.text ↔ Ambiguous x y := by
  rw [Build.text, Build.text, Ambiguous]
  refine ⟨fun h => ?_, fun h => by rw [h.1, h.2]⟩
  obtain ⟨hLabel, hRest⟩ := List.append_inj' h (by simp [lower, x.sha7_length, y.sha7_length])
  exact ⟨hLabel, (List.cons.inj hRest).2⟩

/-- Two builds have one name if and only if they clash. -/
theorem base_eq_iff : x.base = y.base ↔ Clash x y := by
  rw [base_eq, base_eq, List.append_cancel_left_eq, Clash, ← text_inj]
  constructor
  · intro h
    have hLength := congrArg List.length h
    rw [List.length_take, List.length_take] at hLength
    by_cases hx : 45 ≤ x.text.length
    · by_cases hy : 45 ≤ y.text.length
      · exact .inr ⟨hx, hy, h⟩
      · omega
    · rw [List.take_of_length_le (by omega), List.take_of_length_le (by omega)] at h
      exact .inl h
  · rintro (h | ⟨-, -, h⟩)
    · rw [h]
    · exact h

/-! ## Dispatching -/

/-- The name of an entry of `jobs`, none if there is none in it. -/
abbrev JobDef := Option Text

/-- What `dispatch_target` reads of a head commit. -/
structure Head where
  sha : Sha
  message : Text
  -- the `jobs` of its build.json, none without a file that can be read
  jobs : Option (List JobDef)

def skipMarks : List Text :=
  [['[', 's', 'k', 'i', 'p', ' ', 'c', 'i', ']'], ['[', 'c', 'i', ' ', 's', 'k', 'i', 'p', ']']]

/-- `grep` of the commit message. -/
def Head.skipped (h : Head) : Bool := skipMarks.any fun mark => mark <:+: h.message

/-- `.name // "build"`. -/
def JobDef.name (d : JobDef) : Text := d.getD ['b', 'u', 'i', 'l', 'd']

def Head.build (h : Head) (target : Text) (d : JobDef) : Build :=
  ⟨target, d.name, h.sha.sha7, h.sha.sha7_length⟩

/-! ## The cluster -/

/-- A Kubernetes Job, by its labels. -/
structure Job where
  build : Build
  trigger : Trigger
  deriving DecidableEq

def Job.name (j : Job) : Text := jobname j.build j.trigger

structure Cluster where
  jobs : List Job
  -- every Job that was created
  created : List Job
  -- every build that the dispatcher came to by itself
  seen : List Build

def Cluster.init : Cluster := ⟨[], [], []⟩

inductive Act
  -- `create_job`; `admits` says whether the API server takes the manifest
  | create (x : Build) (trigger : Trigger) (admits : Bool)
  -- the Job of that name is removed
  | expire (name : Text)

def Cluster.taken (s : Cluster) (name : Text) : Bool := s.jobs.any fun j => j.name = name

def createJob (s : Cluster) (x : Build) (trigger : Trigger) (admits : Bool) : Cluster :=
  let seen := if trigger = .auto then x :: s.seen else s.seen
  if s.taken (jobname x trigger) || !admits then { s with seen := seen }
  else ⟨⟨x, trigger⟩ :: s.jobs, ⟨x, trigger⟩ :: s.created, seen⟩

def Cluster.step (s : Cluster) : Act → Option Cluster
  | .create x trigger admits => some (createJob s x trigger admits)
  | .expire name => some { s with jobs := s.jobs.filter fun j => j.name ≠ name }

/-- What `dispatch_target` creates at head `h`; a head it cannot read is none. -/
def dispatchTarget (target : Text) (h : Option Head) (trigger : Trigger) (admits : Build → Bool) :
    List Act :=
  match h with
  | none => []
  | some h =>
    if trigger = .auto && h.skipped then []
    else (h.jobs.getD []).map fun d =>
      .create (h.build target d) trigger (admits (h.build target d))

inductive Event
  | dispatch (target : Text) (h : Option Head) (trigger : Trigger) (admits : Build → Bool)
  | expire (name : Text)

def Event.acts : Event → List Act
  | .dispatch target h trigger admits => dispatchTarget target h trigger admits
  | .expire name => [.expire name]

/-- Build `x` is one that the dispatcher has to see to in event `e`. -/
def Event.Sees (e : Event) (x : Build) : Prop :=
  ∃ target h admits, e = .dispatch target (some h) .auto admits ∧ h.skipped = false ∧
    ∃ jobs, h.jobs = some jobs ∧ ∃ d ∈ jobs, x = h.build target d

/-! ## Once -/

def Cluster.builds (s : Cluster) (x : Build) : Nat := s.created.count ⟨x, .auto⟩

/-- Each build that was seen has had one Job. -/
def Cluster.BuiltOnce (s : Cluster) : Prop := ∀ x ∈ s.seen, s.builds x = 1

/-- A Job that stands in the way of `x`: one of a build that clashes with it, or one of a
manual request with the name. -/
def Job.InWay (j : Job) (x : Build) : Prop :=
  match j.trigger with
  | .auto => Clash j.build x
  | .manual _ => j.name = x.base

/-- When the dispatcher comes to a build for the first time, nothing stands in its way; when
it comes again, the Job is still there. -/
def Cluster.Clear (s : Cluster) : Act → Prop
  | .create x .auto admits =>
    (x ∉ s.seen → admits = true ∧ ∀ j ∈ s.jobs, ¬j.InWay x) ∧
      (x ∈ s.seen → admits = false ∨ ∃ j ∈ s.jobs, j.InWay x)
  | .create _ (.manual _) _ | .expire _ => True

instance (j : Job) (x : Build) : Decidable (j.InWay x) :=
  match j with
  | ⟨y, .auto⟩ => inferInstanceAs (Decidable (Clash y x))
  | ⟨y, .manual hms⟩ => inferInstanceAs (Decidable (jobname y (.manual hms) = x.base))

instance (s : Cluster) (a : Act) : Decidable (s.Clear a) :=
  match a with
  | .create x .auto admits => inferInstanceAs (Decidable ((x ∉ s.seen → admits = true ∧
      ∀ j ∈ s.jobs, ¬j.InWay x) ∧ (x ∈ s.seen → admits = false ∨ ∃ j ∈ s.jobs, j.InWay x)))
  | .create _ (.manual _) _ => .isTrue trivial
  | .expire _ => .isTrue trivial

variable {s t : Cluster} {a : Act} {acts : List Act} {x y : Build} {j : Job}

theorem inWay_iff : j.InWay x ↔ j.name = jobname x .auto := by
  cases j with
  | mk build trigger =>
    cases trigger with
    | auto => exact base_eq_iff.symm
    | manual hms => exact Iff.rfl

theorem taken_iff : s.taken (jobname x .auto) = true ↔ ∃ j ∈ s.jobs, j.InWay x := by
  simp [Cluster.taken, inWay_iff]

@[simp] theorem createJob_seen (s : Cluster) (x : Build) (trigger : Trigger) (admits : Bool) :
    (createJob s x trigger admits).seen = if trigger = .auto then x :: s.seen else s.seen := by
  simp only [createJob]
  split <;> rfl

theorem createJob_builds (s : Cluster) (x y : Build) (trigger : Trigger) (admits : Bool) :
    (createJob s y trigger admits).builds x =
      if trigger = .auto ∧ y = x ∧ ¬(s.taken (jobname x .auto) = true ∨ admits = false) then
        s.builds x + 1
      else s.builds x := by
  by_cases hStop : (s.taken (jobname y trigger) || !admits) = true
  · rw [createJob, if_pos hStop]
    refine (if_neg ?_).symm
    rintro ⟨rfl, rfl, hGo⟩
    exact hGo (by simpa using hStop)
  · rw [createJob, if_neg hStop, Cluster.builds]
    by_cases hOwn : (⟨y, trigger⟩ : Job) = ⟨x, .auto⟩
    · obtain ⟨rfl, rfl⟩ := Job.mk.inj hOwn
      rw [List.count_cons_self, if_pos ⟨rfl, rfl, by simpa using hStop⟩]
      rfl
    · rw [List.count_cons_of_ne hOwn, if_neg fun hAll => hOwn (by rw [hAll.1, hAll.2.1])]
      rfl

/-- Nothing is created that was not seen. -/
def Cluster.Tracked (s : Cluster) : Prop := ∀ x, x ∉ s.seen → s.builds x = 0

theorem tracked_step (h : s.Tracked) (hStep : s.step a = some t) : t.Tracked := by
  cases a with
  | expire name =>
    cases hStep
    exact h
  | create y trigger admits =>
    cases hStep
    intro x hx
    rw [createJob_seen] at hx
    rw [createJob_builds]
    split at hx
    next hAuto =>
      obtain ⟨hne, hNot⟩ := not_or.mp (mt List.mem_cons.mpr hx)
      rw [if_neg fun hAll => hne hAll.2.1.symm]
      exact h x hNot
    next hManual =>
      rw [if_neg fun hAll => hManual hAll.1]
      exact h x hx

/-- A step keeps builds at one Job each if and only if its way is clear. -/
theorem builtOnce_step (hTracked : s.Tracked) (h : s.BuiltOnce) (hStep : s.step a = some t) :
    t.BuiltOnce ↔ s.Clear a := by
  cases a with
  | expire name =>
    cases hStep
    exact iff_of_true h trivial
  | create y trigger admits =>
    cases hStep
    cases trigger with
    | manual hms =>
      refine iff_of_true (fun x hx => ?_) trivial
      rw [createJob_builds, if_neg fun hAll => nomatch hAll.1]
      exact h x (by simpa using hx)
    | auto =>
      -- the other builds have as many Jobs as before, so it is about `y`
      have hAbout : (createJob s y .auto admits).BuiltOnce ↔
          (createJob s y .auto admits).builds y = 1 := by
        refine ⟨fun hOnce => hOnce y (by simp), fun hy x hx => ?_⟩
        by_cases hxy : x = y
        · rw [hxy]
          exact hy
        · rw [createJob_builds, if_neg fun hAll => hxy hAll.2.1.symm]
          exact h x (by simpa [hxy] using hx)
      rw [hAbout, createJob_builds, Cluster.Clear]
      by_cases hTaken : s.taken (jobname y .auto) = true
      · have hWay := taken_iff.mp hTaken
        rw [if_neg fun hAll => hAll.2.2 (.inl hTaken)]
        by_cases hy : y ∈ s.seen
        · exact iff_of_true (h y hy) ⟨fun hNot => absurd hy hNot, fun _ => .inr hWay⟩
        · rw [hTracked y hy]
          obtain ⟨j, hj, hIn⟩ := hWay
          exact iff_of_false Nat.zero_ne_one fun hClear => (hClear.1 hy).2 j hj hIn
      · have hFree : ∀ j ∈ s.jobs, ¬j.InWay y := fun j hj hIn => hTaken (taken_iff.mpr ⟨j, hj, hIn⟩)
        have hWay : ¬∃ j ∈ s.jobs, j.InWay y := fun hWay => hTaken (taken_iff.mpr hWay)
        by_cases hy : y ∈ s.seen
        · have hOne := h y hy
          cases admits <;> simp [hTaken, hOne, hy, hWay]
        · have hZero := hTracked y hy
          cases admits with
          | false => simp [hZero, hy]
          | true =>
            rw [if_pos (by simp [hTaken]), hZero]
            exact iff_of_true rfl ⟨fun _ => ⟨rfl, hFree⟩, fun hIn => absurd hIn hy⟩

/-! ## Histories -/

theorem seen_of_run (hRun : run Cluster.step s acts = some t) :
    x ∈ t.seen ↔ x ∈ s.seen ∨ ∃ admits, .create x .auto admits ∈ acts := by
  induction acts generalizing s with
  | nil =>
    cases hRun
    simp
  | cons a acts ih =>
    obtain ⟨u, hStep, hRest⟩ := Option.bind_eq_some_iff.mp hRun
    rw [ih hRest]
    cases a with
    | expire name =>
      cases hStep
      simp
    | create y trigger admits =>
      cases hStep
      cases trigger with
      | manual hms => simp
      | auto => simp [or_assoc, or_left_comm, exists_or, eq_comm]

theorem create_mem_acts (e : Event) :
    (∃ admits, .create x .auto admits ∈ e.acts) ↔ e.Sees x := by
  cases e with
  | expire name => simp [Event.acts, Event.Sees]
  | dispatch target h trigger admits =>
    cases h with
    | none => simp [Event.acts, Event.Sees, dispatchTarget]
    | some h =>
      cases trigger with
      | manual hms => simp [Event.acts, Event.Sees, dispatchTarget]
      | auto =>
        cases hSkip : h.skipped with
        | true => simp [Event.acts, Event.Sees, dispatchTarget, hSkip]
        | false =>
          constructor
          · rintro ⟨b, hMem⟩
            simp only [Event.acts, dispatchTarget, hSkip, Bool.and_false, Bool.false_eq_true,
              if_false] at hMem
            obtain ⟨d, hd, hEq⟩ := List.mem_map.mp hMem
            obtain ⟨rfl, -, -⟩ := Act.create.inj hEq
            cases hJobs : h.jobs with
            | none => simp [hJobs] at hd
            | some jobs =>
              exact ⟨target, h, admits, rfl, hSkip, jobs, hJobs, d, by simpa [hJobs] using hd, rfl⟩
          · rintro ⟨_, _, _, hEq, -, jobs, hJobs, d, hd, rfl⟩
            obtain ⟨rfl, hHead, -, rfl⟩ := Event.dispatch.inj hEq
            obtain rfl := Option.some.inj hHead
            refine ⟨admits (h.build target d), ?_⟩
            simp only [Event.acts, dispatchTarget, hSkip, Bool.and_false, Bool.false_eq_true,
              if_false, hJobs]
            exact List.mem_map.mpr ⟨d, hd, rfl⟩

/-- Over any history of dispatches and removals, each build that was seen has exactly one
Job after every step if and only if the way of every step was clear. -/
theorem commits_built_once (events : List Event)
    (hRun : run Cluster.step .init (events.flatMap Event.acts) = some s) :
    (Along Cluster.step (fun u a => ∀ t, u.step a = some t → t.BuiltOnce) .init
        (events.flatMap Event.acts) ↔
      Along Cluster.step Cluster.Clear .init (events.flatMap Event.acts)) ∧
    (Along Cluster.step Cluster.Clear .init (events.flatMap Event.acts) →
      ∀ e ∈ events, ∀ x, e.Sees x → s.builds x = 1) ∧
    ∀ x y : Build, jobname x .auto = jobname y .auto ↔ Clash x y := by
  have hInit : Cluster.init.Tracked ∧ Cluster.init.BuiltOnce := ⟨fun _ _ => rfl, fun _ hx => nomatch hx⟩
  have hIff : ∀ u a, u.Tracked ∧ u.BuiltOnce →
      ((∀ t, Cluster.step u a = some t → t.BuiltOnce) ↔ u.Clear a) := by
    rintro u a ⟨hTracked, hOnce⟩
    obtain ⟨t, hStep⟩ : ∃ t, u.step a = some t := by cases a <;> exact ⟨_, rfl⟩
    rw [← builtOnce_step hTracked hOnce hStep]
    exact ⟨fun h => h t hStep, fun h t' hStep' => Option.some.inj (hStep.symm.trans hStep') ▸ h⟩
  have hKeep : ∀ u a t, u.Tracked ∧ u.BuiltOnce → u.Clear a → Cluster.step u a = some t →
      t.Tracked ∧ t.BuiltOnce := fun u a t hInv hClear hStep =>
    ⟨tracked_step hInv.1 hStep, (builtOnce_step hInv.1 hInv.2 hStep).mpr hClear⟩
  refine ⟨along_congr _ hIff hKeep hInit _, fun hAlong e he x hx => ?_, fun x y => base_eq_iff⟩
  have hEnd : s.Tracked ∧ s.BuiltOnce :=
    @Reach.invariant _ _ _ _ (fun u : Cluster => u.Tracked ∧ u.BuiltOnce) _ _ hInit
      (fun u a t _ hInv hClear hStep => hKeep u a t hInv hClear hStep) (Reach.of_run hRun hAlong)
  obtain ⟨admits, hMem⟩ := (create_mem_acts e).mpr hx
  exact hEnd.2 x ((seen_of_run hRun).mpr (.inr ⟨admits, List.mem_flatMap.mpr ⟨e, he, hMem⟩⟩))

def shaOf (c : Char) : Sha := ⟨List.replicate 40 c, by simp⟩

def headOf (c : Char) (job : Text) : Head := ⟨shaOf c, [], some [some job]⟩

/-- Two commits of one target with a short name. -/
def shortNames : List Event :=
  [.dispatch ['a'] (some (headOf '1' ['b'])) .auto fun _ => true,
    .dispatch ['a'] (some (headOf '1' ['b'])) .auto fun _ => true,
    .dispatch ['a'] (some (headOf '2' ['b'])) .auto fun _ => true]

theorem shortNames_built : ∃ s, run Cluster.step .init (shortNames.flatMap Event.acts) = some s ∧
    s.builds ((headOf '2' ['b']).build ['a'] (some ['b'])) = 1 := by
  refine ⟨_, rfl, ?_⟩
  refine (commits_built_once shortNames rfl).2.1 ?_ _ (List.mem_cons_of_mem _
    (List.mem_cons_of_mem _ (List.mem_singleton_self _))) _ ?_
  · decide
  · exact ⟨_, _, _, rfl, rfl, _, rfl, _, List.mem_singleton_self _, rfl⟩

/-- A target with a name of 45 characters, and two targets whose names and jobs run
together. -/
def collidingNames : List Event :=
  [.dispatch (List.replicate 45 'a') (some (headOf '1' ['b'])) .auto fun _ => true,
    .dispatch (List.replicate 45 'a') (some (headOf '2' ['b'])) .auto fun _ => true,
    .dispatch ['a', '-', 'b'] (some (headOf '3' ['c'])) .auto fun _ => true,
    .dispatch ['a'] (some (headOf '3' ['b', '-', 'c'])) .auto fun _ => true]

/-- The second commit and the second target are never built. -/
theorem collidingNames_dropped :
    ∃ s, run Cluster.step .init (collidingNames.flatMap Event.acts) = some s ∧
      (∃ e ∈ collidingNames, ∃ x, e.Sees x ∧ x.target = List.replicate 45 'a' ∧ s.builds x = 0) ∧
      ∃ e ∈ collidingNames, ∃ x, e.Sees x ∧ x.target = ['a'] ∧ s.builds x = 0 := by
  refine ⟨_, rfl, ?_, ?_⟩
  · exact ⟨_, List.mem_cons_of_mem _ List.mem_cons_self, _,
      ⟨_, _, _, rfl, rfl, _, rfl, _, List.mem_singleton_self _, rfl⟩, rfl, by decide⟩
  · exact ⟨_, List.mem_cons_of_mem _ (List.mem_cons_of_mem _ (List.mem_cons_of_mem _
      List.mem_cons_self)), _, ⟨_, _, _, rfl, rfl, _, rfl, _, List.mem_singleton_self _, rfl⟩, rfl,
      by decide⟩

end OpenSpoke.Ci
