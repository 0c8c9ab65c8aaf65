import Mathlib.Logic.Function.Basic
import OpenSpoke.Python.Text

/-!
# Credentials of Fleet

`sync` brings the password of three Secrets to the tokens of the store, `status` says what it
would do. A Secret that cannot be read, or has no password that can, is taken for one that is
not there and is applied whole.
-/

namespace OpenSpoke.Credentials.Fleet

open Python (Text)

/-- A byte string: the text that it is the UTF-8 of, or one that is not UTF-8. -/
inductive Value (β : Type*)
  | text (t : Text)
  | binary (b : β)
  deriving DecidableEq

abbrev Name := Text × Text

/-- The data of a Secret under its keys. -/
abbrev Secret (β : Type*) := Text → Option (Value β)

abbrev Cluster (β : Type*) := Name → Option (Secret β)

def password : Text := "password".toList
def username : Text := "username".toList

structure Target where
  id : Name
  provider : Text
  scopeId : Text
  username : Text
  deriving DecidableEq

def targets : List Target :=
  [⟨("fleet-default".toList, "fleet-git-credentials".toList), "github".toList,
      "your-github-org".toList, "your-github-user".toList⟩,
    ⟨("fleet-local".toList, "fleet-git-credentials".toList), "github".toList,
      "your-github-org".toList, "your-github-user".toList⟩,
    ⟨("fleet-default".toList, "fleet-git-credentials-gitlab".toList), "gitlab".toList,
      "gitlab.example.com:your-gitlab-group".toList, "your-gitlab-user".toList⟩]

inductive Get
  | answered
  | failed
  | raised
  deriving DecidableEq

/-- What comes of a patch or an apply, with whether it is carried out. -/
inductive Put
  | answered
  | failed (carried : Bool)
  | raised (carried : Bool)
  deriving DecidableEq

def Put.carried : Put → Bool
  | answered => true
  | failed carried | raised carried => carried

/-- What a target meets in a run: the token of the store, the edits of administrators before
the read and before the write, and what comes of both. -/
structure Turn (β : Type*) where
  token : Option Text
  edits : Cluster β → Cluster β
  get : Get
  later : Cluster β → Cluster β
  put : Put

inductive Status
  | noToken
  | noUsername
  | wouldCreate
  | created
  | createFailed
  | same
  | wouldUpdate
  | updated
  | patchFailed
  deriving DecidableEq

inductive Write
  | patch
  | apply
  deriving DecidableEq

variable {β : Type*}

/-- A target's turn: its status, none if a request raises, and its last request: the cluster
before and after it and the write that is carried out. -/
structure Step (β : Type*) where
  target : Target
  start : Cluster β
  status : Option Status
  before : Cluster β
  wrote : Option Write
  after : Cluster β

/-- The password as it is read; none if there is no Secret, no password or no text in it. -/
def readPassword (c : Cluster β) (id : Name) : Option Text :=
  match c id with
  | none => none
  | some s =>
    match s password with
    | some (.text []) => none
    | some (.text t) => some t
    | _ => none

/-- A merge patch of the password. -/
def patched (c : Cluster β) (id : Name) (s : Secret β) (token : Text) : Cluster β :=
  Function.update c id (some (Function.update s password (some (.text token))))

/-- The manifest with the username and the password is applied. -/
def applied (c : Cluster β) (t : Target) (token : Text) : Cluster β :=
  let s := Function.update ((c t.id).getD fun _ => none) username (some (.text t.username))
  Function.update c t.id (some (Function.update s password (some (.text token))))

def Put.status (p : Put) (done failed : Status) : Option Status :=
  match p with
  | answered => some done
  | Put.failed _ => some failed
  | raised _ => none

def writePassword (t : Target) (u : Turn β) (token : Text) (start c : Cluster β) : Step β :=
  match c t.id with
  | none =>
    ⟨t, start, if u.put.status .updated .patchFailed = none then none else some .patchFailed,
      c, none, c⟩
  | some s =>
    ⟨t, start, u.put.status .updated .patchFailed, c,
      if u.put.carried then some .patch else none,
      if u.put.carried then patched c t.id s token else c⟩

def createSecret (t : Target) (u : Turn β) (token : Text) (start c : Cluster β) : Step β :=
  ⟨t, start, u.put.status .created .createFailed, c,
    if u.put.carried then some .apply else none,
    if u.put.carried then applied c t token else c⟩

/-- What `_read_password` gives, if it does not raise. -/
def Turn.current (u : Turn β) (t : Target) (c : Cluster β) : Option Text :=
  if u.get = .failed then none else readPassword c t.id

/-- A target's turn in `_run`. -/
def turn (dryRun : Bool) (t : Target) (u : Turn β) (start : Cluster β) : Step β :=
  let stays (status : Option Status) (c : Cluster β) : Step β := ⟨t, start, status, c, none, c⟩
  let token := u.token.getD []
  if token = [] then stays (some .noToken) start
  else
    let c := u.edits start
    if u.get = .raised then stays none c
    else
      match u.current t c with
      | none =>
        if t.username = [] then stays (some .noUsername) c
        else if dryRun then stays (some .wouldCreate) c
        else createSecret t u token start (u.later c)
      | some current =>
        if current = token then stays (some .same) c
        else if dryRun then stays (some .wouldUpdate) c
        else writePassword t u token start (u.later c)

/-- The turns of the targets, up to one that raises. -/
def steps (dryRun : Bool) (u : Target → Turn β) : List Target → Cluster β → List (Step β)
  | [], _ => []
  | t :: ts, c =>
    let s := turn dryRun t (u t) c
    s :: if s.status = none then [] else steps dryRun u ts s.after

/-- `_run`, with its kubeconfig at hand. -/
def run (dryRun : Bool) (u : Target → Turn β) (c : Cluster β) : List (Step β) :=
  steps dryRun u targets c

def Status.isFailure : Status → Bool
  | noToken | noUsername | createFailed | patchFailed => true
  | _ => false

/-- The report says ok: no request has raised and no target has failed. -/
def reportOk (ss : List (Step β)) : Bool :=
  ss.all fun s => s.status.any fun status => !status.isFailure

def final (c : Cluster β) (ss : List (Step β)) : Cluster β :=
  match ss.getLast? with
  | some s => s.after
  | none => c

/-! ## One turn -/

/-- What a step may change: the password of its target, or a Secret that is not there. -/
structure Step.Framed (s : Step β) : Prop where
  others : ∀ id ≠ s.target.id, s.after id = s.before id
  keys : ∀ secret, s.before s.target.id = some secret →
    ∃ secret', s.after s.target.id = some secret' ∧ ∀ key ≠ password, secret' key = secret key
  creates : s.wrote = some .apply → s.before s.target.id = none

def Holds (c : Cluster β) (id : Name) (token : Text) : Prop :=
  ∃ secret, c id = some secret ∧ secret password = some (.text token)

/-- The target is taken for absent, and is there when the manifest is applied. -/
structure Overwrites (t : Target) (u : Turn β) (start : Cluster β) : Prop where
  token : u.token.getD [] ≠ []
  username : t.username ≠ []
  unread : u.get = .failed ∨ u.get = .answered ∧ readPassword (u.edits start) t.id = none
  present : u.later (u.edits start) t.id ≠ none
  carried : u.put.carried = true

theorem Overwrites.not_raised {t : Target} {u : Turn β} {start : Cluster β}
    (h : Overwrites t u start) : u.get ≠ .raised := by
  intro hGet
  have hUnread := h.unread
  rw [hGet] at hUnread
  simp at hUnread

theorem framed_stays (t : Target) (start c : Cluster β) (status : Option Status) :
    (Step.mk t start status c none c).Framed :=
  ⟨fun _ _ => rfl, fun secret h => ⟨secret, h, fun _ _ => rfl⟩, by rintro ⟨⟩⟩

theorem patched_other {c : Cluster β} {id id' : Name} (h : id' ≠ id) (s : Secret β) (token : Text) :
    patched c id s token id' = c id' := Function.update_of_ne h _ _

theorem applied_other {c : Cluster β} {t : Target} {id : Name} (h : id ≠ t.id) (token : Text) :
    applied c t token id = c id := Function.update_of_ne h _ _

theorem holds_patched (c : Cluster β) (id : Name) (s : Secret β) (token : Text) :
    Holds (patched c id s token) id token :=
  ⟨_, Function.update_self .., Function.update_self ..⟩

theorem holds_applied (c : Cluster β) (t : Target) (token : Text) :
    Holds (applied c t token) t.id token :=
  ⟨_, Function.update_self .., Function.update_self ..⟩

theorem writePassword_framed (t : Target) (u : Turn β) (token : Text) (start c : Cluster β) :
    (writePassword t u token start c).Framed := by
  unfold writePassword
  split
  · exact framed_stays ..
  next s hs =>
    cases u.put.carried with
    | false => exact framed_stays ..
    | true =>
      refine ⟨fun id hId => patched_other hId s token, fun secret hSecret => ?_, by rintro ⟨⟩⟩
      obtain rfl := Option.some_inj.mp (hs.symm.trans hSecret)
      exact ⟨_, Function.update_self .., fun key hKey => Function.update_of_ne hKey _ _⟩

theorem createSecret_framed_iff (t : Target) (u : Turn β) (token : Text) (start c : Cluster β) :
    (createSecret t u token start c).Framed ↔ ¬(c t.id ≠ none ∧ u.put.carried = true) := by
  unfold createSecret
  cases u.put.carried with
  | false => exact ⟨fun _ h => Bool.false_ne_true h.2, fun _ => framed_stays ..⟩
  | true =>
    constructor
    · exact fun h hBoth => hBoth.1 (h.creates rfl)
    · intro h
      have hNone : c t.id = none := by
        by_contra hSome
        exact h ⟨hSome, rfl⟩
      refine ⟨fun id hId => applied_other hId token, fun secret hSecret => ?_, fun _ => hNone⟩
      cases hNone.symm.trans hSecret

/-- What a turn can be. -/
inductive Took (dryRun : Bool) (t : Target) (u : Turn β) (start : Cluster β) : Step β → Prop
  | noToken (hToken : u.token.getD [] = []) :
      Took dryRun t u start ⟨t, start, some .noToken, start, none, start⟩
  | raised (hGet : u.get = .raised) :
      Took dryRun t u start ⟨t, start, none, u.edits start, none, u.edits start⟩
  | noUsername (hName : t.username = []) :
      Took dryRun t u start ⟨t, start, some .noUsername, u.edits start, none, u.edits start⟩
  | wouldCreate (hDry : dryRun = true) :
      Took dryRun t u start ⟨t, start, some .wouldCreate, u.edits start, none, u.edits start⟩
  | create (hDry : dryRun = false) (hToken : u.token.getD [] ≠ []) (hGet : u.get ≠ .raised)
      (hRead : u.current t (u.edits start) = none) (hName : t.username ≠ []) :
      Took dryRun t u start (createSecret t u (u.token.getD []) start (u.later (u.edits start)))
  | same (hToken : u.token.getD [] ≠ [])
      (hRead : u.current t (u.edits start) = some (u.token.getD [])) :
      Took dryRun t u start ⟨t, start, some .same, u.edits start, none, u.edits start⟩
  | wouldUpdate (hDry : dryRun = true) :
      Took dryRun t u start ⟨t, start, some .wouldUpdate, u.edits start, none, u.edits start⟩
  | update {current : Text} (hDry : dryRun = false) (hToken : u.token.getD [] ≠ [])
      (hRead : u.current t (u.edits start) = some current) :
      Took dryRun t u start (writePassword t u (u.token.getD []) start (u.later (u.edits start)))

theorem turn_took (dryRun : Bool) (t : Target) (u : Turn β) (start : Cluster β) :
    Took dryRun t u start (turn dryRun t u start) := by
  unfold turn
  dsimp only
  split
  next hToken => exact .noToken hToken
  next hToken =>
    split
    next hGet => exact .raised hGet
    next hGet =>
      split
      next hRead =>
        split
        next hName => exact .noUsername hName
        next hName =>
          split
          next hDry => exact .wouldCreate hDry
          next hDry => exact .create (Bool.eq_false_iff.mpr hDry) hToken hGet hRead hName
      next current hRead =>
        split
        next hSame => exact .same hToken (hSame ▸ hRead)
        next =>
          split
          next hDry => exact .wouldUpdate hDry
          next hDry => exact .update (Bool.eq_false_iff.mpr hDry) hToken hRead

theorem turn_target (dryRun : Bool) (t : Target) (u : Turn β) (start : Cluster β) :
    (turn dryRun t u start).target = t ∧ (turn dryRun t u start).start = start := by
  generalize hStep : turn dryRun t u start = s
  have hTook := turn_took dryRun t u start
  rw [hStep] at hTook
  cases hTook with
  | update =>
    unfold writePassword
    split <;> exact ⟨rfl, rfl⟩
  | _ => exact ⟨rfl, rfl⟩

theorem Turn.current_eq_none_iff {u : Turn β} {t : Target} {c : Cluster β}
    (hGet : u.get ≠ .raised) :
    u.current t c = none ↔ u.get = .failed ∨ u.get = .answered ∧ readPassword c t.id = none := by
  unfold Turn.current
  cases hAnswer : u.get with
  | answered => simp
  | failed => simp
  | raised => exact absurd hAnswer hGet

/-- A turn keeps to the password, unless it applies the manifest over a Secret. -/
theorem turn_framed_iff (t : Target) (u : Turn β) (start : Cluster β) :
    (turn false t u start).Framed ↔ ¬Overwrites t u start := by
  generalize hStep : turn false t u start = s
  have hTook := turn_took false t u start
  rw [hStep] at hTook
  cases hTook with
  | noToken hToken => exact ⟨fun _ h => h.token hToken, fun _ => framed_stays ..⟩
  | raised hGet =>
    exact ⟨fun _ h => h.not_raised hGet, fun _ => framed_stays ..⟩
  | noUsername hName => exact ⟨fun _ h => h.username hName, fun _ => framed_stays ..⟩
  | wouldCreate hDry => cases hDry
  | create _ hToken hGet hRead hName =>
    rw [createSecret_framed_iff]
    exact ⟨fun h hOver => h ⟨hOver.present, hOver.carried⟩, fun h hBoth =>
      h ⟨hToken, hName, (Turn.current_eq_none_iff hGet).mp hRead, hBoth.1, hBoth.2⟩⟩
  | same _ hRead =>
    refine ⟨fun _ h => ?_, fun _ => framed_stays ..⟩
    rw [(Turn.current_eq_none_iff h.not_raised).mpr h.unread] at hRead
    cases hRead
  | wouldUpdate hDry => cases hDry
  | update _ _ hRead =>
    refine ⟨fun _ h => ?_, fun _ => writePassword_framed ..⟩
    rw [(Turn.current_eq_none_iff h.not_raised).mpr h.unread] at hRead
    cases hRead

theorem readPassword_eq_iff {c : Cluster β} {id : Name} {token : Text} :
    readPassword c id = some token ↔ Holds c id token ∧ token ≠ [] := by
  unfold readPassword Holds
  split
  next hNone => simp [hNone]
  next s hSome =>
    split
    next hEmpty =>
      simp only [reduceCtorEq, hSome, Option.some.injEq, exists_eq_left', hEmpty, false_iff]
      rintro ⟨hText, hNe⟩
      exact hNe (Value.text.inj hText).symm
    next t hNe hText =>
      simp only [Option.some.injEq, hSome, exists_eq_left', hText, Value.text.injEq]
      constructor
      · rintro rfl
        exact ⟨rfl, fun hNil => hNe (hNil ▸ rfl)⟩
      · exact And.left
    next hOther =>
      simp only [reduceCtorEq, hSome, Option.some.injEq, exists_eq_left', false_iff]
      rintro ⟨hText, -⟩
      exact hOther token hText

theorem Put.status_eq_some {p : Put} {done failed status : Status}
    (h : p.status done failed = some status)
    (hFailed : failed.isFailure = true) (hOk : status.isFailure = false) : p = .answered := by
  cases p with
  | answered => rfl
  | failed carried =>
    obtain rfl := Option.some_inj.mp h
    rw [hFailed] at hOk
    cases hOk
  | raised carried => cases h

theorem turn_holds {t : Target} {u : Turn β} {start : Cluster β} {status : Status}
    (hStatus : (turn false t u start).status = some status) (hOk : status.isFailure = false) :
    Holds (turn false t u start).after t.id (u.token.getD []) ∧ u.token.getD [] ≠ [] := by
  generalize hStep : turn false t u start = s at hStatus
  have hTook := turn_took false t u start
  rw [hStep] at hTook
  cases hTook with
  | noToken =>
    cases hStatus
    cases hOk
  | raised => cases hStatus
  | noUsername =>
    cases hStatus
    cases hOk
  | wouldCreate hDry => cases hDry
  | create _ hToken =>
    have hPut := Put.status_eq_some hStatus rfl hOk
    refine ⟨?_, hToken⟩
    unfold createSecret
    rw [hPut]
    exact holds_applied ..
  | same hToken hRead =>
    refine ⟨?_, hToken⟩
    unfold Turn.current at hRead
    split at hRead
    · cases hRead
    · exact (readPassword_eq_iff.mp hRead).1
  | wouldUpdate hDry => cases hDry
  | update _ hToken =>
    refine ⟨?_, hToken⟩
    unfold writePassword at *
    split at hStatus
    next hNone =>
      dsimp only at hStatus
      split at hStatus
      · cases hStatus
      · cases hStatus
        cases hOk
    next secret hSecret =>
      have hPut := Put.status_eq_some hStatus rfl hOk
      rw [hPut]
      exact holds_patched ..

/-- The administrators leave a password that is the token. -/
def Turn.Keeps (u : Turn β) (id : Name) (token : Text) : Prop :=
  ∀ c, Holds c id token → Holds (u.edits c) id token ∧ Holds (u.later c) id token

/-- No administrator edits anything. -/
structure Turn.Quiet (u : Turn β) : Prop where
  edits : ∀ c, u.edits c = c
  later : ∀ c, u.later c = c

theorem turn_keeps {t : Target} {u : Turn β} {id : Name} {token : Text}
    (hKeeps : u.Keeps id token) (hId : id ≠ t.id) {start : Cluster β} (h : Holds start id token) :
    Holds (turn false t u start).after id token := by
  generalize hStep : turn false t u start = s
  have hTook := turn_took false t u start
  rw [hStep] at hTook
  have hEdits := (hKeeps start h).1
  have hLater := (hKeeps _ hEdits).2
  cases hTook with
  | noToken => exact h
  | create =>
    unfold createSecret Holds
    dsimp only
    split
    · rw [applied_other hId]
      exact hLater
    · exact hLater
  | update =>
    unfold writePassword
    split
    · exact hLater
    · unfold Holds
      dsimp only
      split
      · rw [patched_other hId]
        exact hLater
      · exact hLater
  | _ => exact hEdits

theorem turn_other {dryRun : Bool} {t : Target} {u : Turn β} (hQuiet : u.Quiet) (start : Cluster β)
    {id : Name} (hId : id ≠ t.id) : (turn dryRun t u start).after id = start id := by
  generalize hStep : turn dryRun t u start = s
  have hTook := turn_took dryRun t u start
  rw [hStep] at hTook
  cases hTook with
  | noToken => rfl
  | create =>
    unfold createSecret
    rw [hQuiet.edits, hQuiet.later]
    split
    · exact applied_other hId _
    · rfl
  | update =>
    unfold writePassword
    rw [hQuiet.edits, hQuiet.later]
    split
    · rfl
    · split
      · exact patched_other hId _ _
      · rfl
  | _ => exact congrFun (hQuiet.edits start) id

theorem turn_dry (t : Target) (u : Turn β) (start : Cluster β) :
    (turn true t u start).wrote = none ∧
      (turn true t u start).after = (turn true t u start).before := by
  generalize hStep : turn true t u start = s
  have hTook := turn_took true t u start
  rw [hStep] at hTook
  cases hTook with
  | create hDry => cases hDry
  | update hDry => cases hDry
  | _ => exact ⟨rfl, rfl⟩

theorem turn_same {t : Target} {u : Turn β} (hQuiet : u.Quiet) (hGet : u.get = .answered)
    {c : Cluster β} (hHolds : Holds c t.id (u.token.getD [])) (hToken : u.token.getD [] ≠ []) :
    turn false t u c = ⟨t, c, some .same, c, none, c⟩ := by
  have hRead : u.current t c = some (u.token.getD []) := by
    rw [Turn.current, hGet, if_neg (by decide)]
    exact readPassword_eq_iff.mpr ⟨hHolds, hToken⟩
  unfold turn
  dsimp only
  rw [if_neg hToken, hGet, if_neg (by decide), hQuiet.edits, hRead]
  exact if_pos rfl

/-- The outcome of a sync for what the status says. -/
def Status.done : Status → Status
  | wouldCreate => created
  | wouldUpdate => updated
  | status => status

theorem readPassword_congr {c c' : Cluster β} {id : Name} (h : c id = c' id) :
    readPassword c id = readPassword c' id := by
  unfold readPassword
  rw [h]

theorem turn_names {t : Target} {u : Turn β} (hQuiet : u.Quiet) (hPut : u.put = .answered)
    {c c' : Cluster β} (h : c t.id = c' t.id) :
    (turn false t u c).status = (turn true t u c').status.map Status.done := by
  have hCurrent : u.current t c = u.current t c' := by
    rw [Turn.current, Turn.current, readPassword_congr h]
  unfold turn
  dsimp only
  rw [hQuiet.edits, hQuiet.edits, hQuiet.later, hCurrent]
  split
  · rfl
  split
  · rfl
  split
  · split
    · rfl
    · simp [createSecret, hPut, Put.status, Status.done]
  next current hRead =>
    split
    · rfl
    · obtain ⟨secret, hSecret⟩ : ∃ secret, c t.id = some secret := by
        rw [← hCurrent, Turn.current] at hRead
        split at hRead
        · cases hRead
        · obtain ⟨⟨secret, hSecret, -⟩, -⟩ := readPassword_eq_iff.mp hRead
          exact ⟨secret, hSecret⟩
      simp [writePassword, hSecret, hPut, Put.status, Status.done]

/-! ## Runs -/

theorem steps_cons (dryRun : Bool) (u : Target → Turn β) (t : Target) (ts : List Target)
    (c : Cluster β) :
    steps dryRun u (t :: ts) c = turn dryRun t (u t) c ::
      if (turn dryRun t (u t) c).status = none then []
      else steps dryRun u ts (turn dryRun t (u t) c).after := rfl

theorem mem_steps {dryRun : Bool} {u : Target → Turn β} {ts : List Target} {c : Cluster β}
    {s : Step β} (h : s ∈ steps dryRun u ts c) : ∃ t start, s = turn dryRun t (u t) start := by
  induction ts generalizing c with
  | nil => cases h
  | cons t ts ih =>
    rw [steps_cons] at h
    obtain rfl | h := List.mem_cons.mp h
    · exact ⟨t, c, rfl⟩
    · split at h
      · cases h
      · exact ih h

theorem final_cons (c : Cluster β) (s : Step β) (ss : List (Step β)) :
    final c (s :: ss) = final s.after ss := by
  cases ss with
  | nil => rfl
  | cons s' ss =>
    unfold final
    rw [List.getLast?_cons_cons]
    rfl

theorem steps_keep {u : Target → Turn β} {ts : List Target} {id : Name} {token : Text}
    (hKeeps : ∀ t ∈ ts, (u t).Keeps id token) (hId : id ∉ ts.map Target.id) {c : Cluster β}
    (h : Holds c id token) : Holds (final c (steps false u ts c)) id token := by
  induction ts generalizing c with
  | nil => exact h
  | cons t ts ih =>
    rw [List.map_cons, List.mem_cons, not_or] at hId
    obtain ⟨hHere, hLater⟩ := List.forall_mem_cons.mp hKeeps
    have hAfter := turn_keeps hHere hId.1 h
    rw [steps_cons, final_cons]
    split
    · exact hAfter
    · exact ih hLater hId.2 hAfter

theorem steps_each {u : Target → Turn β} {ts : List Target} {c : Cluster β}
    (hOk : reportOk (steps false u ts c) = true) :
    ∀ t ∈ ts, (u t).token.getD [] ≠ [] ∧
      ∃ s ∈ steps false u ts c, s.target = t ∧ Holds s.after t.id ((u t).token.getD []) := by
  induction ts generalizing c with
  | nil => exact List.forall_mem_nil _
  | cons t ts ih =>
    rw [steps_cons, reportOk, List.all_cons, Bool.and_eq_true] at hOk
    obtain ⟨hFirst, hTail⟩ := hOk
    obtain ⟨status, hStatus, hFine⟩ := (Option.any_eq_true _ _).mp hFirst
    obtain ⟨hHolds, hToken⟩ := turn_holds hStatus (by simpa using hFine)
    rw [if_neg (hStatus ▸ Option.some_ne_none status)] at hTail
    rw [steps_cons, if_neg (hStatus ▸ Option.some_ne_none status)]
    refine List.forall_mem_cons.mpr ⟨⟨hToken, _, List.mem_cons_self, ?_, hHolds⟩, ?_⟩
    · exact (turn_target ..).1
    · intro t' ht'
      obtain ⟨hToken', s, hs, hRest⟩ := ih hTail t' ht'
      exact ⟨hToken', s, List.mem_cons_of_mem _ hs, hRest⟩

/-- By induction on the targets: what a turn has brought about the later turns keep. -/
theorem steps_ok {u : Target → Turn β} {ts : List Target}
    (hKeeps : ∀ t ∈ ts, ∀ t' ∈ ts, t' ≠ t → (u t').Keeps t.id ((u t).token.getD []))
    (hDistinct : (ts.map Target.id).Nodup) {c : Cluster β}
    (hOk : reportOk (steps false u ts c) = true) :
    ∀ t ∈ ts, Holds (final c (steps false u ts c)) t.id ((u t).token.getD []) := by
  induction ts generalizing c with
  | nil => exact List.forall_mem_nil _
  | cons t ts ih =>
    obtain ⟨hNot, hRest⟩ := List.nodup_cons.mp hDistinct
    rw [steps_cons, reportOk, List.all_cons, Bool.and_eq_true] at hOk
    obtain ⟨hFirst, hTail⟩ := hOk
    obtain ⟨status, hStatus, hFine⟩ := (Option.any_eq_true _ _).mp hFirst
    rw [if_neg (hStatus ▸ Option.some_ne_none status)] at hTail
    rw [steps_cons, final_cons, if_neg (hStatus ▸ Option.some_ne_none status)]
    refine List.forall_mem_cons.mpr ⟨?_, ?_⟩
    · refine steps_keep (fun t' ht' => ?_) hNot (turn_holds hStatus (by simpa using hFine)).1
      refine hKeeps t List.mem_cons_self t' (List.mem_cons_of_mem _ ht') ?_
      rintro rfl
      exact hNot (List.mem_map_of_mem ht')
    · exact ih (fun t₁ h₁ t₂ h₂ => hKeeps t₁ (List.mem_cons_of_mem _ h₁) t₂
        (List.mem_cons_of_mem _ h₂)) hRest hTail

theorem steps_same {u : Target → Turn β} (hQuiet : ∀ t, (u t).Quiet)
    (hGet : ∀ t, (u t).get = .answered) {ts : List Target} {c : Cluster β}
    (h : ∀ t ∈ ts, Holds c t.id ((u t).token.getD []) ∧ (u t).token.getD [] ≠ []) :
    (steps false u ts c).map Step.status = ts.map fun _ => some .same := by
  induction ts with
  | nil => rfl
  | cons t ts ih =>
    obtain ⟨⟨hHolds, hToken⟩, hRest⟩ := List.forall_mem_cons.mp h
    rw [steps_cons, turn_same (hQuiet t) (hGet t) hHolds hToken]
    dsimp only
    rw [if_neg (Option.some_ne_none _), List.map_cons, ih hRest]
    rfl

theorem steps_names {u : Target → Turn β} (hQuiet : ∀ t, (u t).Quiet)
    (hPut : ∀ t, (u t).put = .answered) {ts : List Target}
    (hDistinct : (ts.map Target.id).Nodup) {c c' : Cluster β} (h : ∀ t ∈ ts, c t.id = c' t.id) :
    (steps false u ts c).map Step.status =
      (steps true u ts c').map fun s => s.status.map Status.done := by
  induction ts generalizing c c' with
  | nil => rfl
  | cons t ts ih =>
    obtain ⟨hNot, hRest⟩ := List.nodup_cons.mp hDistinct
    obtain ⟨hHere, hLater⟩ := List.forall_mem_cons.mp h
    have hStatus := turn_names (hQuiet t) (hPut t) hHere
    have hAgree : ∀ t' ∈ ts,
        (turn false t (u t) c).after t'.id = (turn true t (u t) c').after t'.id := by
      intro t' ht'
      have hId : t'.id ≠ t.id := fun hEq => hNot (hEq ▸ List.mem_map_of_mem ht')
      rw [turn_other (hQuiet t) c hId, turn_other (hQuiet t) c' hId]
      exact hLater t' ht'
    have hNone : (turn false t (u t) c).status = none ↔ (turn true t (u t) c').status = none := by
      rw [hStatus, Option.map_eq_none_iff]
    rw [steps_cons, steps_cons, List.map_cons, List.map_cons, ← hStatus]
    by_cases hStop : (turn true t (u t) c').status = none
    · rw [if_pos hStop, if_pos (hNone.mpr hStop)]
      rfl
    · rw [if_neg hStop, if_neg fun hEq => hStop (hNone.mp hEq), ih hRest hAgree]

/-! ## Sync and status -/

/-- What is asked of a sync from a cluster, and of the status on it. -/
structure Kept (u : Target → Turn β) (c : Cluster β) : Prop where
  framed : ∀ s ∈ run false u c, s.Framed
  holds : ∀ s ∈ run false u c, s.status ∈ [some .same, some .updated, some .created] →
    Holds s.after s.target.id ((u s.target).token.getD [])
  each : reportOk (run false u c) = true → ∀ t ∈ targets,
    ∃ s ∈ run false u c, s.target = t ∧ Holds s.after t.id ((u t).token.getD [])
  ok : reportOk (run false u c) = true →
    (∀ t ∈ targets, ∀ t' ∈ targets, t' ≠ t → (u t').Keeps t.id ((u t).token.getD [])) →
    (∀ t ∈ targets, Holds (final c (run false u c)) t.id ((u t).token.getD [])) ∧
      ∀ u' : Target → Turn β, (∀ t, (u' t).Quiet ∧ (u' t).get = .answered ∧
        (u' t).token = (u t).token) →
        (run false u' (final c (run false u c))).map Step.status = targets.map fun _ => some .same
  changesNothing : ∀ s ∈ run true u c, s.wrote = none ∧ s.after = s.before
  names : (∀ t, (u t).Quiet) → (∀ t, (u t).put = .answered) →
    (run false u c).map Step.status = (run true u c).map fun s => s.status.map Status.done

theorem targets_distinct : (targets.map Target.id).Nodup := by decide

theorem kept_iff (u : Target → Turn β) (c : Cluster β) :
    Kept u c ↔ ∀ s ∈ run false u c, ¬Overwrites s.target (u s.target) s.start := by
  have hFramed : ∀ s ∈ run false u c, s.Framed ↔ ¬Overwrites s.target (u s.target) s.start := by
    intro s hs
    obtain ⟨t, start, rfl⟩ := mem_steps hs
    obtain ⟨hTarget, hStart⟩ := turn_target false t (u t) start
    rw [hTarget, hStart]
    exact turn_framed_iff t (u t) start
  constructor
  · exact fun h s hs => (hFramed s hs).mp (h.framed s hs)
  · intro h
    refine ⟨fun s hs => (hFramed s hs).mpr (h s hs), ?_, ?_, ?_, ?_, ?_⟩
    · intro s hs hReported
      obtain ⟨t, start, rfl⟩ := mem_steps hs
      rw [(turn_target false t (u t) start).1]
      simp only [List.mem_cons, List.not_mem_nil, or_false] at hReported
      obtain hStatus | hStatus | hStatus := hReported
      · exact (turn_holds hStatus rfl).1
      · exact (turn_holds hStatus rfl).1
      · exact (turn_holds hStatus rfl).1
    · exact fun hOk t ht => (steps_each hOk t ht).2
    · intro hOk hKeeps
      have hHolds := steps_ok hKeeps targets_distinct hOk
      refine ⟨hHolds, fun u' hu' => ?_⟩
      refine steps_same (fun t => (hu' t).1) (fun t => (hu' t).2.1) fun t ht => ?_
      rw [(hu' t).2.2]
      exact ⟨hHolds t ht, (steps_each hOk t ht).1⟩
    · intro s hs
      obtain ⟨t, start, rfl⟩ := mem_steps hs
      exact turn_dry t (u t) start
    · exact fun hQuiet hPut => steps_names hQuiet hPut targets_distinct fun _ _ => rfl

def ownSecret : Secret Empty := fun key =>
  if key = username then some (.text "owner".toList)
  else if key = password then some (.text "old".toList)
  else none

/-- A cluster where the first Secret has another username. -/
def ownCluster : Cluster Empty := fun id =>
  if id = ("fleet-default".toList, "fleet-git-credentials".toList) then some ownSecret else none

/-- The first read fails, the requests after it are answered. -/
def getFails (_ : Target) : Turn Empty := ⟨some "new".toList, id, .failed, id, .answered⟩

theorem username_overwritten :
    (∃ s ∈ run false getFails ownCluster, s.status = some .created ∧
      (s.before s.target.id).bind (fun secret => secret username) = some (.text "owner".toList) ∧
      (s.after s.target.id).bind (fun secret => secret username) =
        some (.text "your-github-user".toList)) ∧
      ¬Kept getFails ownCluster := by
  obtain ⟨s, hMem, hStatus, hBefore, hAfter⟩ :
      ∃ s ∈ run false getFails ownCluster, s.status = some .created ∧
        s.before s.target.id = some ownSecret ∧
        (s.after s.target.id).bind (fun secret => secret username) =
          some (.text "your-github-user".toList) :=
    ⟨_, List.mem_cons_self, rfl, rfl, rfl⟩
  refine ⟨⟨s, hMem, hStatus, hBefore ▸ rfl, hAfter⟩, fun h => ?_⟩
  obtain ⟨secret, hSecret, hKeys⟩ := (h.framed s hMem).keys ownSecret hBefore
  have hOwner : secret username = some (.text "owner".toList) := hKeys username (by decide)
  rw [hSecret] at hAfter
  cases hOwner.symm.trans hAfter

end OpenSpoke.Credentials.Fleet
