import Mathlib.Logic.Function.Basic
import OpenSpoke.GitHub.Edits
import OpenSpoke.Lib.Lts

/-!
# Operations on a branch

Operations read a file, and later put what they made of it with `put_file`, which looks
the blob sha of the file up first. GitHub accepts a put with the sha of the file, or
without one if there is no file. Every request to GitHub is a step of its own.
-/

namespace OpenSpoke.GitHub

open Lts
open Python (Text)

abbrev Tree := Text → Option Text

structure CopyFile where
  src : Text
  dst : Text
  overwrite : Bool

structure PutFile where
  path : Text
  content : Text

inductive Op
  | regexReplace (r : RegexReplace)
  | replaceSymbol (r : ReplaceSymbol)
  | moveBlock (m : MoveBlock)
  | copyFile (c : CopyFile)
  | putFile (p : PutFile)

/-- What an operation takes a path for. -/
inductive Intent
  -- the file it has read
  | edits (read : Text)
  -- a path without a file
  | creates
  | replaces
  deriving DecidableEq

/-- A call of `put_file`. -/
structure Write where
  path : Text
  content : Text
  intent : Intent
  deriving DecidableEq

inductive OpPc (σ : Type)
  | absent
  | reading
  -- `move-block` reads the destination
  | readingDst (src : Text) (block : List Text)
  -- `copy-file` looks whether the destination exists
  | checking (content : Text)
  -- in `put_file`, with the calls to come
  | lookingUp (w : Write) (rest : List Write)
  | putting (w : Write) (sha : Option σ) (rest : List Write)
  | done (ok : Bool)
  deriving DecidableEq

structure OpCall (σ : Type) where
  op : Op
  pc : OpPc σ

/-- A commit of an operation. -/
structure Commit where
  -- the files in the parent commit
  parent : Tree
  path : Text
  content : Text
  author : Nat

structure Branch (σ : Type) where
  files : Tree
  -- the commits of operations, the latest first
  log : List Commit
  call : Nat → OpCall σ

/-- The steps; requests may fail, and puts may fail with or without their effect. -/
inductive BranchAct
  | call (n : Nat) (op : Op)
  | read (n : Nat) (ok : Bool)
  | lookup (n : Nat) (ok : Bool)
  | put (n : Nat) (delivered answered : Bool)
  -- commits of others
  | outside (files : Tree)

namespace Branch

variable {σ : Type} [DecidableEq σ]

def init (files : Tree) : Branch σ where
  files := files
  log := []
  call _ := ⟨.putFile ⟨[], []⟩, .absent⟩

def op (s : Branch σ) (n : Nat) : Op := (s.call n).op

def pc (s : Branch σ) (n : Nat) : OpPc σ := (s.call n).pc

def goto (s : Branch σ) (n : Nat) (pc : OpPc σ) : Branch σ :=
  { s with call := Function.update s.call n ⟨s.op n, pc⟩ }

/-- What comes before the first request. -/
def begin : Op → OpPc σ
  | .putFile p => .lookingUp ⟨p.path, p.content, .replaces⟩ []
  | .copyFile c => if c.src = c.dst then .done false else .reading
  | .moveBlock m => if m.src = m.dst then .done false else .reading
  | _ => .reading

/-- What is done with the file that was asked for. -/
def afterRead (text : Text) : Op → OpPc σ
  | .regexReplace r =>
    match r.edit text with
    | none => .done false
    | some new => if r.dryRun then .done true else .lookingUp ⟨r.path, new, .edits text⟩ []
  | .replaceSymbol r =>
    match r.edit text with
    | none => .done false
    | some new => if r.dryRun then .done true else .lookingUp ⟨r.path, new, .edits text⟩ []
  | .moveBlock m =>
    match m.block text with
    | none => .done false
    | some block => .readingDst text block
  | .copyFile c => if c.overwrite then .lookingUp ⟨c.dst, text, .replaces⟩ [] else .checking text
  | .putFile _ => .done false

/-- What is done with the destination of a block. -/
def afterReadDst (m : MoveBlock) (src : Text) (block : List Text) (dst : Option Text) : OpPc σ :=
  match m.insert block dst, m.edit src with
  | some newDst, some newSrc =>
    .lookingUp ⟨m.dst, newDst, .replaces⟩ [⟨m.src, newSrc, .edits src⟩]
  | _, _ => .done false

def source : Op → Text
  | .regexReplace r => r.path
  | .replaceSymbol r => r.path
  | .moveBlock m => m.src
  | .copyFile c => c.src
  | .putFile p => p.path

/-- What GitHub checks. -/
def accepts (sha : Text → σ) (file : Option Text) (given : Option σ) : Bool :=
  match file, given with
  | some text, some h => sha text = h
  | none, none => true
  | _, _ => false

/-- `get_file_sha`: an error is no sha. -/
def getFileSha (sha : Text → σ) (s : Branch σ) (path : Text) (ok : Bool) : Option σ :=
  if ok then (s.files path).map sha else none

def commit (s : Branch σ) (n : Nat) (w : Write) : Branch σ :=
  { s with
    files := Function.update s.files w.path (some w.content)
    log := ⟨s.files, w.path, w.content, n⟩ :: s.log }

def next : List Write → OpPc σ
  | [] => .done true
  | w :: rest => .lookingUp w rest

def step (sha : Text → σ) (s : Branch σ) : BranchAct → Option (Branch σ)
  | .call n op =>
    match s.pc n with
    | .absent => some { s with call := Function.update s.call n ⟨op, begin op⟩ }
    | _ => none
  | .read n ok =>
    match s.pc n, s.op n with
    | .reading, op =>
      match if ok then s.files (source op) else none with
      | some text => some (s.goto n (afterRead text op))
      | none => some (s.goto n (.done false))
    | .readingDst src block, .moveBlock m =>
      some (s.goto n (if ok then afterReadDst m src block (s.files m.dst) else .done false))
    | _, _ => none
  | .lookup n ok =>
    match s.pc n, s.op n with
    | .checking text, .copyFile c =>
      some (s.goto n (match s.getFileSha sha c.dst ok with
        | some _ => .done false
        | none => .lookingUp ⟨c.dst, text, .creates⟩ []))
    | .lookingUp w rest, _ => some (s.goto n (.putting w (s.getFileSha sha w.path ok) rest))
    | _, _ => none
  | .put n delivered answered =>
    match s.pc n with
    | .putting w given rest =>
      if delivered ∧ accepts sha (s.files w.path) given then
        some ((s.commit n w).goto n (if answered then next rest else .done false))
      else some (s.goto n (.done false))
    | _ => none
  | .outside files => some { s with files := files }

end Branch

/-! ## Conditions and commits -/

/-- What a path has is what it is taken for. -/
def Intent.Met (file : Option Text) : Intent → Prop
  | edits read => file = some read
  | creates => file = none
  | replaces => True

instance decidableMet (file : Option Text) : (intent : Intent) → Decidable (intent.Met file)
  | .edits read => inferInstanceAs (Decidable (file = some read))
  | .creates => inferInstanceAs (Decidable (file = none))
  | .replaces => .isTrue trivial

/-- The sha that was found is as the intent has it, or an edit has found none. -/
def Intent.Found {σ : Type} (sha : Text → σ) (given : Option σ) : Intent → Prop
  | edits read => given = none ∨ given = some (sha read)
  | creates => given = none
  | replaces => True

/-- Edits are of what the parent commit has, and copies go where there is nothing. -/
def Op.Sound (c : Commit) : Op → Prop
  | regexReplace r => c.path = r.path ∧ (c.parent r.path).bind r.edit = some c.content
  | replaceSymbol r => c.path = r.path ∧ (c.parent r.path).bind r.edit = some c.content
  | moveBlock m => c.path = m.src → (c.parent m.src).bind m.edit = some c.content
  | copyFile k => c.path = k.dst ∧ (k.overwrite = false → c.parent k.dst = none)
  | putFile _ => True

instance decidableSound (c : Commit) : (op : Op) → Decidable (op.Sound c)
  | .regexReplace _ | .replaceSymbol _ | .copyFile _ => inferInstanceAs (Decidable (_ ∧ _))
  | .moveBlock _ => inferInstanceAs (Decidable (_ → _))
  | .putFile _ => .isTrue trivial

/-- A write that operation `op` may make. -/
def Write.For (w : Write) : Op → Prop
  | .regexReplace r => w.path = r.path ∧ ∃ read, w.intent = .edits read ∧ r.edit read = some w.content
  | .replaceSymbol r => w.path = r.path ∧ ∃ read, w.intent = .edits read ∧ r.edit read = some w.content
  | .moveBlock m => w.path = m.src → ∃ read, w.intent = .edits read ∧ m.edit read = some w.content
  | .copyFile k => w.path = k.dst ∧ (k.overwrite = false → w.intent = .creates)
  | .putFile _ => True

theorem Intent.Met.edited {file : Option Text} {read new : Text} {intent : Intent}
    {edit : Text → Option Text} (h : intent.Met file) (hIntent : intent = .edits read)
    (hEdit : edit read = some new) : file.bind edit = some new := by
  rw [hIntent] at h
  rw [show file = some read from h]
  exact hEdit

theorem Write.For.sound {w : Write} {op : Op} {files : Tree} {n : Nat} (h : w.For op)
    (hMet : w.intent.Met (files w.path)) : op.Sound ⟨files, w.path, w.content, n⟩ := by
  cases op with
  | regexReplace r | replaceSymbol r =>
    obtain ⟨hPath, read, hIntent, hEdit⟩ := h
    exact ⟨hPath, (hPath ▸ hMet).edited hIntent hEdit⟩
  | moveBlock m =>
    intro hPath
    obtain ⟨read, hIntent, hEdit⟩ := h hPath
    have hPath : w.path = m.src := hPath
    exact (hPath ▸ hMet).edited hIntent hEdit
  | copyFile k =>
    obtain ⟨hPath, hCreates⟩ := h
    refine ⟨hPath, fun hKeep => ?_⟩
    rw [hCreates hKeep, hPath] at hMet
    exact hMet
  | putFile => trivial

namespace Branch

variable {σ : Type}

/-- When `put_file` looks a file up that is edited, it has what the operation has read, and
when it looks the destination of a copy up, there is none; a put for an edit that has found
no sha is made while there is a file. -/
def Careful (s : Branch σ) : BranchAct → Prop
  | .lookup n ok => ok = true → ∀ w rest, s.pc n = .lookingUp w rest → w.intent.Met (s.files w.path)
  | .put n true _ => ∀ w rest read, s.pc n = .putting w none rest → w.intent = .edits read →
      s.files w.path ≠ none
  | _ => True

instance decidableCareful (s : Branch σ) : (a : BranchAct) → Decidable (s.Careful a)
  | .lookup n ok =>
    match hPc : s.pc n with
    | .lookingUp w rest =>
      decidable_of_iff (ok = true → w.intent.Met (s.files w.path))
        ⟨fun h hOk _ _ hSame => by cases hPc.symm.trans hSame; exact h hOk,
          fun h hOk => h hOk w rest hPc⟩
    | .absent | .reading | .readingDst _ _ | .checking _ | .putting _ _ _ | .done _ =>
      .isTrue fun _ w rest hSame => by cases hPc.symm.trans hSame
  | .put n true _ =>
    match hPc : s.pc n with
    | .putting w none rest =>
      match hIntent : w.intent with
      | .edits read =>
        decidable_of_iff (s.files w.path ≠ none)
          ⟨fun h _ _ _ hSame _ => by cases hPc.symm.trans hSame; exact h,
            fun h => h w rest read hPc hIntent⟩
      | .creates | .replaces =>
        .isTrue fun _ _ _ hSame hEdits => by
          cases hPc.symm.trans hSame
          cases hIntent.symm.trans hEdits
    | .putting _ (some _) _ | .absent | .reading | .readingDst _ _ | .checking _ | .lookingUp _ _
    | .done _ => .isTrue fun w rest read hSame => by cases hPc.symm.trans hSame
  | .call _ _ | .read _ _ | .put _ false _ | .outside _ => .isTrue trivial

end Branch

/-- What a call is about to do is what its operation may do. -/
def OpPc.Ready {σ : Type} (sha : Text → σ) (op : Op) : OpPc σ → Prop
  | reading | readingDst _ _ => ∀ m, op = .moveBlock m → m.src ≠ m.dst
  | lookingUp w rest => ∀ v ∈ w :: rest, v.For op
  | putting w given rest => (∀ v ∈ w :: rest, v.For op) ∧ w.intent.Found sha given
  | _ => True

def OpPc.begun {σ : Type} : OpPc σ → Bool
  | absent => false
  | _ => true

namespace Branch

variable {σ : Type} {sha : Text → σ} {s t : Branch σ} {n m : Nat} {op : Op}

structure Sound (sha : Text → σ) (s : Branch σ) : Prop where
  ready : ∀ n, (s.pc n).Ready sha (s.op n)
  begun : ∀ c ∈ s.log, (s.pc c.author).begun = true
  log : ∀ c ∈ s.log, (s.op c.author).Sound c

theorem Sound.init (files : Tree) : Sound sha (init files) where
  ready n := trivial
  begun c hc := by cases hc
  log c hc := by cases hc

theorem op_goto {pc : OpPc σ} : (s.goto n pc).op m = s.op m := by
  by_cases h : m = n
  · subst h
    simp [goto, Branch.op]
  · simp [goto, Branch.op, h]

theorem pc_goto_self {pc : OpPc σ} : (s.goto n pc).pc n = pc := by simp [goto, Branch.pc]

theorem pc_goto_of_ne {pc : OpPc σ} (h : m ≠ n) : (s.goto n pc).pc m = s.pc m := by
  simp [goto, Branch.pc, h]

theorem Sound.goto (h : Sound sha s) {pc : OpPc σ} (hReady : pc.Ready sha (s.op n))
    (hBegun : pc.begun = true) : Sound sha (s.goto n pc) where
  ready m := by
    rw [op_goto]
    by_cases hmn : m = n
    · rw [hmn, pc_goto_self]
      exact hReady
    · rw [pc_goto_of_ne hmn]
      exact h.ready m
  begun c hc := by
    by_cases hcn : c.author = n
    · rw [hcn, pc_goto_self]
      exact hBegun
    · rw [pc_goto_of_ne hcn]
      exact h.begun c hc
  log c hc := by
    rw [op_goto]
    exact h.log c hc

theorem ready_begin : (begin op : OpPc σ).Ready sha op := by
  cases op with
  | regexReplace | replaceSymbol => exact fun m h => nomatch h
  | moveBlock m =>
    simp only [begin]
    split
    · trivial
    next hne => exact fun m' h => by cases h; exact hne
  | copyFile c =>
    simp only [begin]
    split
    · trivial
    · exact fun m h => nomatch h
  | putFile p => exact fun v hv => trivial

theorem ready_afterRead {text : Text} (hReady : (.reading : OpPc σ).Ready sha op) :
    (afterRead text op : OpPc σ).Ready sha op := by
  cases op with
  | regexReplace r =>
    simp only [afterRead]
    split
    · trivial
    next new hEdit =>
      split
      · trivial
      · exact fun v hv => by
          obtain rfl := List.mem_singleton.mp hv
          exact ⟨rfl, text, rfl, hEdit⟩
  | replaceSymbol r =>
    simp only [afterRead]
    split
    · trivial
    next new hEdit =>
      split
      · trivial
      · exact fun v hv => by
          obtain rfl := List.mem_singleton.mp hv
          exact ⟨rfl, text, rfl, hEdit⟩
  | moveBlock m =>
    simp only [afterRead]
    split
    · trivial
    · exact hReady
  | copyFile c =>
    simp only [afterRead]
    split
    next hOver =>
      exact fun v hv => by
        obtain rfl := List.mem_singleton.mp hv
        exact ⟨rfl, fun hKeep => by cases hOver.symm.trans hKeep⟩
    · trivial
  | putFile => trivial

theorem ready_afterReadDst {k : MoveBlock} {src : Text} {block : List Text} {dst : Option Text}
    (hne : k.src ≠ k.dst) :
    (afterReadDst k src block dst : OpPc σ).Ready sha (.moveBlock k) := by
  unfold afterReadDst
  split
  next newDst newSrc hInsert hEdit =>
    intro v hv
    rcases List.mem_cons.mp hv with rfl | hv
    · exact fun hPath => absurd hPath.symm hne
    · obtain rfl := List.mem_singleton.mp hv
      exact fun _ => ⟨src, rfl, hEdit⟩
  · trivial

theorem begun_afterRead {text : Text} : (afterRead text op : OpPc σ).begun = true := by
  cases op <;> simp only [afterRead]
  case copyFile => split <;> rfl
  case putFile => rfl
  all_goals split
  all_goals first
    | rfl
    | (split <;> rfl)

theorem begun_afterReadDst {k : MoveBlock} {src : Text} {block : List Text} {dst : Option Text} :
    (afterReadDst k src block dst : OpPc σ).begun = true := by
  unfold afterReadDst
  split <;> rfl

theorem found_getFileSha {intent : Intent} {path : Text} {ok : Bool}
    (hMet : ok = true → intent.Met (s.files path)) :
    intent.Found sha (s.getFileSha sha path ok) := by
  cases ok with
  | false =>
    cases intent with
    | edits read => exact .inl rfl
    | creates => rfl
    | replaces => trivial
  | true =>
    have hMet := hMet rfl
    cases intent with
    | edits read => exact .inr (congrArg (Option.map sha) hMet)
    | creates => exact congrArg (Option.map sha) hMet
    | replaces => trivial

theorem Sound.commit (h : Sound sha s) {w : Write} {pc : OpPc σ} (hFor : w.For (s.op n))
    (hMet : w.intent.Met (s.files w.path)) (hReady : pc.Ready sha (s.op n))
    (hBegun : pc.begun = true) : Sound sha ((s.commit n w).goto n pc) := by
  have hGoto := h.goto hReady hBegun
  refine ⟨hGoto.ready, fun c hc => ?_, fun c hc => ?_⟩
  · rcases List.mem_cons.mp hc with rfl | hc
    · rw [pc_goto_self]
      exact hBegun
    · exact hGoto.begun c hc
  · rcases List.mem_cons.mp hc with rfl | hc
    · rw [op_goto]
      exact hFor.sound hMet
    · exact hGoto.log c hc

theorem Sound.call (h : Sound sha s) (hPc : s.pc n = .absent) (op : Op) :
    Sound sha { s with call := Function.update s.call n ⟨op, begin op⟩ } := by
  have hOthers : ∀ c ∈ s.log, c.author ≠ n := fun c hc hEq => by
    have hBegun := h.begun c hc
    rw [hEq, hPc] at hBegun
    cases hBegun
  refine ⟨fun m => ?_, fun c hc => ?_, fun c hc => ?_⟩
  · by_cases hmn : m = n
    · subst hmn
      simpa [Branch.pc, Branch.op] using @ready_begin σ sha op
    · simpa [Branch.pc, Branch.op, hmn] using h.ready m
  · simpa [Branch.pc, hOthers c hc] using h.begun c hc
  · simpa [Branch.op, hOthers c hc] using h.log c hc

section Steps

variable [DecidableEq σ]

theorem met_of_accepts (hInj : Function.Injective sha) {w : Write} {given : Option σ}
    (hFound : w.intent.Found sha given) (hAccepts : accepts sha (s.files w.path) given = true)
    (hBlind : ∀ read, given = none → w.intent = .edits read → s.files w.path ≠ none) :
    w.intent.Met (s.files w.path) := by
  cases hIntent : w.intent with
  | edits read =>
    rw [hIntent] at hFound
    rcases hFound with rfl | rfl
    · cases hFile : s.files w.path with
      | none => exact absurd hFile (hBlind read rfl hIntent)
      | some text => simp [accepts, hFile] at hAccepts
    · cases hFile : s.files w.path with
      | none => simp [accepts, hFile] at hAccepts
      | some text =>
        rw [hFile, accepts, decide_eq_true_eq] at hAccepts
        exact congrArg some (hInj hAccepts)
  | creates =>
    rw [hIntent] at hFound
    rw [show given = none from hFound] at hAccepts
    cases hFile : s.files w.path with
    | none => rfl
    | some text => simp [accepts, hFile] at hAccepts
  | replaces => trivial

theorem Sound.put (hInj : Function.Injective sha) (h : Sound sha s) {delivered answered : Bool}
    (hCareful : s.Careful (.put n delivered answered)) {w : Write} {given : Option σ}
    {rest : List Write} (hPc : s.pc n = .putting w given rest)
    (hAccepts : delivered ∧ accepts sha (s.files w.path) given = true) :
    Sound sha ((s.commit n w).goto n (if answered then next rest else .done false)) := by
  obtain ⟨rfl, hAccepts⟩ := hAccepts
  have hReady := h.ready n
  rw [hPc] at hReady
  obtain ⟨hFor, hFound⟩ := hReady
  have hMet := met_of_accepts hInj hFound hAccepts fun read hNone hIntent =>
    hCareful w rest read (hNone ▸ hPc) hIntent
  refine h.commit (hFor w List.mem_cons_self) hMet ?_ ?_
  · split
    · cases rest with
      | nil => trivial
      | cons v rest => exact fun u hu => hFor u (List.mem_cons_of_mem _ hu)
    · trivial
  · split
    · cases rest <;> rfl
    · rfl

theorem Sound.step (hInj : Function.Injective sha) (h : Sound sha s) {a : BranchAct}
    (hCareful : s.Careful a) (hs : Branch.step sha s a = some t) : Sound sha t := by
  cases a with
  | call n op =>
    cases hPc : s.pc n <;> simp only [Branch.step, hPc] at hs
    case absent =>
      cases hs
      exact h.call hPc op
    all_goals cases hs
  | read n ok =>
    have hReady := h.ready n
    cases hPc : s.pc n <;> simp only [Branch.step, hPc] at hs
    case reading =>
      rw [hPc] at hReady
      split at hs
      · cases hs
        exact h.goto (ready_afterRead hReady) begun_afterRead
      · cases hs
        exact h.goto trivial rfl
    case readingDst src block =>
      rw [hPc] at hReady
      cases hOp : s.op n <;> simp only [hOp] at hs
      case moveBlock k =>
        cases hs
        refine h.goto ?_ ?_
        · rw [hOp]
          split
          · exact ready_afterReadDst (hReady k hOp)
          · trivial
        · split
          · exact begun_afterReadDst
          · rfl
      all_goals cases hs
    all_goals cases hs
  | lookup n ok =>
    have hReady := h.ready n
    cases hPc : s.pc n <;> simp only [Branch.step, hPc] at hs
    case checking text =>
      cases hOp : s.op n <;> simp only [hOp] at hs
      case copyFile c =>
        cases hs
        refine h.goto ?_ ?_
        · rw [hOp]
          split
          · trivial
          · intro v hv
            obtain rfl := List.mem_singleton.mp hv
            exact ⟨rfl, fun _ => rfl⟩
        · split <;> rfl
      all_goals cases hs
    case lookingUp w rest =>
      rw [hPc] at hReady
      cases hs
      exact h.goto ⟨hReady, found_getFileSha fun hOk => hCareful hOk w rest hPc⟩ rfl
    all_goals cases hs
  | put n delivered answered =>
    cases hPc : s.pc n <;> simp only [Branch.step, hPc] at hs
    case putting w given rest =>
      split at hs
      next hAccepts =>
        cases hs
        exact h.put hInj hCareful hPc hAccepts
      next =>
        cases hs
        exact h.goto trivial rfl
    all_goals cases hs
  | outside files =>
    cases hs
    exact ⟨h.ready, h.begun, h.log⟩

/-- In a run whose lookups see what the operations have read, every commit of an edit is
the edit of what the parent commit has, and a copy goes where there was nothing. -/
theorem edits_kept (hInj : Function.Injective sha) {files : Tree} {s : Branch σ}
    (h : Reach (Branch.step sha) Careful (init files) s) :
    ∀ c ∈ s.log, (s.op c.author).Sound c :=
  have hs : Sound sha s := h.invariant (Sound.init files)
    fun _ _ _ _ hInv hCareful hs => hInv.step hInj hCareful hs
  hs.log

end Steps

end Branch

/-! ## An edit of a file that has changed -/

def path : Text := ['p']

/-- Every x is to become a y. -/
def xToY : RegexReplace where
  path := path
  subn line _ := (line.map fun c => if c = 'x' then 'y' else c, line.count 'x')
  lineRx := none
  startLine := 0
  endLine := 0
  maxCount := 0
  dryRun := false

def xs : Tree := Function.update (fun _ => none) path (some ['x'])

/-- The file has got another line, or not, by the time it is looked up. -/
def editRun (between : List BranchAct) : List BranchAct :=
  [.call 0 (.regexReplace xToY), .read 0 true] ++ between ++ [.lookup 0 true, .put 0 true true]

theorem unchanged_kept : ∃ s : Branch Text,
    run (Branch.step id) (.init xs) (editRun []) = some s ∧ s.files path = some ['y'] ∧
      ∀ c ∈ s.log, (s.op c.author).Sound c := by
  obtain ⟨s, hRun, hs⟩ := exists_run_of_any (Branch.step id) (.init xs) (editRun [])
    (fun s => s.files path = some ['y']) (by decide)
  have hAlong : Along (Branch.step id) Branch.Careful (Branch.init xs) (editRun []) := by decide
  exact ⟨s, hRun, of_decide_eq_true hs,
    Branch.edits_kept Function.injective_id (.of_run hRun hAlong)⟩

/-- The line that came in between is gone, and the operation says ok. -/
theorem changed_lost : ∃ s : Branch Text,
    run (Branch.step id) (.init xs) (editRun
      [.outside (Function.update xs path (some ['x', '\n', 'z']))]) = some s ∧
      s.pc 0 = .done true ∧ s.files path = some ['y'] ∧ ∃ c ∈ s.log, ¬(s.op c.author).Sound c := by
  obtain ⟨s, hRun, hs⟩ := exists_run_of_any (Branch.step id) (.init xs) (editRun
    [.outside (Function.update xs path (some ['x', '\n', 'z']))])
    (fun s => decide (s.pc 0 = .done true ∧ s.files path = some ['y']) &&
      s.log.any fun c => !decide ((s.op c.author).Sound c)) (by decide)
  rw [Bool.and_eq_true, decide_eq_true_eq, List.any_eq_true] at hs
  obtain ⟨⟨hDone, hFile⟩, c, hc, hLost⟩ := hs
  exact ⟨s, hRun, hDone, hFile, c, hc, by simpa using hLost⟩

end OpenSpoke.GitHub
