import OpenSpoke.Lib.FileTree

/-!
# Trees with symbolic links

A file has bytes or is a symbolic link. A path is resolved name by name, and the
target of a link takes the place of the link, at most a fixed number of times.
Beside the resolution in a tree stands the one that only knows the links: it
does not change as long as the links stay.
-/

namespace FileTree

inductive Seg (ν : Type*)
  | up
  | name (x : ν)

structure Link (ν : Type*) where
  absolute : Bool
  segs : List (Seg ν)

inductive Content (ν β : Type*)
  | bytes (b : β)
  | link (l : Link ν)

abbrev LinkTree (ν β : Type*) := FileTree ν (Content ν β)

variable {ν β : Type*}

def linkAt (t : LinkTree ν β) (p : List ν) : Option (Link ν) :=
  match t.file p with
  | some (.link l) => some l
  | _ => none

def bytesAt (t : LinkTree ν β) (p : List ν) : Option β :=
  match t.file p with
  | some (.bytes b) => some b
  | _ => none

def maxLinks : Nat := 40

/-- The resolution up to the next link, where `again` goes on. All on the way is a
directory; what is at the end need not exist. -/
def locateWith (t : LinkTree ν β) (again : List ν → List (Seg ν) → Option (List ν)) :
    List ν → List (Seg ν) → Option (List ν)
  | cur, [] => some cur
  | cur, .up :: rest => locateWith t again cur.dropLast rest
  | cur, .name x :: rest =>
    match t.node (cur ++ [x]) with
    | some .dir => locateWith t again (cur ++ [x]) rest
    | some (.file (.link l)) => again (if l.absolute then [] else cur) (l.segs ++ rest)
    | _ => if rest.isEmpty then some (cur ++ [x]) else none

def locateFrom (t : LinkTree ν β) : Nat → List ν → List (Seg ν) → Option (List ν)
  | 0 => locateWith t fun _ _ => none
  | n + 1 => locateWith t (locateFrom t n)

/-- Where a path leads, links followed. -/
def locate (t : LinkTree ν β) (p : List ν) : Option (List ν) :=
  t.locateFrom maxLinks [] (p.map .name)

/-- Where the entry at the end of a path is, not followed if it is a link. -/
def spot (t : LinkTree ν β) (p : List ν) : Option (List ν) :=
  match p.getLast?, t.locate p.dropLast with
  | some x, some r => if t.isDir r then some (r ++ [x]) else none
  | _, _ => none

/-- The resolution that only knows the links. -/
def realWith (links : List ν → Option (Link ν)) (again : List ν → List (Seg ν) → Option (List ν)) :
    List ν → List (Seg ν) → Option (List ν)
  | cur, [] => some cur
  | cur, .up :: rest => realWith links again cur.dropLast rest
  | cur, .name x :: rest =>
    match links (cur ++ [x]) with
    | none => realWith links again (cur ++ [x]) rest
    | some l => again (if l.absolute then [] else cur) (l.segs ++ rest)

def realFrom (links : List ν → Option (Link ν)) : Nat → List ν → List (Seg ν) → Option (List ν)
  | 0 => realWith links fun _ _ => none
  | n + 1 => realWith links (realFrom links n)

def real (links : List ν → Option (Link ν)) (p : List ν) : Option (List ν) :=
  realFrom links maxLinks [] (p.map .name)

theorem locateWith_name (t : LinkTree ν β) (again : List ν → List (Seg ν) → Option (List ν))
    (cur : List ν) (x : ν) (rest : List (Seg ν)) :
    locateWith t again cur (.name x :: rest) =
      match t.node (cur ++ [x]) with
      | some .dir => locateWith t again (cur ++ [x]) rest
      | some (.file (.link l)) => again (if l.absolute then [] else cur) (l.segs ++ rest)
      | _ => if rest.isEmpty then some (cur ++ [x]) else none := rfl

theorem realWith_name (links : List ν → Option (Link ν))
    (again : List ν → List (Seg ν) → Option (List ν)) (cur : List ν) (x : ν) (rest : List (Seg ν)) :
    realWith links again cur (.name x :: rest) =
      match links (cur ++ [x]) with
      | none => realWith links again (cur ++ [x]) rest
      | some l => again (if l.absolute then [] else cur) (l.segs ++ rest) := rfl

theorem linkAt_of_dir {t : LinkTree ν β} {p : List ν} (h : t.node p = some .dir) :
    t.linkAt p = none := by
  simp [linkAt, file_eq_none_of_dir h]

theorem linkAt_of_link {t : LinkTree ν β} {p : List ν} {l : Link ν}
    (h : t.node p = some (.file (.link l))) : t.linkAt p = some l := by
  simp [linkAt, file_eq_some.mpr h]

/-- A tree whose links are all among the given ones. -/
def Agrees (t : LinkTree ν β) (links : List ν → Option (Link ν)) : Prop :=
  ∀ p, t.node p ≠ none → t.linkAt p = links p

section Real

variable {t : LinkTree ν β} {links : List ν → Option (Link ν)}

theorem realWith_of_locateWith (hAgree : t.Agrees links)
    {again again' : List ν → List (Seg ν) → Option (List ν)} {r : List ν}
    (hr : t.linkAt r = links r)
    (hAgain : ∀ cur segs, again cur segs = some r → again' cur segs = some r) {cur : List ν}
    {segs : List (Seg ν)} (h : locateWith t again cur segs = some r) :
    realWith links again' cur segs = some r := by
  induction segs generalizing cur with
  | nil => exact h
  | cons seg rest ih =>
    cases seg with
    | up => exact ih h
    | name x =>
      simp only [locateWith_name] at h
      simp only [realWith_name]
      split at h
      · next hDir =>
        rw [← hAgree _ (by simp [hDir]), linkAt_of_dir hDir]
        exact ih h
      · next l hLink =>
        rw [← hAgree _ (by simp [hLink]), linkAt_of_link hLink]
        exact hAgain _ _ h
      · next hNot hNotLink =>
        split at h
        · next hEnd =>
          obtain rfl : cur ++ [x] = r := Option.some.inj h
          have hNone : t.linkAt (cur ++ [x]) = none := by
            unfold linkAt
            split
            · next l hFile => exact absurd (file_eq_some.mp hFile) (hNotLink l)
            · rfl
          obtain rfl := List.isEmpty_iff.mp hEnd
          rw [← hr, hNone]
          rfl
        · cases h

theorem real_of_locate (hAgree : t.Agrees links) {p r : List ν} (hr : t.linkAt r = links r)
    (h : t.locate p = some r) : real links p = some r := by
  have hFrom : ∀ n cur segs, t.locateFrom n cur segs = some r →
      realFrom links n cur segs = some r := by
    intro n
    induction n with
    | zero =>
      intro cur segs
      exact realWith_of_locateWith hAgree hr fun _ _ hNone => by cases hNone
    | succ n ih =>
      intro cur segs
      exact realWith_of_locateWith hAgree hr ih
  exact hFrom maxLinks [] _ h

end Real

section Real

variable {links : List ν → Option (Link ν)}

theorem realFrom_append {n : Nat} {cur : List ν} {a b : List (Seg ν)} {r : List ν}
    (h : realFrom links n cur (a ++ b) = some r) :
    ∃ m mid, realFrom links n cur a = some mid ∧ realFrom links m mid b = some r := by
  induction n generalizing cur a with
  | zero =>
    induction a generalizing cur with
    | nil => exact ⟨0, cur, rfl, h⟩
    | cons seg a ih =>
      cases seg with
      | up => exact ih h
      | name x =>
        simp only [List.cons_append, realFrom, realWith_name] at h ⊢
        split at h
        · exact ih h
        · cases h
  | succ n ihn =>
    induction a generalizing cur with
    | nil => exact ⟨n + 1, cur, rfl, h⟩
    | cons seg a ih =>
      cases seg with
      | up => exact ih h
      | name x =>
        simp only [List.cons_append, realFrom, realWith_name] at h ⊢
        split at h
        · exact ih h
        · rw [← List.append_assoc] at h
          exact ihn h

theorem realFrom_plain {n : Nat} {cur q : List ν}
    (hPlain : ∀ p, p ≠ [] → p <+: q → links (cur ++ p) = none) :
    realFrom links n cur (q.map .name) = some (cur ++ q) := by
  have hWith : ∀ again, ∀ q cur, (∀ p, p ≠ [] → p <+: q → links (cur ++ p) = none) →
      realWith links again cur (q.map Seg.name) = some (cur ++ q) := by
    intro again q
    induction q with
    | nil => simp [realWith]
    | cons x q ih =>
      intro cur hPlain
      simp only [List.map_cons, realWith_name, hPlain [x] (by simp) (by simp)]
      rw [ih (cur ++ [x]) fun p hp hPre => ?_]
      · simp
      · rw [List.append_assoc]
        exact hPlain (x :: p) (by simp) (by simpa using hPre)
  cases n <;> exact hWith _ q cur hPlain

/-- Below the place of a path only the links there matter. -/
theorem real_append {p q mid r : List ν} (hMid : real links p = some mid)
    (hPlain : ∀ s, s ≠ [] → s <+: q → links (mid ++ s) = none) (h : real links (p ++ q) = some r) :
    r = mid ++ q := by
  rw [real, List.map_append] at h
  obtain ⟨m, mid', hFirst, hRest⟩ := realFrom_append h
  obtain rfl : mid = mid' := Option.some.inj (hMid.symm.trans hFirst)
  rw [realFrom_plain hPlain] at hRest
  exact (Option.some.inj hRest).symm

end Real

section Resolved

variable {t : LinkTree ν β}

theorem dropLast_dir {p : List ν} (h : t.node p = some .dir) : t.node p.dropLast = some .dir := by
  cases p using List.reverseRecOn with
  | nil => exact t.root
  | append_singleton p x =>
    rw [List.dropLast_concat]
    exact t.parent p x (by simp [h])

theorem linkAt_locate {p r : List ν} (h : t.locate p = some r) : t.linkAt r = none := by
  have hWith : ∀ again : List ν → List (Seg ν) → Option (List ν),
      (∀ cur segs, t.node cur = some .dir → again cur segs = some r → t.linkAt r = none) →
      ∀ segs cur, t.node cur = some .dir → locateWith t again cur segs = some r →
        t.linkAt r = none := by
    intro again hAgain segs
    induction segs with
    | nil =>
      rintro cur hDir ⟨⟩
      exact linkAt_of_dir hDir
    | cons seg rest ih =>
      intro cur hDir h
      cases seg with
      | up => exact ih _ (dropLast_dir hDir) h
      | name x =>
        simp only [locateWith_name] at h
        split at h
        · next hNext => exact ih _ hNext h
        · next l hLink =>
          refine hAgain _ _ ?_ h
          split
          · exact t.root
          · exact hDir
        · next hNot hNotLink =>
          split at h
          · cases h
            unfold linkAt
            split
            · next l hFile => exact absurd (file_eq_some.mp hFile) (hNotLink l)
            · rfl
          · cases h
  have hFrom : ∀ n cur segs, t.node cur = some .dir → t.locateFrom n cur segs = some r →
      t.linkAt r = none := by
    intro n
    induction n with
    | zero => exact fun cur segs => hWith _ (fun _ _ _ hNone => by cases hNone) segs cur
    | succ n ih => exact fun cur segs => hWith _ ih segs cur
  exact hFrom maxLinks [] _ t.root h

theorem locate_dir {p : List ν} (h : t.node p = some .dir) : t.locate p = some p := by
  have hWith : ∀ again, ∀ q cur, t.node (cur ++ q) = some .dir →
      locateWith t again cur (q.map Seg.name) = some (cur ++ q) := by
    intro again q
    induction q with
    | nil => simp [locateWith]
    | cons x q ih =>
      intro cur hEnd
      have hNext : t.node (cur ++ [x] ++ q) = some .dir := by simpa using hEnd
      have hHead : t.node (cur ++ [x]) = some .dir := by
        by_cases hq : q = []
        · simpa [hq] using hNext
        · exact t.dir_of_prefix (q := cur ++ [x] ++ q) (by simp [hEnd]) (List.prefix_append _ _)
            (by simp [hq])
      simp only [List.map_cons, locateWith_name, hHead]
      rw [ih _ hNext]
      simp
  exact hWith _ p [] h

end Resolved

end FileTree
