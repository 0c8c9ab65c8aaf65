import OpenSpoke.Python.Text

/-!
# URLs

`urllib.parse` as far as the scheme, the host and the path of a URL are
concerned. The checks that `urlsplit` makes of a netloc, of its brackets and of
its characters under NFKC, are a parameter, as is `str.lower`.
-/

namespace OpenSpoke.Python

def schemeChar (c : Char) : Bool := c.isAlphanum || c = '+' || c = '-' || c = '.'

/-- `urlsplit` takes these out. -/
def removedFromUrl (c : Char) : Bool := c = '\t' || c = '\n' || c = '\r'

def endsNetloc (c : Char) : Bool := c = '/' || c = '?' || c = '#'

def slashes : Text := ['/', '/']

structure SplitResult where
  scheme : Text
  netloc : Text
  path : Text
  deriving DecidableEq

/-- The scheme and what follows the colon; a scheme is ASCII. -/
def splitScheme (url : Text) : Text × Text :=
  let head := url.takeWhile (· ≠ ':')
  match head, url.drop head.length with
  | c :: _, _ :: rest =>
    if c.isAlpha && head.all schemeChar then (head.map Char.toLower, rest) else ([], url)
  | _, _ => ([], url)

def cleanUrl (url : Text) : Text := url.filter fun c => !removedFromUrl c

/-- The rest of a URL after its scheme. -/
def splitRest (check : Text → Bool) (scheme rest : Text) : Option SplitResult :=
  let netloc := if slashes <+: rest then (rest.drop 2).takeWhile fun c => !endsNetloc c else []
  let rest := if slashes <+: rest then (rest.drop 2).dropWhile fun c => !endsNetloc c else rest
  if netloc.isEmpty || check netloc then
    some { scheme, netloc, path := (rest.takeWhile (· ≠ '#')).takeWhile (· ≠ '?') }
  else none

/-- `urlsplit`; none if it raises. -/
def urlsplit (check : Text → Bool) (url : Text) : Option SplitResult :=
  let parts := splitScheme (cleanUrl (url.dropWhile fun c => c.toNat ≤ 32))
  splitRest check parts.1 parts.2

/-- `t.rpartition(c)[2]`. -/
def afterLast (c : Char) (t : Text) : Text := (t.reverse.takeWhile (· ≠ c)).reverse

/-- `SplitResult.hostname` of a netloc. -/
def hostname (lower : Text → Text) (netloc : Text) : Option Text :=
  let info := afterLast '@' netloc
  let host :=
    if '[' ∈ info then ((info.dropWhile (· ≠ '[')).drop 1).takeWhile (· ≠ ']')
    else info.takeWhile (· ≠ ':')
  if host = [] then none else some (lower (host.takeWhile (· ≠ '%')) ++ host.dropWhile (· ≠ '%'))

/-- The host that a URL leads to. -/
def urlHost (lower : Text → Text) (url : Text) : Option Text :=
  (urlsplit (fun _ => true) url).bind fun p => hostname lower p.netloc

def unreserved (c : Char) : Bool := c.isAlphanum || c = '_' || c = '.' || c = '-' || c = '~'

def hexDigit (n : Fin 16) : Char :=
  ['0', '1', '2', '3', '4', '5', '6', '7', '8', '9', 'A', 'B', 'C', 'D', 'E', 'F'][n]

def percent (b : UInt8) : Text :=
  ['%', hexDigit ⟨b.toNat / 16, by have := b.toNat_lt; omega⟩,
    hexDigit ⟨b.toNat % 16, Nat.mod_lt _ (by decide)⟩]

/-- `quote(t, safe='')`. -/
def quote (t : Text) : Text :=
  t.flatMap fun c => if unreserved c then [c] else (String.utf8EncodeChar c).flatMap percent

/-! ## Userinfo in front of a netloc -/

/-- The character neither ends a netloc nor is taken out of a URL. -/
def inNetloc (c : Char) : Bool := !endsNetloc c && !removedFromUrl c

theorem unreserved_inNetloc {c : Char} (h : unreserved c = true) : inNetloc c = true := by
  by_contra hNot
  simp only [inNetloc, endsNetloc, removedFromUrl, Bool.and_eq_true, Bool.not_eq_true',
    Bool.or_eq_false_iff, decide_eq_false_iff_not, not_and_or, not_not] at hNot
  rcases hNot with ((rfl | rfl) | rfl) | ((rfl | rfl) | rfl) <;> exact absurd h (by decide)

theorem quote_inNetloc {t : Text} {c : Char} (h : c ∈ quote t) : inNetloc c = true := by
  have hDigit : ∀ n : Fin 16, inNetloc (hexDigit n) = true := by decide
  obtain ⟨d, _, hc⟩ := List.mem_flatMap.mp h
  split at hc
  next hFree =>
    rw [List.mem_singleton.mp hc]
    exact unreserved_inNetloc hFree
  next =>
    obtain ⟨b, _, hc⟩ := List.mem_flatMap.mp hc
    simp only [percent, List.mem_cons, List.not_mem_nil, or_false] at hc
    rcases hc with rfl | rfl | rfl
    · rfl
    · exact hDigit _
    · exact hDigit _

theorem takeWhile_stop {α : Type} {p : α → Bool} {a : α} (ha : p a = false) (xs ys : List α) :
    (xs ++ a :: ys).takeWhile p = xs.takeWhile p := by
  induction xs with
  | nil => simp [ha]
  | cons x xs ih => cases hx : p x <;> simp [hx, ih]

theorem afterLast_append (c : Char) (s t : Text) : afterLast c (s ++ c :: t) = afterLast c t := by
  simp [afterLast, takeWhile_stop]

theorem hostname_append (lower : Text → Text) (info netloc : Text) :
    hostname lower (info ++ '@' :: netloc) = hostname lower netloc := by
  simp only [hostname, afterLast_append]

theorem urlsplit_https (check : Text → Bool) (t : Text) :
    urlsplit check (['h', 't', 't', 'p', 's', ':', '/', '/'] ++ t) =
      splitRest check ['h', 't', 't', 'p', 's'] (slashes ++ cleanUrl t) := rfl

theorem splitRest_scheme {check : Text → Bool} {scheme rest : Text} {p : SplitResult}
    (h : splitRest check scheme rest = some p) : p.scheme = scheme := by
  simp only [splitRest, Option.ite_none_right_eq_some, Option.some.injEq] at h
  exact (congrArg SplitResult.scheme h.2).symm

theorem splitRest_slashes (check : Text → Bool) (scheme t : Text) :
    splitRest check scheme (slashes ++ t) =
      if (t.takeWhile fun c => !endsNetloc c).isEmpty || check (t.takeWhile fun c => !endsNetloc c) then
        some
          { scheme := scheme
            netloc := t.takeWhile fun c => !endsNetloc c
            path := ((t.dropWhile fun c => !endsNetloc c).takeWhile (· ≠ '#')).takeWhile (· ≠ '?') }
      else none := by
  simp only [splitRest, List.prefix_append, if_true]
  rfl

theorem splitScheme_mem {url : Text} {c : Char} (h : c ∈ (splitScheme url).2) : c ∈ url := by
  simp only [splitScheme] at h
  split at h
  next hDrop =>
    split at h
    · exact List.mem_of_mem_drop (hDrop ▸ List.mem_cons_of_mem _ h)
    · exact h
  next => exact h

theorem splitRest_mem {check : Text → Bool} {scheme rest : Text} {p : SplitResult}
    (h : splitRest check scheme rest = some p) {c : Char} (hc : c ∈ p.netloc ++ p.path) :
    c ∈ rest := by
  by_cases hSlash : slashes <+: rest
  · have hDrop : c ∈ rest.drop 2 → c ∈ rest := List.mem_of_mem_drop
    simp only [splitRest, hSlash, if_true] at h
    split at h
    · cases h
      rcases List.mem_append.mp hc with hc | hc
      · exact hDrop ((List.takeWhile_prefix _).subset hc)
      · have hc := (List.takeWhile_prefix _).subset ((List.takeWhile_prefix _).subset hc)
        exact hDrop ((List.dropWhile_suffix _).subset hc)
    · cases h
  · simp only [splitRest, hSlash, if_false, List.isEmpty_nil, Bool.true_or, if_true,
      Option.some.injEq] at h
    subst h
    exact (List.takeWhile_prefix _).subset ((List.takeWhile_prefix _).subset hc)

theorem urlsplit_clean {check : Text → Bool} {url : Text} {p : SplitResult}
    (h : urlsplit check url = some p) : cleanUrl (p.netloc ++ p.path) = p.netloc ++ p.path :=
  List.filter_eq_self.mpr fun _ hc => (List.mem_filter.mp (splitScheme_mem (splitRest_mem h hc))).2

theorem urlHost_userinfo (lower : Text → Text) {info rest : Text}
    (hInfo : ∀ c ∈ info, inNetloc c = true) (hClean : cleanUrl rest = rest) :
    urlHost lower (['h', 't', 't', 'p', 's', ':', '/', '/'] ++ (info ++ '@' :: rest)) =
      hostname lower (rest.takeWhile fun c => !endsNetloc c) := by
  simp only [inNetloc, Bool.and_eq_true] at hInfo
  have hSplit : cleanUrl (info ++ '@' :: rest) = info ++ '@' :: rest := by
    have hKeep : cleanUrl info = info := List.filter_eq_self.mpr fun c hc => (hInfo c hc).2
    have hAt : cleanUrl ('@' :: rest) = '@' :: cleanUrl rest := rfl
    rw [cleanUrl, List.filter_append]
    exact congrArg₂ (· ++ ·) hKeep (hAt.trans (congrArg _ hClean))
  rw [urlHost, urlsplit_https, hSplit, splitRest_slashes, if_pos (Bool.or_true _),
    Option.bind_some, List.takeWhile_append_of_pos fun c hc => (hInfo c hc).1]
  exact hostname_append lower _ _

end OpenSpoke.Python
