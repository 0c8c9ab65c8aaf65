import OpenSpoke.Rag.Fusion

/-!
# What a fusion returns

One document for each key, scored by the formula and with the first date, highest
score first. If no two texts share their first 200 characters, keys are as good as
texts. If two do, one of them is gone.
-/

namespace OpenSpoke.Rag.Fusion

open Python (Text)

variable {φ : Type}

/-- What one list adds to the score of a key. -/
def listScore (k : ℕ) (key : Text) (p : ℚ × List (Doc φ)) : ℚ :=
  ((p.2.zipIdx.filter fun e => textKey e.1 = key).map fun e => p.1 / (k + e.2 + 1)).sum

def score (k : ℕ) (pairs : List (ℚ × List (Doc φ))) (key : Text) : ℚ :=
  (pairs.map (listScore k key)).sum

/-- The share of one list in the score of a text. -/
def share (k : ℕ) (t : Text) (p : ℚ × List (Doc φ)) : ℚ :=
  if t ∈ p.2.map Doc.text then p.1 / (k + (p.2.map Doc.text).idxOf t + 1) else 0

def textScore (k : ℕ) (pairs : List (ℚ × List (Doc φ))) (t : Text) : ℚ :=
  (pairs.map (share k t)).sum

def firstUnder (docs : List (Doc φ)) (key : Text) : Option (Doc φ) :=
  docs.find? fun d => textKey d = key

def firstDated (docs : List (Doc φ)) (key : Text) : Option Text :=
  docs.findSome? fun d => if textKey d = key then d.dated else none

/-- Different texts have different keys, and no list has a text twice. -/
structure Separate (resultLists : List (List (Doc φ))) : Prop where
  keys : ∀ d ∈ resultLists.flatten, ∀ e ∈ resultLists.flatten, textKey d = textKey e → d.text = e.text
  once : ∀ l ∈ resultLists, (l.map Doc.text).Nodup

structure Fused (resultLists : List (List (Doc φ))) (k : ℕ) (weights : Option (List ℚ))
    (out : List (Doc φ)) : Prop where
  once : (out.map textKey).Nodup
  keys : ∀ key, key ∈ out.map textKey ↔ key ∈ resultLists.flatten.map textKey
  docs : ∀ d ∈ out, ∃ e, firstUnder resultLists.flatten (textKey d) = some e ∧
    d = { e with
      rrfScore := some (score k (weighted resultLists weights) (textKey d))
      createdAt := (firstDated resultLists.flatten (textKey d)).or e.createdAt }
  ranked : out.Pairwise fun d e => ∀ x ∈ d.rrfScore, ∀ y ∈ e.rrfScore, y ≤ x
  permuted : ∀ resultLists' weights' out',
    (weighted resultLists' weights').Perm (weighted resultLists weights) →
    rrfMerge resultLists' k weights' = some out' →
    ∀ d ∈ out, ∃ d' ∈ out', textKey d' = textKey d ∧ d'.rrfScore = d.rrfScore
  texts : Separate resultLists → (out.map Doc.text).Nodup ∧
    (∀ t, t ∈ out.map Doc.text ↔ t ∈ resultLists.flatten.map Doc.text) ∧
    ∀ d ∈ out, d.rrfScore = some (textScore k (weighted resultLists weights) d.text)

/-! ## Places and lists -/

theorem weighted_snd (resultLists : List (List (Doc φ))) (weights : Option (List ℚ)) :
    (weighted resultLists weights).map Prod.snd = resultLists := by
  rw [weighted, List.map_map]
  change resultLists.zipIdx.map Prod.fst = resultLists
  rw [List.zipIdx_map_fst]

theorem places_fst (k : ℕ) (w : ℚ) (resultList : List (Doc φ)) :
    (places k w resultList).map Prod.fst = resultList := by
  rw [places, List.map_map]
  change resultList.zipIdx.map Prod.fst = resultList
  rw [List.zipIdx_map_fst]

theorem allPlaces_fst (k : ℕ) (pairs : List (ℚ × List (Doc φ))) :
    (allPlaces k pairs).map Prod.fst = (pairs.map Prod.snd).flatten := by
  induction pairs with
  | nil => rfl
  | cons p pairs ih =>
    rw [allPlaces, List.flatMap_cons, List.map_append, places_fst, List.map_cons, List.flatten_cons]
    exact congrArg (p.2 ++ ·) ih

theorem firstDoc_eq (places : List (Doc φ × ℚ)) (key : Text) :
    firstDoc places key = firstUnder (places.map Prod.fst) key := by
  rw [firstUnder, List.find?_map]
  rfl

theorem firstDate_eq (places : List (Doc φ × ℚ)) (key : Text) :
    firstDate places key = firstDated (places.map Prod.fst) key := by
  rw [firstDated, List.findSome?_map]
  rfl

theorem keyScore_append (xs ys : List (Doc φ × ℚ)) (key : Text) :
    keyScore (xs ++ ys) key = keyScore xs key + keyScore ys key := by
  rw [keyScore, List.filter_append, List.map_append, List.sum_append]
  rfl

theorem keyScore_places (k : ℕ) (w : ℚ) (resultList : List (Doc φ)) (key : Text) :
    keyScore (places k w resultList) key = listScore k key (w, resultList) := by
  rw [keyScore, places, List.filter_map, List.map_map, listScore]
  rfl

theorem keyScore_allPlaces (k : ℕ) (pairs : List (ℚ × List (Doc φ))) (key : Text) :
    keyScore (allPlaces k pairs) key = score k pairs key := by
  induction pairs with
  | nil => rfl
  | cons p pairs ih =>
    rw [allPlaces, List.flatMap_cons, keyScore_append, keyScore_places, score, List.map_cons,
      List.sum_cons]
    exact congrArg _ ih

theorem zipIdx_filter {ts : List Text} (h : ts.Nodup) (t : Text) (n : ℕ) :
    (ts.zipIdx n).filter (fun e => e.1 = t) = if t ∈ ts then [(t, n + ts.idxOf t)] else [] := by
  induction ts generalizing n with
  | nil => rfl
  | cons s ts ih =>
    obtain ⟨hNew, hRest⟩ := List.nodup_cons.mp h
    rw [List.zipIdx_cons, List.filter_cons, ih hRest]
    by_cases hEq : s = t
    · subst hEq
      simp [hNew]
    · simp only [hEq, decide_false, Bool.false_eq_true, if_false, List.mem_cons, Ne.symm hEq,
        false_or, List.idxOf_cons_ne _ hEq]
      split
      · rw [Nat.add_right_comm, Nat.succ_eq_add_one, Nat.add_assoc]
      · rfl

theorem listScore_eq_share {p : ℚ × List (Doc φ)} {d : Doc φ} (hOnce : (p.2.map Doc.text).Nodup)
    (hKeys : ∀ e ∈ p.2, textKey e = textKey d → e.text = d.text) (k : ℕ) :
    listScore k (textKey d) p = share k d.text p := by
  have hTexts : (p.2.zipIdx.filter fun e => textKey e.1 = textKey d).map
      (fun e => p.1 / ((k : ℚ) + e.2 + 1)) =
      (((p.2.map Doc.text).zipIdx.filter fun e => e.1 = d.text).map
        fun e => p.1 / ((k : ℚ) + e.2 + 1)) := by
    rw [List.zipIdx_map, List.filter_map, List.map_map]
    refine congrArg _ (List.filter_congr fun e he => ?_)
    have hMem : e.1 ∈ p.2 := List.fst_mem_of_mem_zipIdx he
    apply decide_eq_decide.mpr
    constructor
    · exact hKeys e.1 hMem
    · intro hText
      exact congrArg (List.take 200) hText
  rw [listScore, hTexts, zipIdx_filter hOnce, share]
  split <;> simp

theorem score_eq_textScore {resultLists : List (List (Doc φ))} (h : Separate resultLists) (k : ℕ)
    (weights : Option (List ℚ)) {d : Doc φ} (hd : d ∈ resultLists.flatten) :
    score k (weighted resultLists weights) (textKey d) =
      textScore k (weighted resultLists weights) d.text := by
  refine congrArg List.sum (List.map_congr_left fun p hp => ?_)
  have hList : p.2 ∈ resultLists := by
    rw [← weighted_snd resultLists weights]
    exact List.mem_map_of_mem hp
  exact listScore_eq_share (h.once p.2 hList)
    (fun e he hKey => h.keys e (List.mem_flatten.mpr ⟨p.2, hList, he⟩) d hd hKey) k

theorem score_perm {pairs pairs' : List (ℚ × List (Doc φ))} (h : pairs'.Perm pairs) (k : ℕ)
    (key : Text) : score k pairs' key = score k pairs key :=
  (h.map _).sum_eq

/-! ## The result -/

theorem exists_mapM {α β : Type} {f : α → Option β} {g : β → α} {l : List α}
    (h : ∀ a ∈ l, ∃ b, f a = some b ∧ g b = a) :
    ∃ out, l.mapM f = some out ∧ out.map g = l ∧ ∀ b ∈ out, f (g b) = some b := by
  induction l with
  | nil => exact ⟨[], rfl, rfl, fun _ h => (nomatch h)⟩
  | cons a l ih =>
    obtain ⟨b, hb, hInv⟩ := h a List.mem_cons_self
    obtain ⟨out, hOut, hMap, hAll⟩ := ih fun c hc => h c (List.mem_cons_of_mem a hc)
    refine ⟨b :: out, by simp [hb, hOut], by rw [List.map_cons, hMap, hInv], ?_⟩
    intro c hc
    obtain rfl | hc := List.mem_cons.mp hc
    · rw [hInv, hb]
    · exact hAll c hc

theorem merged_eq (k : ℕ) (pairs : List (ℚ × List (Doc φ))) {key : Text} {e : Doc φ}
    (h : firstUnder (pairs.map Prod.snd).flatten key = some e) :
    (tables k pairs).merged key = some { e with
      rrfScore := some (score k pairs key)
      createdAt := (firstDated (pairs.map Prod.snd).flatten key).or e.createdAt } := by
  have hHolds := holds_tables k pairs
  have hFirst : firstDoc (allPlaces k pairs) key = some e := by
    rw [firstDoc_eq, allPlaces_fst, h]
  rw [Tables.merged, hHolds.texts, hHolds.scores, hHolds.dates, hFirst, keyScore_allPlaces,
    firstDate_eq, allPlaces_fst]
  rfl

theorem mem_keys_tables (k : ℕ) (pairs : List (ℚ × List (Doc φ))) (key : Text) :
    key ∈ (tables k pairs).scores.keys ↔ key ∈ (pairs.map Prod.snd).flatten.map textKey := by
  rw [Dict.mem_keys_iff, (holds_tables k pairs).scores, Option.isSome_map, firstDoc_eq, allPlaces_fst,
    firstUnder, List.find?_isSome]
  simp only [decide_eq_true_eq, List.mem_map]

theorem textKey_of_firstUnder {docs : List (Doc φ)} {key : Text} {e : Doc φ}
    (h : firstUnder docs key = some e) : textKey e = key := by
  have hKey := List.find?_some h
  exact of_decide_eq_true hKey

theorem mem_of_firstUnder {docs : List (Doc φ)} {key : Text} {e : Doc φ}
    (h : firstUnder docs key = some e) : e ∈ docs := List.mem_of_find?_eq_some h

theorem exists_firstUnder {docs : List (Doc φ)} {key : Text} (h : key ∈ docs.map textKey) :
    ∃ e, firstUnder docs key = some e := by
  obtain ⟨e, he, hKey⟩ := List.mem_map.mp h
  rw [← Option.isSome_iff_exists, firstUnder, List.find?_isSome]
  exact ⟨e, he, decide_eq_true hKey⟩

def ranking (t : Tables φ) : List Text :=
  t.scores.keys.insertionSort fun a b => t.score b ≤ t.score a

/-- The keys of a result in their order, and the document under each. -/
structure Merged (resultLists : List (List (Doc φ))) (k : ℕ) (weights : Option (List ℚ))
    (out : List (Doc φ)) : Prop where
  keys : out.map textKey = ranking (tables k (weighted resultLists weights))
  docs : ∀ d ∈ out, ∃ e, firstUnder resultLists.flatten (textKey d) = some e ∧
    d = { e with
      rrfScore := some (score k (weighted resultLists weights) (textKey d))
      createdAt := (firstDated resultLists.flatten (textKey d)).or e.createdAt }

theorem mem_ranking (resultLists : List (List (Doc φ))) (k : ℕ) (weights : Option (List ℚ))
    (key : Text) : key ∈ ranking (tables k (weighted resultLists weights)) ↔
      key ∈ resultLists.flatten.map textKey := by
  rw [ranking, List.mem_insertionSort, mem_keys_tables, weighted_snd]

theorem exists_rrfMerge (resultLists : List (List (Doc φ))) (k : ℕ) (weights : Option (List ℚ)) :
    ∃ out, rrfMerge resultLists k weights = some out ∧ Merged resultLists k weights out := by
  have hMerged := fun key e => @merged_eq _ k (weighted resultLists weights) key e
  simp only [weighted_snd] at hMerged
  have hFound : ∀ key ∈ ranking (tables k (weighted resultLists weights)),
      ∃ d, (tables k (weighted resultLists weights)).merged key = some d ∧ textKey d = key := by
    intro key hKey
    obtain ⟨e, he⟩ := exists_firstUnder ((mem_ranking _ _ _ _).mp hKey)
    have hSame : textKey e = key := textKey_of_firstUnder he
    exact ⟨_, hMerged key e he, hSame⟩
  obtain ⟨out, hOut, hKeys, hAll⟩ := exists_mapM hFound
  refine ⟨out, hOut, hKeys, fun d hd => ?_⟩
  have hMem : textKey d ∈ ranking (tables k (weighted resultLists weights)) :=
    hKeys ▸ List.mem_map_of_mem hd
  obtain ⟨e, he⟩ := exists_firstUnder ((mem_ranking _ _ _ _).mp hMem)
  have hSome := hAll d hd
  rw [hMerged _ e he] at hSome
  exact ⟨e, he, (Option.some.inj hSome).symm⟩

theorem score_tables (k : ℕ) (pairs : List (ℚ × List (Doc φ))) {key : Text}
    (h : key ∈ (tables k pairs).scores.keys) : (tables k pairs).score key = score k pairs key := by
  rw [Dict.mem_keys_iff, (holds_tables k pairs).scores, Option.isSome_map] at h
  obtain ⟨e, he⟩ := Option.isSome_iff_exists.mp h
  rw [Tables.score, (holds_tables k pairs).scores, he, keyScore_allPlaces]
  rfl

theorem ranking_pairwise (t : Tables φ) : (ranking t).Pairwise fun a b => t.score b ≤ t.score a := by
  have : Std.Total fun a b : Text => t.score b ≤ t.score a := ⟨fun a b => le_total _ _⟩
  have : IsTrans Text fun a b => t.score b ≤ t.score a := ⟨fun _ _ _ hab hbc => hbc.trans hab⟩
  exact List.pairwise_insertionSort _ _

namespace Merged

variable {resultLists : List (List (Doc φ))} {k : ℕ} {weights : Option (List ℚ)}
  {out : List (Doc φ)}

theorem rrfScore (h : Merged resultLists k weights out) {d : Doc φ} (hd : d ∈ out) :
    d.rrfScore = some (score k (weighted resultLists weights) (textKey d)) := by
  obtain ⟨e, -, hEq⟩ := h.docs d hd
  exact congrArg Doc.rrfScore hEq

theorem source (h : Merged resultLists k weights out) {d : Doc φ} (hd : d ∈ out) :
    ∃ e ∈ resultLists.flatten, e.text = d.text := by
  obtain ⟨e, he, hEq⟩ := h.docs d hd
  exact ⟨e, mem_of_firstUnder he, (congrArg Doc.text hEq).symm⟩

theorem mem_keys (h : Merged resultLists k weights out) (key : Text) :
    key ∈ out.map textKey ↔ key ∈ resultLists.flatten.map textKey := by
  rw [h.keys, mem_ranking]

theorem once (h : Merged resultLists k weights out) : (out.map textKey).Nodup := by
  rw [h.keys]
  exact (List.perm_insertionSort _ _).nodup_iff.mpr (Dict.nodup_keys _)

theorem ranked (h : Merged resultLists k weights out) :
    out.Pairwise fun d e => ∀ x ∈ d.rrfScore, ∀ y ∈ e.rrfScore, y ≤ x := by
  have hRanked := ranking_pairwise (tables k (weighted resultLists weights))
  rw [← h.keys, List.pairwise_map] at hRanked
  have hIn : ∀ c ∈ out, textKey c ∈ (tables k (weighted resultLists weights)).scores.keys := by
    intro c hc
    rw [mem_keys_tables, weighted_snd]
    exact (h.mem_keys _).mp (List.mem_map_of_mem hc)
  refine hRanked.imp_of_mem fun {d e} hd he hLe x hx y hy => ?_
  rw [score_tables _ _ (hIn d hd), score_tables _ _ (hIn e he)] at hLe
  rw [h.rrfScore hd, Option.mem_some_iff] at hx
  rw [h.rrfScore he, Option.mem_some_iff] at hy
  rw [← hx, ← hy]
  exact hLe

theorem permuted (h : Merged resultLists k weights out) {resultLists' : List (List (Doc φ))}
    {weights' : Option (List ℚ)} {out' : List (Doc φ)} (h' : Merged resultLists' k weights' out')
    (hPerm : (weighted resultLists' weights').Perm (weighted resultLists weights)) {d : Doc φ}
    (hd : d ∈ out) : ∃ d' ∈ out', textKey d' = textKey d ∧ d'.rrfScore = d.rrfScore := by
  have hLists : resultLists'.Perm resultLists := by
    rw [← weighted_snd resultLists' weights', ← weighted_snd resultLists weights]
    exact hPerm.map Prod.snd
  have hKey : textKey d ∈ out'.map textKey := by
    rw [h'.mem_keys, (hLists.flatten.map textKey).mem_iff, ← h.mem_keys]
    exact List.mem_map_of_mem hd
  obtain ⟨d', hd', hSame⟩ := List.mem_map.mp hKey
  refine ⟨d', hd', hSame, ?_⟩
  rw [h'.rrfScore hd', hSame, score_perm hPerm, h.rrfScore hd]

theorem mem_texts (h : Merged resultLists k weights out) (hSep : Separate resultLists) (t : Text) :
    t ∈ out.map Doc.text ↔ t ∈ resultLists.flatten.map Doc.text := by
  constructor
  · intro ht
    obtain ⟨d, hd, rfl⟩ := List.mem_map.mp ht
    obtain ⟨e, he, hText⟩ := h.source hd
    exact hText ▸ List.mem_map_of_mem he
  · intro ht
    obtain ⟨e, he, rfl⟩ := List.mem_map.mp ht
    obtain ⟨d, hd, hKey⟩ := List.mem_map.mp ((h.mem_keys _).mpr (List.mem_map_of_mem he))
    obtain ⟨e', he', hText⟩ := h.source hd
    have hKey' : textKey e' = textKey e := (congrArg (List.take 200) hText).trans hKey
    rw [← hSep.keys e' he' e he hKey', hText]
    exact List.mem_map_of_mem hd

theorem nodup_texts (h : Merged resultLists k weights out) : (out.map Doc.text).Nodup := by
  rw [List.nodup_map_iff_inj_on (List.Nodup.of_map _ h.once)]
  intro d hd e he hText
  exact List.inj_on_of_nodup_map h.once hd he (congrArg (List.take 200) hText)

theorem rrfScore_text (h : Merged resultLists k weights out) (hSep : Separate resultLists)
    {d : Doc φ} (hd : d ∈ out) :
    d.rrfScore = some (textScore k (weighted resultLists weights) d.text) := by
  obtain ⟨e, he, hText⟩ := h.source hd
  have hKey : textKey d = textKey e := congrArg (List.take 200) hText.symm
  rw [h.rrfScore hd, hKey, score_eq_textScore hSep k weights he, hText]

end Merged

theorem results_fused (resultLists : List (List (Doc φ))) (k : ℕ) (weights : Option (List ℚ)) :
    ∃ out, rrfMerge resultLists k weights = some out ∧ Fused resultLists k weights out := by
  obtain ⟨out, hOut, h⟩ := exists_rrfMerge resultLists k weights
  refine ⟨out, hOut, h.once, h.mem_keys, h.docs, h.ranked, ?_, ?_⟩
  · intro resultLists' weights' out' hPerm hOut' d hd
    obtain ⟨out'', hOut'', h'⟩ := exists_rrfMerge resultLists' k weights'
    obtain rfl : out' = out'' := Option.some.inj (hOut'.symm.trans hOut'')
    exact h.permuted h' hPerm hd
  · intro hSep
    exact ⟨h.nodup_texts, h.mem_texts hSep, fun d hd => h.rrfScore_text hSep hd⟩

/-- Two texts with the same 200 characters at the beginning, each in a list of its own. -/
theorem long_text_lost :
    let doc (t : Text) : Doc Unit := ⟨t, none, none, ()⟩
    let a := doc (List.replicate 200 'a' ++ ['b'])
    let b := doc (List.replicate 200 'a' ++ ['c'])
    a.text ≠ b.text ∧ ∃ out, rrfMerge [[a], [b]] 60 none = some out ∧ b.text ∉ out.map Doc.text := by
  intro doc a b
  obtain ⟨out, hOut, hFused⟩ := results_fused [[a], [b]] 60 none
  have hNe : a.text ≠ b.text := by
    set_option maxRecDepth 20000 in
    decide
  refine ⟨hNe, out, hOut, fun hMem => ?_⟩
  obtain ⟨d, hd, hText⟩ := List.mem_map.mp hMem
  obtain ⟨e, he, hEq⟩ := hFused.docs d hd
  have hKey : textKey d = textKey a := by
    rw [textKey, hText]
    decide_cbv
  have hFirst : firstUnder [[a], [b]].flatten (textKey a) = some a := by simp [firstUnder]
  rw [hKey, hFirst] at he
  obtain rfl := Option.some.inj he
  have hSame : a.text = b.text := by rw [← hText, hEq]
  exact hNe hSame

end OpenSpoke.Rag.Fusion
