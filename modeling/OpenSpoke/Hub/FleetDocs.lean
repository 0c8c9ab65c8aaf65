import OpenSpoke.Lib.DocIndex
import OpenSpoke.Python.Text

/-!
# The documents of `fleet_state`

`_update_cluster_doc` keeps what it records in the field `extra` of a document,
`fleet_state_upsert` lays its extra fields beside the others.
-/

namespace OpenSpoke.Hub

open Python (Text)

/-- A JSON value; of a value that is no object, its text and whether it counts as true. -/
inductive Value
  | leaf (truthy : Bool) (json : Text)
  | object (fields : List (Text × Value))

mutual

def Value.decEq : (v w : Value) → Decidable (v = w)
  | .leaf b t, .leaf c u => decidable_of_iff (b = c ∧ t = u) (by simp)
  | .object f, .object g => @decidable_of_iff _ (f = g) (by simp) (Value.decEqFields f g)
  | .leaf .., .object _ => .isFalse nofun
  | .object _, .leaf .. => .isFalse nofun

def Value.decEqFields : (f g : List (Text × Value)) → Decidable (f = g)
  | [], [] => .isTrue rfl
  | [], _ :: _ => .isFalse nofun
  | _ :: _, [] => .isFalse nofun
  | (k, v) :: f, (l, w) :: g =>
    @decidable_of_iff _ (k = l ∧ v = w ∧ f = g) (by simp [and_assoc])
      (@instDecidableAnd _ _ _ (@instDecidableAnd _ _ (Value.decEq v w) (Value.decEqFields f g)))

end

instance : DecidableEq Value := Value.decEq

/-- The first entry with a name counts. -/
abbrev Fields := List (Text × Value)

namespace Fields

def get (f : Fields) (k : Text) : Option Value := (Keyed.find Prod.fst k f).map Prod.snd

variable {f g : Fields} {k l : Text} {v : Value}

@[simp] theorem get_nil : get [] k = none := rfl

theorem get_cons : get ((l, v) :: f) k = if l = k then some v else get f k := by
  simp only [get, Keyed.find, List.find?_cons]
  split
  next h => rw [if_pos (of_decide_eq_true h)]; rfl
  next h => rw [if_neg (of_decide_eq_false h)]

@[simp] theorem get_cons_self : get ((k, v) :: f) k = some v := by
  rw [get_cons, if_pos rfl]

theorem get_append : get (f ++ g) k = (get f k).or (get g k) := by
  simp only [get, Keyed.find, List.find?_append, Option.map_or]

end Fields

def Value.text (t : Text) : Value := .leaf (t ≠ []) t

def Value.isTrue : Value → Bool
  | .leaf truthy _ => truthy
  | .object fields => fields ≠ []

def docIdField : Text := "doc_id".toList

def docKind : Text := "doc_kind".toList

def title : Text := "title".toList

def content : Text := "content".toList

def extra : Text := "extra".toList

def createdAt : Text := "created_at".toList

def updatedAt : Text := "updated_at".toList

def clusterName : Text := "cluster_name".toList

abbrev FleetIndex := DocIndex Text Fields

def clusterDoc (name : Text) : Text := "cluster:".toList ++ name

/-- `src.get("extra") or {}`; what is no dictionary then fails. -/
def extraOf (src : Fields) : Option Fields :=
  match src.get extra with
  | none => some []
  | some (.object fields) => some fields
  | some (.leaf truthy _) => if truthy then none else some []

def newContent (name : Text) : Text :=
  "# ".toList ++ name ++ " クラスタ\n\n中央ハブ MCP の Fleet 操作系ツールにより自動作成された\n".toList ++
    "クラスタ管理エントリ。 最新の構造化情報は extra フィールド\n".toList ++
    "を参照。 詳細な経緯は手動で fleet_state_upsert で補足する。".toList

/-- What `_update_cluster_doc` puts, given what it has read. -/
def updateClusterDoc (name : Text) (fields : Fields) (now : Text) : Option Fields → Option Fields
  | some src => (extraOf src).map fun old =>
    (updatedAt, .text now) :: (extra, .object ((updatedAt, .text now) :: fields ++ old)) :: src
  | none => some
    [ (docIdField, .text (clusterDoc name)),
      (docKind, .text "cluster".toList),
      (title, .text (name ++ " クラスタ — 新 Fleet 管理状態".toList)),
      (content, .text (newContent name)),
      (extra, .object ((updatedAt, .text now) :: (clusterName, .text name) :: fields)),
      (createdAt, .text now),
      (updatedAt, .text now) ]

/-- The arguments of `fleet_state_upsert`. -/
structure Upsert where
  docId : Text
  title : Text
  content : Text
  docKind : Text
  extra : Fields

/-- The fields that an upsert sets. -/
def Upsert.fields (u : Upsert) (now : Text) : Fields :=
  u.extra ++
    [ (docIdField, .text u.docId),
      (Hub.docKind, .text u.docKind),
      (Hub.title, .text u.title),
      (Hub.content, .text u.content),
      (updatedAt, .text now) ]

/-- The `created_at` that is kept, or the time. -/
def created (now : Text) (existing : Option Fields) : Value :=
  match (existing.bind fun src => src.get createdAt) with
  | some v => if v.isTrue then v else .text now
  | none => .text now

/-- What `fleet_state_upsert` puts, given what it has read. -/
def Upsert.doc (u : Upsert) (now : Text) (existing : Option Fields) : Fields :=
  (createdAt, created now existing) :: u.fields now

/-- What is recorded in a document. -/
def recordedIn (src : Fields) (k : Text) : Option Value := (extraOf src).bind (·.get k)

theorem updatedAt_ne_extra : updatedAt ≠ extra := by decide

theorem recordedIn_object {src f : Fields} {k : Text} (h : src.get extra = some (.object f)) :
    recordedIn src k = f.get k := by
  simp only [recordedIn, extraOf, h, Option.bind_some]

theorem updateClusterDoc_extra {name now : Text} {fields d : Fields} {existing : Option Fields}
    (h : updateClusterDoc name fields now existing = some d) :
    ∃ old : Fields, d.get extra = some (.object ((updatedAt, .text now) :: old)) ∧
      ∀ k, k ≠ clusterName → old.get k = (fields.get k).or
        ((existing.bind extraOf).bind (·.get k)) := by
  cases existing with
  | some src =>
    obtain ⟨old, hOld, rfl⟩ := Option.map_eq_some_iff.mp h
    refine ⟨fields ++ old, ?_, ?_⟩
    · rw [Fields.get_cons, if_neg updatedAt_ne_extra, Fields.get_cons_self]
      rfl
    · intro k _
      rw [Fields.get_append, Option.bind_some, hOld, Option.bind_some]
  | none =>
    cases h
    refine ⟨(clusterName, .text name) :: fields, ?_, ?_⟩
    · simp only [Fields.get_cons]
      rw [if_neg (by decide), if_neg (by decide), if_neg (by decide),
        if_neg (by decide), if_pos trivial]
    · intro k hk
      rw [Fields.get_cons, if_neg hk.symm, Option.bind_none, Option.bind_none, Option.or_none]

/-! ## Documents that are alike -/

/-- What a value is if it is no object. -/
def Value.leaf? : Value → Option (Bool × Text)
  | .leaf truthy json => some (truthy, json)
  | .object _ => none

/-- The same fields, and the same fields recorded. -/
structure Alike (d e : Fields) : Prop where
  fields : ∀ k, k ≠ extra → d.get k = e.get k
  leaf : (d.get extra).map Value.leaf? = (e.get extra).map Value.leaf?
  recorded : ∀ k, recordedIn d k = recordedIn e k

variable {d e : Fields}

theorem Alike.of_get (h : ∀ k, d.get k = e.get k) : Alike d e where
  fields k _ := h k
  leaf := by rw [h]
  recorded k := by rw [recordedIn, recordedIn, extraOf, extraOf, h]

theorem Alike.refl (d : Fields) : Alike d d := .of_get fun _ => rfl

theorem Alike.trans {f : Fields} (h : Alike d e) (h' : Alike e f) : Alike d f where
  fields k hk := (h.fields k hk).trans (h'.fields k hk)
  leaf := h.leaf.trans h'.leaf
  recorded k := (h.recorded k).trans (h'.recorded k)

theorem Alike.extraOf (h : Alike d e) {old : Fields} (hOld : Hub.extraOf d = some old) :
    ∃ old', Hub.extraOf e = some old' ∧ ∀ k, old.get k = old'.get k := by
  have hRecorded := h.recorded
  have hLeaf := h.leaf
  cases hE : Hub.extraOf e with
  | some old' =>
    refine ⟨old', rfl, fun k => ?_⟩
    have hk := hRecorded k
    rwa [recordedIn, recordedIn, hOld, hE] at hk
  | none =>
    exfalso
    unfold Hub.extraOf at hOld hE
    cases hGet : e.get extra with
    | none => simp [hGet] at hE
    | some v =>
      cases v with
      | object f => simp [hGet] at hE
      | leaf truthy json =>
        cases hGet' : d.get extra with
        | none => simp [hGet, hGet'] at hLeaf
        | some v' =>
          cases v' with
          | object f => simp [hGet, hGet', Value.leaf?] at hLeaf
          | leaf truthy' json' =>
            simp only [hGet, hGet', Option.map_some, Value.leaf?, Option.some.injEq,
              Prod.mk.injEq] at hLeaf
            simp [hGet, hGet', hLeaf.1] at hOld hE
            simp [hE] at hOld

theorem Alike.update (h : Alike d e) {name now : Text} {fields d' : Fields}
    (hUpdate : updateClusterDoc name fields now (some d) = some d') :
    ∃ e', updateClusterDoc name fields now (some e) = some e' ∧ Alike d' e' := by
  obtain ⟨old, hOld, rfl⟩ := Option.map_eq_some_iff.mp hUpdate
  obtain ⟨old', hOld', hSame⟩ := h.extraOf hOld
  refine ⟨_, Option.map_eq_some_iff.mpr ⟨old', hOld', rfl⟩, ?_⟩
  constructor
  · intro k hk
    simp only [Fields.get_cons, h.fields k hk, hk.symm, if_false]
  · simp only [Fields.get_cons, updatedAt_ne_extra, if_false, if_true, Option.map_some, Value.leaf?]
  · intro k
    rw [recordedIn_object (by rw [Fields.get_cons, if_neg updatedAt_ne_extra, Fields.get_cons_self]),
      recordedIn_object (by rw [Fields.get_cons, if_neg updatedAt_ne_extra, Fields.get_cons_self])]
    simp only [List.cons_append, Fields.get_cons, Fields.get_append, hSame k]

theorem Alike.rel_update {x y : Option Fields} (h : Option.Rel Alike x y) {name now : Text}
    {fields d' : Fields} (hUpdate : updateClusterDoc name fields now x = some d') :
    ∃ e', updateClusterDoc name fields now y = some e' ∧ Alike d' e' := by
  cases h with
  | none => exact ⟨d', hUpdate, .refl d'⟩
  | some h => exact h.update hUpdate

theorem createdAt_ne_extra : createdAt ≠ extra := by decide

theorem Alike.rel_created {x y : Option Fields} (h : Option.Rel Alike x y) (now : Text) :
    created now x = created now y := by
  cases h with
  | none => rfl
  | some h => simp only [created, Option.bind_some, h.fields createdAt createdAt_ne_extra]

theorem updateClusterDoc_get {name now k : Text} {fields d' : Fields}
    (h : updateClusterDoc name fields now (some d) = some d') (hExtra : k ≠ extra)
    (hUpdated : k ≠ updatedAt) : d'.get k = d.get k := by
  obtain ⟨old, -, rfl⟩ := Option.map_eq_some_iff.mp h
  rw [Fields.get_cons, if_neg hUpdated.symm, Fields.get_cons, if_neg hExtra.symm]

end OpenSpoke.Hub
