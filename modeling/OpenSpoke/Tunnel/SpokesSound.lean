import Mathlib.Data.List.Forall2
import OpenSpoke.Rust.Text
import OpenSpoke.Tunnel.Frame

/-!
# TUNNEL_SPOKES

The part of `load_config` that reads the registry of spokes:
`spoke-id:port[@target][;port[@target]...]:token,...`.
-/

namespace OpenSpoke.Tunnel

open Rust (Text trim before after)

abbrev Spokes := AList fun _ : String => SpokeConfig

inductive ConfigError
  | required
  | badEntry (entry : Text)
  | emptyTarget (entry : Text)
  | badPort (port entry : Text) (e : Rust.ParseIntError)
  | noPorts (entry : Text)

def ConfigError.message : ConfigError → String
  | .required =>
    "TUNNEL_SPOKES env is required (format: spoke-id:port[@target][;port[@target]...]:token,...)"
  | .badEntry entry => "bad TUNNEL_SPOKES entry: " ++ String.ofList entry
  | .emptyTarget entry => "empty target after '@' in " ++ String.ofList entry
  | .badPort port entry e =>
    "bad port " ++ String.ofList port ++ " in " ++ String.ofList entry ++ ": " ++ e.message
  | .noPorts entry => "no ports in " ++ String.ofList entry

namespace Spokes

/-- `spoke_id.starts_with("app-")`. -/
def kindOf (spokeId : Text) : SpokeKind :=
  if ['a', 'p', 'p', '-'] <+: spokeId then .application else .cluster

def parsePort (entry port target : Text) : Except ConfigError SpokePortBinding :=
  match Rust.parseU16 port with
  | .ok n => .ok ⟨n, String.ofList target⟩
  | .error e => .error (.badPort port entry e)

def parseBinding (entry pb : Text) : Except ConfigError SpokePortBinding :=
  if '@' ∈ pb then
    if trim (after '@' pb) = [] then .error (.emptyTarget entry)
    else parsePort entry (before '@' pb) (trim (after '@' pb))
  else parsePort entry pb ['d', 'e', 'f', 'a', 'u', 'l', 't']

/-- The loop over the port bindings. -/
def parseBindings (entry : Text) : List Text → Except ConfigError (List SpokePortBinding)
  | [] => .ok []
  | pb :: rest =>
    if trim pb = [] then parseBindings entry rest
    else (parseBinding entry (trim pb)).bind fun b => (parseBindings entry rest).map (b :: ·)

def parseEntry (entry : Text) : Except ConfigError SpokeConfig :=
  match Rust.splitn ':' 3 entry with
  | [spokeId, portSpec, token] =>
    (parseBindings entry (portSpec.splitOn ';')).bind fun bindings =>
      if kindOf spokeId = .cluster ∧ bindings = [] then .error (.noPorts entry)
      else .ok ⟨String.ofList spokeId, kindOf spokeId, bindings, String.ofList token⟩
  | _ => .error (.badEntry entry)

/-- The loop over the entries. -/
def parseEntries (spokes : Spokes) : List Text → Except ConfigError Spokes
  | [] => .ok spokes
  | entry :: rest =>
    if trim entry = [] then parseEntries spokes rest
    else (parseEntry (trim entry)).bind fun sc => parseEntries (spokes.insert sc.spokeId sc) rest

def load (raw : String) : Except ConfigError Spokes :=
  let raw := trim raw.toList
  if raw = [] then .error .required else parseEntries ∅ (raw.splitOn ',')

/-! ## The documented format -/

/-- `port@target`, or the port alone where the target is left out. -/
def renderBinding (explicit : SpokePortBinding → Bool) (b : SpokePortBinding) : Text :=
  if b.target = "default" ∧ explicit b = false then Nat.toDigits 10 b.port
  else Nat.toDigits 10 b.port ++ '@' :: b.target.toList

def renderSpoke (explicit : SpokePortBinding → Bool) (sc : SpokeConfig) : Text :=
  sc.spokeId.toList ++ ':' ::
    ([';'].intercalate (sc.ports.map (renderBinding explicit)) ++ ':' :: sc.token.toList)

def render (explicit : SpokePortBinding → Bool) (spokes : List SpokeConfig) : String :=
  String.ofList ([','].intercalate (spokes.map (renderSpoke explicit)))

end Spokes

end OpenSpoke.Tunnel

/-!
## A sound registry of spokes

Every entry that is accepted is read as what it shows. The registry keeps one spoke
for each id, so it has all of them when the ids differ; that ids and tokens are not
empty and no port is bound twice is up to the text.
-/

namespace OpenSpoke.Tunnel.Spokes

open Rust (Text trim before after ReadsAs)

/-- The parts of a split that are not blank. -/
def nonBlank (parts : List Text) : List Text := (parts.map trim).filter (· ≠ [])

def entries (raw : String) : List Text := nonBlank ((trim raw.toList).splitOn ',')

inductive ShowsBinding : Text → SpokePortBinding → Prop
  | port {t : Text} {n : Nat} (hNone : '@' ∉ t) (hPort : ReadsAs t n) :
      ShowsBinding t ⟨n, "default"⟩
  | target {t target : Text} {n : Nat} (hNone : '@' ∉ t) (hPort : ReadsAs t n)
      (hTarget : trim target ≠ []) :
      ShowsBinding (t ++ '@' :: target) ⟨n, String.ofList (trim target)⟩

/-- The entry `spoke-id:port-spec:token` of the spoke. -/
def ShowsSpoke (entry : Text) (sc : SpokeConfig) : Prop :=
  ∃ portSpec, entry = sc.spokeId.toList ++ ':' :: (portSpec ++ ':' :: sc.token.toList) ∧
    ':' ∉ sc.spokeId.toList ∧ ':' ∉ portSpec ∧
    List.Forall₂ ShowsBinding (nonBlank (portSpec.splitOn ';')) sc.ports

structure Sound (spokes : List SpokeConfig) : Prop where
  ids : (spokes.map SpokeConfig.spokeId).Nodup
  named : ∀ sc ∈ spokes, sc.spokeId ≠ "" ∧ sc.token ≠ ""
  kinds : ∀ sc ∈ spokes, sc.kind = kindOf sc.spokeId.toList
  ports : ∀ sc ∈ spokes, sc.kind = .cluster → sc.ports ≠ []
  bindings : ∀ sc ∈ spokes, ∀ b ∈ sc.ports, b.port < 2 ^ 16 ∧ b.target ≠ ""
  once : (spokes.flatMap fun sc => sc.ports.map SpokePortBinding.port).Nodup

/-- The registry has these spokes, each under its id. -/
def Holds (registry : Spokes) (spokes : List SpokeConfig) : Prop :=
  ∀ id sc, registry.lookup id = some sc ↔ sc ∈ spokes ∧ sc.spokeId = id

/-- Every entry has a spoke of its own, and together they are sound. -/
def Represented (raw : String) (registry : Spokes) : Prop :=
  ∃ spokes, List.Forall₂ ShowsSpoke (entries raw) spokes ∧ Sound spokes ∧ Holds registry spokes

/-! ## The fields of an entry -/

def idOf (entry : Text) : Text := before ':' entry

def portSpecOf (entry : Text) : Text := before ':' (after ':' entry)

def tokenOf (entry : Text) : Text := after ':' (after ':' entry)

def portOf (pb : Text) : Nat := Nat.ofDigitChars 10 (Rust.unsigned (before '@' pb)) 0

def portsOf (entry : Text) : List Nat := (nonBlank ((portSpecOf entry).splitOn ';')).map portOf

/-- No id, token or port of the text is empty or there twice. -/
structure Distinct (raw : String) : Prop where
  ids : ((entries raw).map idOf).Nodup
  named : ∀ entry ∈ entries raw, idOf entry ≠ [] ∧ tokenOf entry ≠ []
  once : ((entries raw).flatMap portsOf).Nodup

/-- The names avoid the separators of their fields and blanks around them. -/
structure Clean (sc : SpokeConfig) : Prop where
  spokeId : ',' ∉ sc.spokeId.toList ∧ ':' ∉ sc.spokeId.toList ∧
    trim sc.spokeId.toList = sc.spokeId.toList
  token : ',' ∉ sc.token.toList ∧ trim sc.token.toList = sc.token.toList
  targets : ∀ b ∈ sc.ports, ',' ∉ b.target.toList ∧ ':' ∉ b.target.toList ∧
    ';' ∉ b.target.toList ∧ trim b.target.toList = b.target.toList

/-! ## What is read -/

theorem bind_eq_ok_iff {ε α β : Type} {x : Except ε α} {f : α → Except ε β} {b : β} :
    x.bind f = .ok b ↔ ∃ a, x = .ok a ∧ f a = .ok b := by
  cases x <;> simp [Except.bind]

theorem map_eq_ok_iff {ε α β : Type} {x : Except ε α} {f : α → β} {b : β} :
    x.map f = .ok b ↔ ∃ a, x = .ok a ∧ f a = b := by
  cases x <;> simp [Except.map]

theorem nonBlank_cons_of_blank {t : Text} {parts : List Text} (h : trim t = []) :
    nonBlank (t :: parts) = nonBlank parts := by
  simp [nonBlank, h]

theorem nonBlank_cons {t : Text} {parts : List Text} (h : trim t ≠ []) :
    nonBlank (t :: parts) = trim t :: nonBlank parts := by
  simp [nonBlank, h]

theorem parsePort_eq_ok_iff {entry port target : Text} {b : SpokePortBinding} :
    parsePort entry port target = .ok b ↔ ReadsAs port b.port ∧ b.target = String.ofList target := by
  rw [parsePort, ← Rust.parseU16_eq_ok_iff]
  cases hPort : Rust.parseU16 port with
  | error e => simp
  | ok n =>
    obtain ⟨m, t⟩ := b
    simp [eq_comm]

theorem parseBinding_eq_ok_iff {entry pb : Text} {b : SpokePortBinding} :
    parseBinding entry pb = .ok b ↔ ShowsBinding pb b := by
  rw [parseBinding]
  constructor
  · intro h
    obtain ⟨n, target⟩ := b
    split at h
    next hAt =>
      split at h
      next => cases h
      next hTarget =>
        obtain ⟨hPort, rfl⟩ := parsePort_eq_ok_iff.mp h
        have hShows := ShowsBinding.target Rust.mem_before hPort hTarget
        rwa [← Rust.before_after hAt] at hShows
    next hAt =>
      obtain ⟨hPort, rfl⟩ := parsePort_eq_ok_iff.mp h
      exact .port hAt hPort
  · rintro (⟨hNone, hPort⟩ | ⟨hNone, hPort, hTarget⟩)
    · rw [if_neg hNone]
      exact parsePort_eq_ok_iff.mpr ⟨hPort, rfl⟩
    · rw [if_pos (by simp), Rust.after_append hNone, Rust.before_append hNone, if_neg hTarget]
      exact parsePort_eq_ok_iff.mpr ⟨hPort, rfl⟩

theorem parseBindings_eq_ok_iff {entry : Text} {pbs : List Text} {bs : List SpokePortBinding} :
    parseBindings entry pbs = .ok bs ↔ List.Forall₂ ShowsBinding (nonBlank pbs) bs := by
  induction pbs generalizing bs with
  | nil => simp [parseBindings, nonBlank, eq_comm]
  | cons pb rest ih =>
    rw [parseBindings]
    split
    next hBlank => rw [nonBlank_cons_of_blank hBlank, ih]
    next hSome =>
      rw [nonBlank_cons hSome, bind_eq_ok_iff, List.forall₂_cons_left_iff]
      simp only [map_eq_ok_iff, parseBinding_eq_ok_iff, ih]
      constructor
      · rintro ⟨b, hFirst, bs', hRest, rfl⟩
        exact ⟨b, bs', hFirst, hRest, rfl⟩
      · rintro ⟨b, bs', hFirst, hRest, rfl⟩
        exact ⟨b, hFirst, bs', hRest, rfl⟩

theorem parseEntry_eq_ok_iff {entry : Text} {sc : SpokeConfig} :
    parseEntry entry = .ok sc ↔ ShowsSpoke entry sc ∧ sc.kind = kindOf sc.spokeId.toList ∧
      (sc.kind = .cluster → sc.ports ≠ []) := by
  obtain ⟨spokeId, kind, ports, token⟩ := sc
  constructor
  · intro h
    rw [parseEntry] at h
    split at h
    next id portSpec tok hSplit =>
      obtain ⟨rfl, hId, hSpec⟩ := Rust.splitn_three.mp hSplit
      obtain ⟨bindings, hBindings, h⟩ := bind_eq_ok_iff.mp h
      split at h
      next => cases h
      next hPorts =>
        cases h
        simp only [ShowsSpoke, String.toList_ofList]
        refine ⟨⟨portSpec, rfl, hId, hSpec, parseBindings_eq_ok_iff.mp hBindings⟩, trivial, ?_⟩
        exact fun hKind hNil => hPorts ⟨hKind, hNil⟩
    next => cases h
  · rintro ⟨⟨portSpec, rfl, hId, hSpec, hBindings⟩, hKind, hPorts⟩
    have hSplit := (Rust.splitn_three (d := token.toList)).mpr ⟨rfl, hId, hSpec⟩
    simp only at hKind hPorts hBindings
    rw [parseEntry, hSplit]
    simp only
    rw [parseBindings_eq_ok_iff.mpr hBindings]
    simp only [Except.bind]
    rw [if_neg (fun hNone => hPorts (hKind.trans hNone.1) hNone.2), String.ofList_toList,
      String.ofList_toList, ← hKind]

/-- The spokes are put into the registry one after the other. -/
def insertAll (registry : Spokes) (spokes : List SpokeConfig) : Spokes :=
  spokes.foldl (fun registry sc => registry.insert sc.spokeId sc) registry

theorem parseEntries_eq_ok_iff {registry registry' : Spokes} {parts : List Text} :
    parseEntries registry parts = .ok registry' ↔ ∃ spokes,
      List.Forall₂ (fun entry sc => parseEntry entry = .ok sc) (nonBlank parts) spokes ∧
      registry' = insertAll registry spokes := by
  induction parts generalizing registry with
  | nil =>
    constructor
    · intro h
      cases h
      exact ⟨[], .nil, rfl⟩
    · rintro ⟨spokes, hNil, rfl⟩
      cases hNil
      rfl
  | cons entry rest ih =>
    rw [parseEntries]
    split
    next hBlank => rw [nonBlank_cons_of_blank hBlank, ih]
    next hSome =>
      rw [nonBlank_cons hSome, bind_eq_ok_iff]
      constructor
      · rintro ⟨sc, hFirst, hRest⟩
        obtain ⟨spokes, hSpokes, rfl⟩ := ih.mp hRest
        exact ⟨sc :: spokes, .cons hFirst hSpokes, rfl⟩
      · rintro ⟨spokes, hSpokes, rfl⟩
        obtain ⟨sc, spokes', hFirst, hRest, rfl⟩ := List.forall₂_cons_left_iff.mp hSpokes
        exact ⟨sc, hFirst, ih.mpr ⟨spokes', hRest, rfl⟩⟩

theorem lookup_insertAll (registry : Spokes) (spokes : List SpokeConfig) (id : String) :
    (insertAll registry spokes).lookup id =
      (spokes.reverse.find? (·.spokeId = id)).or (registry.lookup id) := by
  induction spokes generalizing registry with
  | nil => rfl
  | cons sc spokes ih =>
    have hStep : insertAll registry (sc :: spokes) =
      insertAll (registry.insert sc.spokeId sc) spokes := rfl
    rw [hStep, ih, List.reverse_cons, List.find?_append, Option.or_assoc]
    congr 1
    by_cases hId : sc.spokeId = id
    · subst hId
      simp [AList.lookup_insert]
    · rw [AList.lookup_insert_ne (Ne.symm hId)]
      simp [hId]

theorem holds_insertAll {spokes : List SpokeConfig}
    (hIds : (spokes.map SpokeConfig.spokeId).Nodup) : Holds (insertAll ∅ spokes) spokes := by
  intro id sc
  have hEmpty : (∅ : Spokes).lookup id = none := AList.lookup_empty id
  rw [lookup_insertAll, hEmpty, Option.or_none]
  constructor
  · intro hFind
    have hId := List.find?_some hFind
    exact ⟨List.mem_reverse.mp (List.mem_of_find?_eq_some hFind), of_decide_eq_true hId⟩
  · rintro ⟨hMem, rfl⟩
    cases hFind : spokes.reverse.find? (·.spokeId = sc.spokeId) with
    | none =>
      have := List.find?_eq_none.mp hFind sc (List.mem_reverse.mpr hMem)
      simp at this
    | some sc' =>
      have hMem' := List.mem_reverse.mp (List.mem_of_find?_eq_some hFind)
      have hId := List.find?_some hFind
      rw [List.inj_on_of_nodup_map hIds hMem' hMem (of_decide_eq_true hId)]

theorem load_eq_ok_iff {raw : String} {registry : Spokes} :
    load raw = .ok registry ↔ trim raw.toList ≠ [] ∧ ∃ spokes,
      List.Forall₂ (fun entry sc => parseEntry entry = .ok sc) (entries raw) spokes ∧
      registry = insertAll ∅ spokes := by
  rw [load]
  split
  next hNil => simp [hNil]
  next hSome => rw [parseEntries_eq_ok_iff, entries, and_iff_right hSome]

/-! ## The fields that are shown -/

theorem portOf_of_shows {pb : Text} {b : SpokePortBinding} (h : ShowsBinding pb b) :
    portOf pb = b.port ∧ b.port < 2 ^ 16 ∧ b.target ≠ "" := by
  cases h with
  | port hNone hPort =>
    rw [portOf, Rust.before_of_not_mem hNone]
    exact ⟨hPort.2.2.2, hPort.1, by simp⟩
  | target hNone hPort hTarget =>
    rw [portOf, Rust.before_append hNone]
    exact ⟨hPort.2.2.2, hPort.1, fun hNil => hTarget (String.ofList_eq_empty_iff.mp hNil)⟩

theorem bindings_of_shows {pbs : List Text} {bs : List SpokePortBinding}
    (h : List.Forall₂ ShowsBinding pbs bs) : pbs.map portOf = bs.map SpokePortBinding.port ∧
      ∀ b ∈ bs, b.port < 2 ^ 16 ∧ b.target ≠ "" := by
  induction h with
  | nil => exact ⟨rfl, by simp⟩
  | cons hFirst _ ih =>
    obtain ⟨hPort, hRange⟩ := portOf_of_shows hFirst
    rw [List.map_cons, List.map_cons, hPort, ih.1]
    exact ⟨rfl, List.forall_mem_cons.mpr ⟨hRange, ih.2⟩⟩

theorem fields_of_shows {entry : Text} {sc : SpokeConfig} (h : ShowsSpoke entry sc) :
    idOf entry = sc.spokeId.toList ∧ tokenOf entry = sc.token.toList ∧
      portsOf entry = sc.ports.map SpokePortBinding.port := by
  obtain ⟨portSpec, rfl, hId, hSpec, hBindings⟩ := h
  have hAfter := Rust.after_append hId (portSpec ++ ':' :: sc.token.toList)
  refine ⟨Rust.before_append hId _, ?_, ?_⟩
  · rw [tokenOf, hAfter, Rust.after_append hSpec]
  · rw [portsOf, portSpecOf, hAfter, Rust.before_append hSpec]
    exact (bindings_of_shows hBindings).1

theorem map_fields {texts : List Text} {spokes : List SpokeConfig}
    (h : List.Forall₂ ShowsSpoke texts spokes) :
    texts.map idOf = (spokes.map SpokeConfig.spokeId).map String.toList ∧
      texts.flatMap portsOf = spokes.flatMap fun sc => sc.ports.map SpokePortBinding.port := by
  induction h with
  | nil => exact ⟨rfl, rfl⟩
  | cons hFirst _ ih =>
    obtain ⟨hId, -, hPorts⟩ := fields_of_shows hFirst
    refine ⟨?_, ?_⟩
    · rw [List.map_cons, hId, ih.1]
      rfl
    · rw [List.flatMap_cons, hPorts, ih.2, List.flatMap_cons]

theorem ids_nodup_iff {texts : List Text} {spokes : List SpokeConfig}
    (h : List.Forall₂ ShowsSpoke texts spokes) :
    (texts.map idOf).Nodup ↔ (spokes.map SpokeConfig.spokeId).Nodup := by
  rw [(map_fields h).1]
  exact List.nodup_map_iff fun _ _ => String.toList_injective

theorem named_iff {texts : List Text} {spokes : List SpokeConfig}
    (h : List.Forall₂ ShowsSpoke texts spokes) :
    (∀ entry ∈ texts, idOf entry ≠ [] ∧ tokenOf entry ≠ []) ↔
      ∀ sc ∈ spokes, sc.spokeId ≠ "" ∧ sc.token ≠ "" := by
  induction h with
  | nil => simp
  | cons hFirst _ ih =>
    obtain ⟨hId, hToken, -⟩ := fields_of_shows hFirst
    rw [List.forall_mem_cons, List.forall_mem_cons, ih, hId, hToken, Ne, Ne,
      String.toList_eq_nil_iff, String.toList_eq_nil_iff]

/-- What is read is what the entries show, with the kind of each and its ports. -/
theorem parsed {texts : List Text} {spokes : List SpokeConfig}
    (h : List.Forall₂ (fun entry sc => parseEntry entry = .ok sc) texts spokes) :
    List.Forall₂ ShowsSpoke texts spokes ∧ ∀ sc ∈ spokes, sc.kind = kindOf sc.spokeId.toList ∧
      (sc.kind = .cluster → sc.ports ≠ []) ∧ ∀ b ∈ sc.ports, b.port < 2 ^ 16 ∧ b.target ≠ "" := by
  induction h with
  | nil => exact ⟨.nil, by simp⟩
  | cons hFirst _ ih =>
    obtain ⟨hShows, hKind, hPorts⟩ := parseEntry_eq_ok_iff.mp hFirst
    refine ⟨.cons hShows ih.1, List.forall_mem_cons.mpr ⟨⟨hKind, hPorts, ?_⟩, ih.2⟩⟩
    obtain ⟨portSpec, -, -, -, hBindings⟩ := hShows
    exact (bindings_of_shows hBindings).2

theorem represented_iff {raw : String} {registry : Spokes} (h : load raw = .ok registry) :
    Represented raw registry ↔ Distinct raw := by
  constructor
  · rintro ⟨spokes, hShows, hSound, -⟩
    refine ⟨(ids_nodup_iff hShows).mpr hSound.ids, (named_iff hShows).mpr hSound.named, ?_⟩
    rw [(map_fields hShows).2]
    exact hSound.once
  · intro hDistinct
    obtain ⟨-, spokes, hParsed, rfl⟩ := load_eq_ok_iff.mp h
    obtain ⟨hShows, hAll⟩ := parsed hParsed
    have hIds := (ids_nodup_iff hShows).mp hDistinct.ids
    refine ⟨spokes, hShows, ⟨hIds, (named_iff hShows).mp hDistinct.named,
      fun sc hsc => (hAll sc hsc).1, fun sc hsc => (hAll sc hsc).2.1,
      fun sc hsc => (hAll sc hsc).2.2, ?_⟩, holds_insertAll hIds⟩
    rw [← (map_fields hShows).2]
    exact hDistinct.once

/-! ## The round trip -/

theorem nonBlank_eq_self {parts : List Text} (h : ∀ t ∈ parts, trim t = t ∧ t ≠ []) :
    nonBlank parts = parts := by
  induction parts with
  | nil => rfl
  | cons t parts ih =>
    obtain ⟨⟨hTrim, hNe⟩, hRest⟩ := List.forall_mem_cons.mp h
    rw [nonBlank_cons (hTrim.symm ▸ hNe), hTrim, ih hRest]

theorem mem_intercalate {c x : Char} {parts : List Text} (h : c ∈ [x].intercalate parts) :
    c = x ∨ ∃ t ∈ parts, c ∈ t := by
  induction parts with
  | nil => simp at h
  | cons t parts ih =>
    cases parts with
    | nil => exact .inr ⟨t, by simp, by simpa using h⟩
    | cons t' parts =>
      rw [List.intercalate_cons_cons, List.append_assoc, List.mem_append, List.mem_append,
        List.mem_singleton] at h
      obtain h | rfl | h := h
      · exact .inr ⟨t, List.mem_cons_self, h⟩
      · exact .inl rfl
      · exact (ih h).imp_right fun ⟨u, hu, hc⟩ => ⟨u, List.mem_cons_of_mem _ hu, hc⟩

theorem trim_append {t u : Text} (ht : t ≠ []) (hu : u ≠ []) (hTrim : trim t = t)
    (hTrim' : trim u = u) (v : Text) : trim (t ++ (v ++ u)) = t ++ (v ++ u) := by
  refine Rust.trim_eq_self_iff.mpr ⟨fun c hc => ?_, fun c hc => ?_⟩
  · rw [List.head?_append_of_ne_nil _ ht] at hc
    exact (Rust.trim_eq_self_iff.mp hTrim).1 c hc
  · rw [List.getLast?_append_of_ne_nil _ (by simp [hu]), List.getLast?_append_of_ne_nil _ hu] at hc
    exact (Rust.trim_eq_self_iff.mp hTrim').2 c hc

theorem trim_intercalate {x : Char} {parts : List Text} (h : ∀ t ∈ parts, trim t = t ∧ t ≠ []) :
    trim ([x].intercalate parts) = [x].intercalate parts ∧
      (parts ≠ [] → [x].intercalate parts ≠ []) := by
  induction parts with
  | nil => exact ⟨rfl, fun hNe => absurd rfl hNe⟩
  | cons t parts ih =>
    obtain ⟨⟨hTrim, hNe⟩, hRest⟩ := List.forall_mem_cons.mp h
    cases parts with
    | nil => simpa using ⟨hTrim, hNe⟩
    | cons t' parts =>
      obtain ⟨hLater, hSome⟩ := ih hRest
      rw [List.intercalate_cons_cons, List.append_assoc]
      exact ⟨trim_append hNe (hSome (by simp)) hTrim hLater [x], by simp [hNe]⟩

section Render

variable {explicit : SpokePortBinding → Bool}

theorem trim_toDigits (n : Nat) : trim (Nat.toDigits 10 n) = Nat.toDigits 10 n := by
  refine Python.stripIf_of_not fun c hc => ?_
  have hDigit := Python.digit_bounds (Python.toDigits_isDigit hc)
  simp only [Rust.isWhitespace, Bool.or_eq_false_iff, Bool.and_eq_false_iff,
    decide_eq_false_iff_not]
  omega

theorem toDigits_not_mem {c : Char} (h : c.isDigit = false) (n : Nat) : c ∉ Nat.toDigits 10 n := by
  intro hMem
  rw [Python.toDigits_isDigit hMem] at h
  cases h

theorem renderBinding_shows {b : SpokePortBinding} (hPort : b.port < 2 ^ 16) (hTarget : b.target ≠ "")
    (hTrim : trim b.target.toList = b.target.toList) : ShowsBinding (renderBinding explicit b) b ∧
      trim (renderBinding explicit b) = renderBinding explicit b ∧
      renderBinding explicit b ≠ [] := by
  have hNone := toDigits_not_mem (c := '@') rfl b.port
  have hReads := Rust.readsAs_toDigits hPort
  rw [renderBinding]
  split
  next hOmitted =>
    refine ⟨?_, trim_toDigits _, Nat.toDigits_ne_nil⟩
    have hShows := ShowsBinding.port hNone hReads
    rwa [← hOmitted.1] at hShows
  next =>
    have hNe : b.target.toList ≠ [] := mt String.toList_eq_nil_iff.mp hTarget
    refine ⟨?_, trim_append Nat.toDigits_ne_nil hNe (trim_toDigits _) hTrim ['@'], by simp⟩
    have hShows := ShowsBinding.target hNone hReads (hTrim.symm ▸ hNe)
    rwa [hTrim, String.ofList_toList] at hShows

theorem not_mem_renderBinding {c : Char} {b : SpokePortBinding} (hDigit : c.isDigit = false)
    (hAt : c ≠ '@') (hTarget : c ∉ b.target.toList) : c ∉ renderBinding explicit b := by
  rw [renderBinding]
  split
  next => exact toDigits_not_mem hDigit _
  next =>
    rw [List.mem_append, List.mem_cons, not_or, not_or]
    exact ⟨toDigits_not_mem hDigit _, hAt, hTarget⟩

theorem renderSpoke_shows {sc : SpokeConfig} (hNamed : sc.spokeId ≠ "" ∧ sc.token ≠ "")
    (hBindings : ∀ b ∈ sc.ports, b.port < 2 ^ 16 ∧ b.target ≠ "") (hClean : Clean sc) :
    ShowsSpoke (renderSpoke explicit sc) sc ∧
      trim (renderSpoke explicit sc) = renderSpoke explicit sc ∧ renderSpoke explicit sc ≠ [] ∧
      ',' ∉ renderSpoke explicit sc := by
  have hEach : ∀ pb ∈ sc.ports.map (renderBinding explicit), trim pb = pb ∧ pb ≠ [] := by
    intro pb hpb
    obtain ⟨b, hb, rfl⟩ := List.mem_map.mp hpb
    exact (renderBinding_shows (hBindings b hb).1 (hBindings b hb).2 (hClean.targets b hb).2.2.2).2
  have hParts : nonBlank (([';'].intercalate (sc.ports.map (renderBinding explicit))).splitOn ';') =
      sc.ports.map (renderBinding explicit) := by
    cases hPorts : sc.ports with
    | nil => rfl
    | cons b bs =>
      rw [← hPorts, List.splitOn_intercalate, nonBlank_eq_self hEach]
      · intro pb hpb
        obtain ⟨b, hb, rfl⟩ := List.mem_map.mp hpb
        exact not_mem_renderBinding rfl (by decide) (hClean.targets b hb).2.2.1
      · simp [hPorts]
  have hFree : ∀ c : Char, c.isDigit = false → c ≠ '@' → c ≠ ';' →
      (∀ b ∈ sc.ports, c ∉ b.target.toList) →
      c ∉ [';'].intercalate (sc.ports.map (renderBinding explicit)) := by
    intro c hDigit hAt hSemi hTargets hMem
    obtain hEq | ⟨pb, hpb, hc⟩ := mem_intercalate hMem
    · exact hSemi hEq
    · obtain ⟨b, hb, rfl⟩ := List.mem_map.mp hpb
      exact not_mem_renderBinding hDigit hAt (hTargets b hb) hc
  have hId : sc.spokeId.toList ≠ [] := mt String.toList_eq_nil_iff.mp hNamed.1
  have hToken : sc.token.toList ≠ [] := mt String.toList_eq_nil_iff.mp hNamed.2
  refine ⟨⟨_, rfl, hClean.spokeId.2.1, ?_, ?_⟩, ?_, by simp [renderSpoke, hId], ?_⟩
  · exact hFree ':' rfl (by decide) (by decide) fun b hb => (hClean.targets b hb).2.1
  · rw [hParts, List.forall₂_map_left_iff, List.forall₂_same]
    exact fun b hb => (renderBinding_shows (hBindings b hb).1 (hBindings b hb).2
      (hClean.targets b hb).2.2.2).1
  · have hTrim := trim_append hId hToken hClean.spokeId.2.2 hClean.token.2
      (':' :: ([';'].intercalate (sc.ports.map (renderBinding explicit)) ++ [':']))
    simpa [renderSpoke] using hTrim
  · have hSpec := hFree ',' rfl (by decide) (by decide) fun b hb => (hClean.targets b hb).1
    simp only [renderSpoke, List.mem_append, List.mem_cons, not_or]
    exact ⟨hClean.spokeId.1, by decide, hSpec, by decide, hClean.token.1⟩

/-- A sound registry with clean names is read back, unless it is empty. -/
theorem load_render_iff {spokes : List SpokeConfig} (hSound : Sound spokes)
    (hClean : ∀ sc ∈ spokes, Clean sc) :
    (∃ registry, load (render explicit spokes) = .ok registry ∧ Holds registry spokes) ↔
      spokes ≠ [] := by
  constructor
  · rintro ⟨registry, hLoad, -⟩ rfl
    cases hLoad
  · intro hNe
    have hEach := fun (sc : SpokeConfig) (hsc : sc ∈ spokes) => @renderSpoke_shows explicit sc
      (hSound.named sc hsc) (hSound.bindings sc hsc) (hClean sc hsc)
    have hTexts : ∀ t ∈ spokes.map (renderSpoke explicit), trim t = t ∧ t ≠ [] := by
      intro t ht
      obtain ⟨sc, hsc, rfl⟩ := List.mem_map.mp ht
      exact ⟨(hEach sc hsc).2.1, (hEach sc hsc).2.2.1⟩
    obtain ⟨hTrim, hSome⟩ := trim_intercalate (x := ',') hTexts
    have hMapNe : spokes.map (renderSpoke explicit) ≠ [] := mt List.map_eq_nil_iff.mp hNe
    have hEntries : entries (render explicit spokes) = spokes.map (renderSpoke explicit) := by
      rw [entries, render, String.toList_ofList, hTrim, List.splitOn_intercalate,
        nonBlank_eq_self hTexts]
      · intro t ht
        obtain ⟨sc, hsc, rfl⟩ := List.mem_map.mp ht
        exact (hEach sc hsc).2.2.2
      · exact hMapNe
    refine ⟨insertAll ∅ spokes, load_eq_ok_iff.mpr ⟨?_, spokes, ?_, rfl⟩,
      holds_insertAll hSound.ids⟩
    · rw [render, String.toList_ofList, hTrim]
      exact hSome hMapNe
    · rw [hEntries, List.forall₂_map_left_iff, List.forall₂_same]
      exact fun sc hsc => parseEntry_eq_ok_iff.mpr
        ⟨(hEach sc hsc).1, hSound.kinds sc hsc, hSound.ports sc hsc⟩

end Render

/-- An accepted text has its spokes in the registry when, and only when, no id, token or port of it
is empty or there twice; and a sound registry is read back. -/
theorem registry_iff (raw : String) (explicit : SpokePortBinding → Bool) (spokes : List SpokeConfig) :
    (∀ registry, load raw = .ok registry → (Represented raw registry ↔ Distinct raw)) ∧
      (Sound spokes → (∀ sc ∈ spokes, Clean sc) →
        ((∃ registry, load (render explicit spokes) = .ok registry ∧ Holds registry spokes) ↔
          spokes ≠ [])) :=
  ⟨fun _ hLoad => represented_iff hLoad, fun hSound hClean => load_render_iff hSound hClean⟩

/-- `a:1@x:t`. -/
theorem spoke_read_back : ∃ registry,
    load (render (fun _ => true)
      [⟨String.ofList ['a'], .cluster, [⟨1, String.ofList ['x']⟩], String.ofList ['t']⟩]) =
      .ok registry ∧
    Holds registry
      [⟨String.ofList ['a'], .cluster, [⟨1, String.ofList ['x']⟩], String.ofList ['t']⟩] := by
  refine ((registry_iff "" _ _).2 ⟨by simp, ?_, ?_, by simp, ?_, by simp⟩ ?_).mpr (by simp)
  · simp
  · simp only [List.mem_singleton, forall_eq, String.toList_ofList]
    rfl
  · simp
  · simp only [List.mem_singleton, forall_eq]
    refine ⟨?_, ?_, ?_⟩
    · rw [String.toList_ofList]
      decide
    · rw [String.toList_ofList]
      decide
    · simp only [List.mem_singleton, forall_eq, String.toList_ofList]
      decide

/-- The second entry of an id takes the place of the first one: `a:1@x:t,a:2@x:u`. -/
theorem entry_written_over : ¬∀ raw registry, load raw = .ok registry → Represented raw registry := by
  intro hAll
  have hLoad : load (String.ofList
        ['a', ':', '1', '@', 'x', ':', 't', ',', 'a', ':', '2', '@', 'x', ':', 'u']) = .ok
      (insertAll ∅ [⟨String.ofList ['a'], .cluster, [⟨1, String.ofList ['x']⟩], String.ofList ['t']⟩,
        ⟨String.ofList ['a'], .cluster, [⟨2, String.ofList ['x']⟩], String.ofList ['u']⟩]) := by
    refine load_eq_ok_iff.mpr ⟨?_, _, ?_, rfl⟩
    · rw [String.toList_ofList]
      decide
    · rw [entries, String.toList_ofList]
      exact .cons rfl (.cons rfl .nil)
  obtain ⟨spokes, hShows, hSound, -⟩ := hAll _ _ hLoad
  have hIds := (ids_nodup_iff hShows).mpr hSound.ids
  rw [entries, String.toList_ofList] at hIds
  exact absurd hIds (by decide)

end OpenSpoke.Tunnel.Spokes
