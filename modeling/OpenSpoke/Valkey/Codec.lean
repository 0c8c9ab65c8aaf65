import OpenSpoke.Valkey.Pairing

/-!
# The codec

`_read_reply` on its own: what it takes from the bytes that follow, over all replies.
An error in an array ends the reading, whatever is left of the array. `_encode` writes
an array of bulk strings.
-/

namespace OpenSpoke.Valkey

open Python (Text)

structure Reader where
  -- whether bytes are UTF-8
  decodes : Text → Bool
  -- the limit of the stream for a line, if it has one
  limit : Option Nat

inductive ReadEnd
  | value (v : Value)
  -- an error of the server
  | error (t : Text)
  -- another ValkeyError
  | invalid
  -- any other exception
  | raises

def Reader.fits (rd : Reader) (line : Text) : Bool := rd.limit.all fun n => line.length ≤ n + 1

def readAll (read : Text → Option (ReadEnd × Text)) :
    Nat → Text → List Value → Option (ReadEnd × Text)
  | 0, input, values => some (.value (.list values), input)
  | n + 1, input, values =>
    match read input with
    | some (.value v, rest) => readAll read n rest (values ++ [v])
    | other => other

/-- How the reading ends and what it leaves; none if it waits or the array is too deep. -/
def readReply (rd : Reader) : Nat → Text → Option (ReadEnd × Text)
  | 0, _ => none
  | depth + 1, input =>
    match readline input false with
    | none => none
    | some (line, rest) =>
      if rd.fits line then
        match parseLine rd.decodes line with
        | .value v => some (.value v, rest)
        | .error t => some (.error t, rest)
        | .invalid => some (.invalid, rest)
        | .raises => some (.raises, rest)
        | .push size => readAll (readReply rd depth) size rest []
        | .bulk size =>
          if size ≤ rest.length then
            some (.value (.bytes (rest.take (size - 2))), rest.drop size)
          else none
      else some (.raises, rest)

theorem readline_header (r : Reply) (rest : Text) :
    readline (r.header ++ rest) false = some (r.header, rest) := by
  have hMem : '\n' ∈ r.header ++ rest := by simp [Reply.header, crlf]
  have hEq : (r.header ++ rest) ++ [] = (r.tag :: r.body) ++ crlf ++ rest := by
    rw [List.append_nil, Reply.header]
  obtain ⟨buffer, hRead, hRest⟩ := @readline_of_mem _ _ _ _ false hMem hEq r.newline_not_mem
  rw [List.append_nil] at hRest
  rw [hRead, hRest]
  rfl

theorem readline_encode (r : Reply) (rest : Text) :
    readline (r.encode ++ rest) false = some (r.header, r.payload ++ rest) := by
  rw [encode_eq_header, List.append_assoc]
  exact readline_header r (r.payload ++ rest)

/-! ## What is read of a reply -/

mutual

def Reply.depth : Reply → Nat
  | .array elems => depthAll elems + 1
  | _ => 1

def depthAll : List Reply → Nat
  | [] => 0
  | r :: rs => max r.depth (depthAll rs)

end

/-- A line that is too long is not read. -/
def Reader.onLine (rd : Reader) (r : Reply) (e : ReadEnd × Text) : ReadEnd × Text :=
  if rd.fits r.header then e else (.raises, r.payload)

mutual

/-- How the reading of a reply ends, and what it leaves of the reply. -/
def Reply.read (rd : Reader) : Reply → ReadEnd × Text
  | .simple t => rd.onLine (.simple t) (if rd.decodes t.val then .value (.text t.val) else .raises, [])
  | .error t => rd.onLine (.error t) (if rd.decodes t.val then .error t.val else .raises, [])
  | .int i => rd.onLine (.int i) (.value (.int i.val), [])
  | .bulk none => rd.onLine (.bulk none) (.value .none, [])
  | .bulk (some data) => rd.onLine (.bulk (some data)) (.value (.bytes data), [])
  | .nilArray => rd.onLine .nilArray (.value .none, [])
  | .array elems => rd.onLine (.array elems) (elemsRead rd elems [])

def elemsRead (rd : Reader) : List Reply → List Value → ReadEnd × Text
  | [], values => (.value (.list values), [])
  | r :: rs, values =>
    match r.read rd with
    | (.value v, _) => elemsRead rd rs (values ++ [v])
    | (e, left) => (e, left ++ encodeAll rs)

end

mutual

def Reply.hasError : Reply → Bool
  | .error _ => true
  | .array elems => anyError elems
  | _ => false

def anyError : List Reply → Bool
  | [] => false
  | r :: rs => r.hasError || anyError rs

end

mutual

def Reply.legible (rd : Reader) : Reply → Bool
  | .simple t => rd.fits (Reply.header (.simple t)) && rd.decodes t.val
  | .error t => rd.fits (Reply.header (.error t)) && rd.decodes t.val
  | .array elems => rd.fits (Reply.header (.array elems)) && allLegible rd elems
  | .int i => rd.fits (Reply.header (.int i))
  | .bulk data => rd.fits (Reply.header (.bulk data))
  | .nilArray => rd.fits (Reply.header .nilArray)

def allLegible (rd : Reader) : List Reply → Bool
  | [] => true
  | r :: rs => r.legible rd && allLegible rd rs

end

mutual

/-- Nothing comes after an error. -/
def Reply.errorLast : Reply → Bool
  | .array elems => allErrorLast elems
  | _ => true

def allErrorLast : List Reply → Bool
  | [] => true
  | r :: rs => r.errorLast && (rs.isEmpty || !r.hasError) && allErrorLast rs

end

/-- An end of the reading beside the result of what is read. -/
def Ends (e : ReadEnd × Text) (result : Except Text Value) (hasError fine : Bool) : Prop :=
  match e with
  | (.value v, left) => left = [] ∧ result = .ok v ∧ hasError = false ∧ fine = true
  | (.error t, left) => result = .error t ∧ hasError = true ∧ (left = [] ↔ fine = true)
  | (.raises, _) => fine = false
  | (.invalid, _) => False

theorem encode_ne_nil (r : Reply) : r.encode ≠ [] := by
  rw [r.encode_eq]
  simp

theorem encodeAll_eq_nil {rs : List Reply} : encodeAll rs = [] ↔ rs.isEmpty = true := by
  cases rs with
  | nil => simp [encodeAll]
  | cons r rs => simp [encodeAll, encode_ne_nil]

theorem Ends.onLine {rd : Reader} {r : Reply} {e : ReadEnd × Text} {result : Except Text Value}
    {hasError fine : Bool} (h : Ends e result hasError fine) :
    Ends (rd.onLine r e) result hasError (rd.fits r.header && fine) := by
  unfold Reader.onLine
  cases rd.fits r.header with
  | true => simpa using h
  | false => simp [Ends]

mutual

theorem Reply.read_ends (rd : Reader) :
    ∀ r : Reply, Ends (r.read rd) r.result r.hasError (r.legible rd && r.errorLast)
  | .simple t => by
    rw [Reply.read, Reply.legible, Bool.and_assoc]
    apply Ends.onLine
    cases hDecodes : rd.decodes t.val <;> simp [Ends, Reply.result, Reply.hasError, Reply.errorLast]
  | .error t => by
    rw [Reply.read, Reply.legible, Bool.and_assoc]
    apply Ends.onLine
    cases hDecodes : rd.decodes t.val <;> simp [Ends, Reply.result, Reply.hasError, Reply.errorLast]
  | .int i => by
    rw [Reply.read, Reply.legible]
    apply Ends.onLine
    simp [Ends, Reply.result, Reply.hasError, Reply.errorLast]
  | .bulk none => by
    rw [Reply.read, Reply.legible]
    apply Ends.onLine
    simp [Ends, Reply.result, Reply.hasError, Reply.errorLast]
  | .bulk (some data) => by
    rw [Reply.read, Reply.legible]
    apply Ends.onLine
    simp [Ends, Reply.result, Reply.hasError, Reply.errorLast]
  | .nilArray => by
    rw [Reply.read, Reply.legible]
    apply Ends.onLine
    simp [Ends, Reply.result, Reply.hasError, Reply.errorLast]
  | .array elems => by
    rw [Reply.read, Reply.legible, Bool.and_assoc, Reply.result, Reply.hasError, Reply.errorLast]
    apply Ends.onLine
    exact elemsRead_ends rd elems []

theorem elemsRead_ends (rd : Reader) : ∀ (rs : List Reply) (values : List Value),
    Ends (elemsRead rd rs values) ((resultAll rs).map fun vs => .list (values ++ vs)) (anyError rs)
      (allLegible rd rs && allErrorLast rs)
  | [], values => by
    simp [elemsRead, Ends, resultAll, anyError, allLegible, allErrorLast, Except.map]
  | r :: rs, values => by
    have hHead := Reply.read_ends rd r
    rw [elemsRead, resultAll, anyError, allLegible, allErrorLast]
    split
    next v left hRead =>
      rw [hRead] at hHead
      obtain ⟨-, hResult, hError, hFine⟩ := hHead
      have hTail := elemsRead_ends rd rs (values ++ [v])
      rw [Bool.and_eq_true] at hFine
      have hMap : (((Except.ok v : Except Text Value).bind fun v => (resultAll rs).map (v :: ·)).map
          fun vs => Value.list (values ++ vs)) =
          (resultAll rs).map fun vs => Value.list (values ++ [v] ++ vs) := by
        cases resultAll rs <;> simp [Except.bind, Except.map]
      rw [hResult, hError, hFine.1, hFine.2, hMap]
      simpa using hTail
    next e left hNot hRead =>
      rw [hRead] at hHead
      cases e with
      | value v => exact absurd rfl (hNot v)
      | error t =>
        obtain ⟨hResult, hError, hLeft⟩ := hHead
        rw [hResult, hError]
        refine ⟨rfl, rfl, ?_⟩
        rw [List.append_eq_nil_iff, hLeft, encodeAll_eq_nil]
        cases rs <;> simp [allLegible, allErrorLast]
      | invalid => exact hHead.elim
      | raises =>
        change _ = false at hHead ⊢
        rcases Bool.and_eq_false_iff.mp hHead with hLegible | hLast
        · rw [hLegible, Bool.false_and, Bool.false_and]
        · rw [hLast, Bool.false_and, Bool.false_and, Bool.and_false]

end

/-! ## Reading a reply -/

theorem Reply.read_left {rd : Reader} {r : Reply} {v : Value} (h : (r.read rd).1 = .value v) :
    (r.read rd).2 = [] := by
  have hEnds := r.read_ends rd
  generalize r.read rd = e at h hEnds
  obtain ⟨e, left⟩ := e
  subst h
  exact hEnds.1

theorem readReply_line (rd : Reader) (r : Reply) (depth : Nat) (rest : Text) :
    readReply rd (depth + 1) (r.encode ++ rest) =
      if rd.fits r.header then
        match r.parsed rd.decodes with
        | .value v => some (.value v, r.payload ++ rest)
        | .error t => some (.error t, r.payload ++ rest)
        | .invalid => some (.invalid, r.payload ++ rest)
        | .raises => some (.raises, r.payload ++ rest)
        | .push size => readAll (readReply rd depth) size (r.payload ++ rest) []
        | .bulk size =>
          if size ≤ (r.payload ++ rest).length then
            some (.value (.bytes ((r.payload ++ rest).take (size - 2))),
              (r.payload ++ rest).drop size)
          else none
      else some (.raises, r.payload ++ rest) := by
  rw [readReply, readline_encode]
  dsimp only
  rw [parseLine_header]

theorem readReply_short {rd : Reader} {r : Reply} {e : ReadEnd} (depth : Nat) (rest : Text)
    (hPayload : r.payload = []) (hRead : r.read rd = rd.onLine r (e, []))
    (hParsed : (∃ v, r.parsed rd.decodes = .value v ∧ e = .value v) ∨
      (∃ t, r.parsed rd.decodes = .error t ∧ e = .error t) ∨
      (r.parsed rd.decodes = .raises ∧ e = .raises)) :
    readReply rd (depth + 1) (r.encode ++ rest) = some ((r.read rd).1, (r.read rd).2 ++ rest) := by
  rw [readReply_line, hRead, Reader.onLine, hPayload]
  cases rd.fits r.header with
  | false => rfl
  | true =>
    obtain ⟨v, hv, rfl⟩ | ⟨t, ht, rfl⟩ | ⟨hRaises, rfl⟩ := hParsed
    · simp [hv]
    · simp [ht]
    · simp [hRaises]

mutual

theorem readReply_encode (rd : Reader) : ∀ (r : Reply) (depth : Nat) (rest : Text), r.depth ≤ depth →
    readReply rd depth (r.encode ++ rest) = some ((r.read rd).1, (r.read rd).2 ++ rest)
  | r, 0, rest, hDepth => by
    cases r <;> simp [Reply.depth] at hDepth
  | .simple t, depth + 1, rest, _ => by
    apply readReply_short depth rest rfl (by rw [Reply.read])
    cases hDecodes : rd.decodes t.val <;> simp [Reply.parsed, hDecodes]
  | .error t, depth + 1, rest, _ => by
    apply readReply_short depth rest rfl (by rw [Reply.read])
    cases hDecodes : rd.decodes t.val <;> simp [Reply.parsed, hDecodes]
  | .int i, depth + 1, rest, _ => by
    apply readReply_short depth rest rfl (by rw [Reply.read])
    simp [Reply.parsed]
  | .bulk none, depth + 1, rest, _ => by
    apply readReply_short depth rest rfl (by rw [Reply.read])
    simp [Reply.parsed]
  | .nilArray, depth + 1, rest, _ => by
    apply readReply_short depth rest rfl (by rw [Reply.read])
    simp [Reply.parsed]
  | .bulk (some data), depth + 1, rest, _ => by
    rw [readReply_line, Reply.read, Reader.onLine]
    cases rd.fits (Reply.header (.bulk (some data))) with
    | false => rfl
    | true =>
      have hLen : data.length + 2 ≤ (data ++ crlf ++ rest).length := by simp [crlf]
      have hTake : (data ++ crlf ++ rest).take data.length = data := by
        rw [List.append_assoc, List.take_left]
      have hDrop : (data ++ crlf ++ rest).drop (data.length + 2) = rest :=
        List.drop_left' (by simp [crlf])
      simp only [Reply.parsed, Reply.payload, if_true, hLen, Nat.add_sub_cancel, hTake, hDrop]
      rfl
  | .array elems, depth + 1, rest, hDepth => by
    rw [Reply.depth, Nat.add_le_add_iff_right] at hDepth
    have hElems := readAll_encode rd elems depth rest [] hDepth
    rw [readReply_line, Reply.read, Reader.onLine]
    cases rd.fits (Reply.header (.array elems)) with
    | false => rfl
    | true =>
      cases elems with
      | nil => rfl
      | cons r rs => exact hElems

theorem readAll_encode (rd : Reader) : ∀ (rs : List Reply) (depth : Nat) (rest : Text)
    (values : List Value), depthAll rs ≤ depth →
    readAll (readReply rd depth) rs.length (encodeAll rs ++ rest) values =
      some ((elemsRead rd rs values).1, (elemsRead rd rs values).2 ++ rest)
  | [], depth, rest, values, hDepth => by
    simp [readAll, elemsRead, encodeAll]
  | r :: rs, depth, rest, values, hDepth => by
    rw [depthAll, Nat.max_le] at hDepth
    have hHead := readReply_encode rd r depth (encodeAll rs ++ rest) hDepth.1
    rw [List.length_cons, readAll, encodeAll, List.append_assoc, hHead, elemsRead]
    have hLeft := @Reply.read_left rd r
    generalize r.read rd = e at hLeft
    obtain ⟨e, left⟩ := e
    cases e with
    | value v =>
      obtain rfl : left = [] := hLeft rfl
      exact readAll_encode rd rs depth rest (values ++ [v]) hDepth.2
    | error t => simp
    | invalid => simp
    | raises => simp

end

/-- What the reply says: its value or the first error in it. -/
def Reply.own (r : Reply) : ReadEnd :=
  match r.result with
  | .ok v => .value v
  | .error t => .error t

/-- Exactly the bytes of the reply are taken, whatever follows. -/
def Reply.Consumed (rd : Reader) (r : Reply) : Prop :=
  ∀ (rest : Text) (depth : Nat), r.depth ≤ depth →
    readReply rd depth (r.encode ++ rest) = some (r.own, rest)

theorem Reply.read_eq_iff (rd : Reader) (r : Reply) :
    r.read rd = (r.own, []) ↔ r.legible rd = true ∧ r.errorLast = true := by
  have hEnds := r.read_ends rd
  rw [← Bool.and_eq_true]
  unfold Reply.own
  generalize r.read rd = e at hEnds ⊢
  obtain ⟨e, left⟩ := e
  cases e with
  | value v =>
    obtain ⟨rfl, hResult, -, hFine⟩ := hEnds
    simp [hResult, hFine]
  | error t =>
    obtain ⟨hResult, -, hLeft⟩ := hEnds
    simp [hResult, hLeft]
  | invalid => exact hEnds.elim
  | raises =>
    rw [show (r.legible rd && r.errorLast) = false from hEnds]
    cases r.result <;> simp

theorem consumed_iff (rd : Reader) (r : Reply) :
    r.Consumed rd ↔ r.legible rd = true ∧ r.errorLast = true := by
  rw [← Reply.read_eq_iff]
  constructor
  · intro h
    have hRead := h [] r.depth le_rfl
    rw [readReply_encode rd r r.depth [] le_rfl, List.append_nil] at hRead
    exact Option.some.inj hRead
  · intro h rest depth hDepth
    rw [readReply_encode rd r depth rest hDepth, h]
    rfl

/-! ## Commands -/

abbrev CodePoint := Fin 0x110000

inductive Arg
  | bytes (data : Text)
  | str (codes : List CodePoint)

def isSurrogate (c : CodePoint) : Bool := 0xD800 ≤ c.val && c.val < 0xE000

/-- The bytes of a code point. -/
def utf8 (c : Nat) : List Nat :=
  if c < 0x80 then [c]
  else if c < 0x800 then [0xC0 + c / 64, 0x80 + c % 64]
  else if c < 0x10000 then [0xE0 + c / 4096, 0x80 + c / 64 % 64, 0x80 + c % 64]
  else [0xF0 + c / 262144, 0x80 + c / 4096 % 64, 0x80 + c / 64 % 64, 0x80 + c % 64]

/-- The bytes of an argument, none if `str.encode` raises. -/
def Arg.data : Arg → Option Text
  | .bytes data => some data
  | .str codes =>
    if codes.any isSurrogate then none
    else some ((codes.flatMap fun c => utf8 c.val).map Char.ofNat)

def encodeBulk (data : Text) : Text :=
  '$' :: Python.decimal data.length ++ crlf ++ (data ++ crlf)

def encode (args : List Arg) : Option Text :=
  (args.mapM Arg.data).map fun datas =>
    '*' :: Python.decimal args.length ++ crlf ++ datas.flatMap encodeBulk

def Arg.Encodable : Arg → Prop
  | .bytes _ => True
  | .str codes => ∀ c ∈ codes, isSurrogate c = false

/-- A reader of commands. -/
def server : Reader := ⟨fun _ => true, none⟩

/-- What is written is read as the bytes of the arguments. -/
def Encoded (args : List Arg) : Prop :=
  ∃ out datas, encode args = some out ∧ args.mapM Arg.data = some datas ∧
    ∀ (rest : Text) (depth : Nat), 2 ≤ depth →
      readReply server depth (out ++ rest) = some (.value (.list (datas.map .bytes)), rest)

def command (datas : List Text) : Reply := .array (datas.map fun data => .bulk (some data))

theorem encodeAll_bulks (datas : List Text) :
    encodeAll (datas.map fun data => .bulk (some data)) = datas.flatMap encodeBulk := by
  induction datas with
  | nil => rfl
  | cons data datas ih =>
    rw [List.map_cons, encodeAll, ih, List.flatMap_cons]
    rfl

theorem resultAll_bulks (datas : List Text) :
    resultAll (datas.map fun data => .bulk (some data)) = .ok (datas.map .bytes) := by
  induction datas with
  | nil => rfl
  | cons data datas ih =>
    rw [List.map_cons, resultAll, ih]
    rfl

theorem allLegible_bulks (datas : List Text) :
    allLegible server (datas.map fun data => .bulk (some data)) = true := by
  induction datas with
  | nil => rfl
  | cons data datas ih =>
    rw [List.map_cons, allLegible, ih]
    rfl

theorem allErrorLast_bulks (datas : List Text) :
    allErrorLast (datas.map fun data => .bulk (some data)) = true := by
  induction datas with
  | nil => rfl
  | cons data datas ih =>
    rw [List.map_cons, allErrorLast, ih]
    simp [Reply.errorLast, Reply.hasError]

theorem depthAll_bulks (datas : List Text) :
    depthAll (datas.map fun data => .bulk (some data)) ≤ 1 := by
  induction datas with
  | nil => exact Nat.zero_le 1
  | cons data datas ih =>
    rw [List.map_cons, depthAll]
    exact Nat.max_le.mpr ⟨le_rfl, ih⟩

theorem command_consumed (datas : List Text) : (command datas).Consumed server := by
  rw [consumed_iff, command, Reply.legible, Reply.errorLast, allLegible_bulks, allErrorLast_bulks]
  exact ⟨rfl, rfl⟩

theorem command_own (datas : List Text) : (command datas).own = .value (.list (datas.map .bytes)) := by
  rw [Reply.own, command, Reply.result, resultAll_bulks]
  rfl

theorem mapM_eq_some_length {args : List Arg} {datas : List Text}
    (h : args.mapM Arg.data = some datas) : args.length = datas.length := by
  induction args generalizing datas with
  | nil =>
    cases h
    rfl
  | cons a args ih =>
    rw [List.mapM_cons] at h
    obtain ⟨data, -, h⟩ := Option.bind_eq_some_iff.mp h
    obtain ⟨rest, hRest, h⟩ := Option.bind_eq_some_iff.mp h
    cases h
    rw [List.length_cons, List.length_cons, ih hRest]

theorem data_isSome_iff (a : Arg) : (∃ data, a.data = some data) ↔ a.Encodable := by
  cases a with
  | bytes data => simp [Arg.data, Arg.Encodable]
  | str codes => simp [Arg.data, Arg.Encodable]

theorem mapM_isSome_iff (args : List Arg) :
    (∃ datas, args.mapM Arg.data = some datas) ↔ ∀ a ∈ args, a.Encodable := by
  induction args with
  | nil => simp
  | cons a args ih =>
    rw [List.forall_mem_cons, ← ih, ← data_isSome_iff, List.mapM_cons]
    constructor
    · rintro ⟨datas, h⟩
      obtain ⟨data, hData, h⟩ := Option.bind_eq_some_iff.mp h
      obtain ⟨rest, hRest, -⟩ := Option.bind_eq_some_iff.mp h
      exact ⟨⟨data, hData⟩, rest, hRest⟩
    · rintro ⟨⟨data, hData⟩, rest, hRest⟩
      exact ⟨data :: rest, by rw [hData, hRest]; rfl⟩

theorem encoded_iff (args : List Arg) : Encoded args ↔ ∀ a ∈ args, a.Encodable := by
  rw [← mapM_isSome_iff]
  constructor
  · rintro ⟨out, datas, -, hDatas, -⟩
    exact ⟨datas, hDatas⟩
  · rintro ⟨datas, hDatas⟩
    have hOut : encode args = some (command datas).encode := by
      rw [encode, hDatas, Option.map_some, mapM_eq_some_length hDatas, command, Reply.encode,
        encodeAll_bulks, List.length_map]
    refine ⟨_, datas, hOut, hDatas, fun rest depth hDepth => ?_⟩
    rw [← command_own]
    apply command_consumed datas rest depth
    have hElems := depthAll_bulks datas
    rw [command, Reply.depth]
    omega

theorem utf8_append_inj {c d : Nat} {s t : List Nat} (hc : c < 0x110000) (hd : d < 0x110000)
    (h : utf8 c ++ s = utf8 d ++ t) : c = d ∧ s = t := by
  have hHigh : ∀ n, n / 64 / 64 = n / 4096 ∧ n / 4096 / 64 = n / 262144 := by
    intro n
    exact ⟨Nat.div_div_eq_div_mul n 64 64, Nat.div_div_eq_div_mul n 4096 64⟩
  have hcHigh := hHigh c
  have hdHigh := hHigh d
  unfold utf8 at h
  split_ifs at h <;>
    simp only [List.cons_append, List.nil_append, List.cons.injEq] at h
  -- the lengths agree, or the first bytes differ
  all_goals first
    | omega
    | exact ⟨by omega, by tauto⟩

theorem utf8_ne_nil (c : Nat) : utf8 c ≠ [] := by
  unfold utf8
  split_ifs <;> simp

theorem flatMap_utf8_inj {s t : List CodePoint}
    (h : (s.flatMap fun c => utf8 c.val) = t.flatMap fun c => utf8 c.val) : s = t := by
  induction s generalizing t with
  | nil =>
    cases t with
    | nil => rfl
    | cons d t => simp [utf8_ne_nil] at h
  | cons c s ih =>
    cases t with
    | nil => simp [utf8_ne_nil] at h
    | cons d t =>
      obtain ⟨hHead, hTail⟩ := utf8_append_inj c.isLt d.isLt h
      rw [Fin.ext hHead, ih hTail]

theorem utf8_lt {c n : Nat} (hc : c < 0x110000) (h : n ∈ utf8 c) : n < 256 := by
  unfold utf8 at h
  split_ifs at h <;> simp at h <;> omega

theorem toNat_utf8 (codes : List CodePoint) :
    ((codes.flatMap fun c => utf8 c.val).map Char.ofNat).map Char.toNat =
      codes.flatMap fun c => utf8 c.val := by
  rw [List.map_map]
  refine (List.map_congr_left fun n hn => ?_).trans (List.map_id _)
  obtain ⟨c, -, hIn⟩ := List.mem_flatMap.mp hn
  have hLt := utf8_lt c.isLt hIn
  have hValid : n.isValidChar := .inl (by omega)
  rw [Function.comp_apply, Char.ofNat, dif_pos hValid]
  rfl

theorem data_inj {s t : List CodePoint} {data : Text} (hs : (Arg.str s).data = some data)
    (ht : (Arg.str t).data = some data) : s = t := by
  rw [Arg.data] at hs ht
  split at hs
  · cases hs
  split at ht
  · cases ht
  apply flatMap_utf8_inj
  rw [← toNat_utf8 s, ← toNat_utf8 t, Option.some.inj hs, Option.some.inj ht]

theorem codec_iff (args : List Arg) (rd : Reader) (r : Reply) :
    (Encoded args ↔ ∀ a ∈ args, a.Encodable) ∧
      (∀ s t data, (Arg.str s).data = some data → (Arg.str t).data = some data → s = t) ∧
      (r.Consumed rd ↔ r.legible rd = true ∧ r.errorLast = true) :=
  ⟨encoded_iff args, fun _ _ _ => data_inj, consumed_iff rd r⟩

/-- An array of an error and a number: the number is left. -/
theorem error_leaves_rest :
    let rd : Reader := ⟨fun _ => true, some 65536⟩
    let r : Reply := .array [.error ⟨['E'], by decide⟩, .int ⟨1, by decide⟩]
    (readReply rd 2 (r.encode ++ [])).map Prod.snd = some [':', '1', '\r', '\n'] ∧
      ¬r.Consumed rd := by
  refine ⟨by decide, fun h => ?_⟩
  have hLast := ((consumed_iff _ _).mp h).2
  simp [Reply.errorLast, allErrorLast, Reply.hasError] at hLast

end OpenSpoke.Valkey
