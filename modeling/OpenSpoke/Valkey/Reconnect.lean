import OpenSpoke.Valkey.Codec

/-!
# Lost connections

The calls of `execute` one after the other, as the lock has them. What the network does
to a call is the list of its events: openings, replies and losses. A connection that is
lost is seen at a write, in the middle of a line or in a bulk string.
-/

namespace OpenSpoke.Valkey

open Lts
open Python (Text)

/-! ## Reading to the end of a stream -/

inductive Loss
  -- the stream ends
  | closed
  -- the read raises
  | reset
  deriving DecidableEq

/-- What a part of a line says where no more comes; none if more may come. -/
def Reader.unended (rd : Reader) (part : Text) : Option Loss → Option Parsed
  | none => none
  | some .closed => some (if rd.fits (part ++ ['\n']) then parseLine rd.decodes part else .raises)
  | some .reset => some .raises

def Reader.line (rd : Reader) (loss : Option Loss) (input : Text) : Option (Parsed × Text) :=
  match readline input false with
  | some (line, rest) => some (if rd.fits line then parseLine rd.decodes line else .raises, rest)
  | none => (rd.unended input loss).map fun parsed => (parsed, [])

/-- `_read_reply` on bytes that may be the last. -/
def receive (rd : Reader) (loss : Option Loss) : Nat → Text → Option (ReadEnd × Text)
  | 0, _ => none
  | depth + 1, input =>
    match rd.line loss input with
    | none => none
    | some (.value v, rest) => some (.value v, rest)
    | some (.error t, rest) => some (.error t, rest)
    | some (.invalid, rest) => some (.invalid, rest)
    | some (.raises, rest) => some (.raises, rest)
    | some (.push size, rest) => readAll (receive rd loss depth) size rest []
    | some (.bulk size, rest) =>
      if size ≤ rest.length then some (.value (.bytes (rest.take (size - 2))), rest.drop size)
      else loss.map fun _ => (.raises, [])

/-! ## Calls -/

/-- What the network does at an await of a call. -/
inductive NetEv
  -- `open_connection`
  | refused
  | accepted
  -- the write or its drain raises
  | unwritten
  -- the whole reply comes
  | replied (r : Reply)
  -- no more than `size` bytes of the reply come
  | lost (loss : Loss) (r : Reply) (size : Nat)

def NetEv.isOpening : NetEv → Bool
  | .refused | .accepted => true
  | _ => false

def NetEv.isLoss : NetEv → Bool
  | .unwritten | .lost _ _ _ => true
  | _ => false

/-- A connection as the client has it. -/
structure Link where
  buffer : Text
  -- nothing more comes
  lost : Bool
  -- history: AUTH and SELECT have been answered
  ready : Bool
  deriving DecidableEq

def Link.opened : Link := ⟨[], false, false⟩

structure ValkeyConfig where
  password : List CodePoint
  db : Int

def ascii (t : Text) : Arg := .str (t.map fun c => Fin.ofNat _ c.toNat)

def ValkeyConfig.setup (c : ValkeyConfig) : List (List Arg) :=
  (if c.password = [] then [] else [[ascii "AUTH".toList, .str c.password]]) ++
    if c.db = 0 then [] else [[ascii "SELECT".toList, ascii (Python.decimal c.db)]]

section Execute

variable (rd : Reader)

/-- A command that is written: how it ends, the connection and the events that follow. -/
def exchange (k : Link) : List NetEv → Option (ReadEnd × Link × List NetEv)
  | .unwritten :: evs => some (.raises, { k with lost := true }, evs)
  | .replied r :: evs =>
    let input := k.buffer ++ r.encode
    if k.lost then none
    else (receive rd none (input.length + 1) input).map fun (e, rest) =>
      (e, { k with buffer := rest }, evs)
  | .lost loss r size :: evs =>
    let input := k.buffer ++ r.encode.take size
    if size < r.encode.length ∧ (k.lost → size = 0) then
      (receive rd (some loss) (input.length + 1) input).map fun (e, rest) =>
        (e, { k with buffer := rest, lost := true }, evs)
    else none
  | _ => none

def raw (k : Link) (args : List Arg) (evs : List NetEv) : Option (ReadEnd × Link × List NetEv) :=
  if (encode args).isNone then some (.raises, k, evs) else exchange rd k evs

def setUp : List (List Arg) → Link → List NetEv → Option (ReadEnd × Link × List NetEv)
  | [], k, evs => some (.value .none, { k with ready := true }, evs)
  | args :: rest, k, evs =>
    match raw rd k args evs with
    | some (.value _, k, evs) => setUp rest k evs
    | other => other

def connect (c : ValkeyConfig) : List NetEv → Option (ReadEnd × Option Link × List NetEv)
  | .refused :: evs => some (.raises, none, evs)
  | .accepted :: evs => (setUp rd c.setup .opened evs).map fun (e, k, evs) => (e, some k, evs)
  | _ => none

def attempt (c : ValkeyConfig) (args : List Arg) (client : Option Link) (evs : List NetEv) :
    Option (ReadEnd × Option Link × List NetEv) :=
  match client with
  | some k => (raw rd k args evs).map fun (e, k, evs) => (e, some k, evs)
  | none =>
    match connect rd c evs with
    | some (.value _, some k, evs) => (raw rd k args evs).map fun (e, k, evs) => (e, some k, evs)
    | other => other

/-- What `execute` makes of an end other than an exception to try again at. -/
def ReadEnd.outcome : ReadEnd → Outcome
  | .value v => .returned v
  | .error t => .serverError t
  | .invalid | .raises => .failed

/-- `_close` after an exception to try again at. -/
def ReadEnd.close : ReadEnd → Option Link → Option Link
  | .raises, _ => none
  | _, client => client

def execute (c : ValkeyConfig) (args : List Arg) (client : Option Link) (evs : List NetEv) :
    Option (Outcome × Option Link × List NetEv) :=
  match attempt rd c args client evs with
  | some (.raises, _, evs) =>
    (attempt rd c args none evs).map fun (e, client, evs) => (e.outcome, e.close client, evs)
  | other => other.map fun (e, client, evs) => (e.outcome, client, evs)

structure ExecuteCall where
  args : List Arg
  evs : List NetEv

/-- A call takes all of its events. -/
def executeStep (c : ValkeyConfig) (client : Option Link) (call : ExecuteCall) :
    Option (Option Link) :=
  match execute rd c call.args client call.evs with
  | some (_, client, []) => some client
  | _ => none

end Execute

/-! ## What is read -/

theorem readAll_mono {read read' : Text → Option (ReadEnd × Text)}
    (h : ∀ input e, read input = some e → read' input = some e) {n : Nat} {input : Text}
    {values : List Value} {e : ReadEnd × Text} (hRead : readAll read n input values = some e) :
    readAll read' n input values = some e := by
  induction n generalizing input values with
  | zero => exact hRead
  | succ n ih =>
    rw [readAll] at hRead ⊢
    cases hInput : read input with
    | none =>
      rw [hInput] at hRead
      cases hRead
    | some first =>
      rw [hInput] at hRead
      rw [h input first hInput]
      obtain ⟨ended, rest⟩ := first
      cases ended with
      | value v => exact ih hRead
      | error t => exact hRead
      | invalid => exact hRead
      | raises => exact hRead

/-- The end of a stream changes nothing where there is enough. -/
theorem receive_of_readReply {rd : Reader} (loss : Option Loss) {depth : Nat} {input : Text}
    {e : ReadEnd × Text} (h : readReply rd depth input = some e) :
    receive rd loss depth input = some e := by
  induction depth generalizing input e with
  | zero => cases h
  | succ depth ih =>
    rw [readReply] at h
    rw [receive, Reader.line]
    cases hLine : readline input false with
    | none =>
      rw [hLine] at h
      cases h
    | some lineRest =>
      obtain ⟨line, rest⟩ := lineRest
      rw [hLine] at h
      dsimp only at h ⊢
      cases hFits : rd.fits line with
      | false =>
        rw [hFits] at h
        exact h
      | true =>
        rw [hFits] at h
        simp only [if_true] at h ⊢
        cases hParsed : parseLine rd.decodes line with
        | value v =>
          rw [hParsed] at h
          exact h
        | error t =>
          rw [hParsed] at h
          exact h
        | invalid =>
          rw [hParsed] at h
          exact h
        | raises =>
          rw [hParsed] at h
          exact h
        | push size =>
          rw [hParsed] at h
          exact readAll_mono (fun _ _ => ih) h
        | bulk size =>
          rw [hParsed] at h
          dsimp only at h ⊢
          split at h
          · rename_i hSize
            rw [if_pos hSize]
            exact h
          · cases h

theorem receive_encode (rd : Reader) (loss : Option Loss) {r : Reply} {depth : Nat} (rest : Text)
    (h : r.depth ≤ depth) :
    receive rd loss depth (r.encode ++ rest) = some ((r.read rd).1, (r.read rd).2 ++ rest) :=
  receive_of_readReply loss (readReply_encode rd r depth rest h)

theorem header_length_pos (r : Reply) : 0 < r.header.length := by
  rw [Reply.header]
  simp

mutual

theorem depth_le_length : ∀ r : Reply, r.depth ≤ r.encode.length
  | .simple _ | .error _ | .int _ | .bulk _ | .nilArray => by
    rw [encode_eq_header, List.length_append]
    simp only [Reply.depth]
    exact Nat.le_add_right_of_le (header_length_pos _)
  | .array elems => by
    have hElems := depthAll_le_length elems
    have hHeader := header_length_pos (.array elems)
    rw [encode_eq_header, List.length_append, Reply.depth, Reply.payload]
    omega

theorem depthAll_le_length : ∀ rs : List Reply, depthAll rs ≤ (encodeAll rs).length
  | [] => Nat.zero_le _
  | r :: rs => by
    have hHead := depth_le_length r
    have hTail := depthAll_le_length rs
    rw [depthAll, encodeAll, List.length_append]
    omega

end

/-! ## What is read of a part -/

/-- A line that is cut off there raises. -/
def Reply.lineCutSeen (rd : Reader) (loss : Loss) (r : Reply) (size : Nat) : Bool :=
  match rd.unended (r.header.take size) (some loss) with
  | some .raises => true
  | _ => false

mutual

/-- A loss after so many bytes of the reply raises: in a bulk string, in what is no line, and
after no error. -/
def Reply.cutSeen (rd : Reader) (loss : Loss) : Reply → Nat → Bool
  | .array elems, size =>
    if size < (Reply.header (.array elems)).length then
      Reply.lineCutSeen rd loss (.array elems) size
    else allCutSeen rd loss elems (size - (Reply.header (.array elems)).length)
  | r, size => if size < r.header.length then r.lineCutSeen rd loss size else true

def allCutSeen (rd : Reader) (loss : Loss) : List Reply → Nat → Bool
  | [], _ => false
  | r :: rs, size =>
    if r.encode.length ≤ size then !r.hasError && allCutSeen rd loss rs (size - r.encode.length)
    else r.cutSeen rd loss size

end

section

variable {rd : Reader} {loss : Loss}

theorem newline_not_mem_take {r : Reply} {size : Nat} (h : size < r.header.length) :
    '\n' ∉ r.header.take size := by
  have hHeader : r.header = (r.tag :: r.body ++ ['\r']) ++ ['\n'] := by
    rw [Reply.header]
    simp [crlf]
  have hLength : size ≤ (r.tag :: r.body ++ ['\r']).length := by
    rw [hHeader, List.length_append, List.length_singleton] at h
    omega
  rw [hHeader, List.take_append_of_le_length hLength]
  intro hMem
  have hMem := List.mem_of_mem_take hMem
  rw [List.mem_append] at hMem
  obtain hMem | hMem := hMem
  · exact r.newline_not_mem hMem
  · simp at hMem

theorem receive_line {r : Reply} {size depth : Nat} (h : size < r.header.length)
    (hSeen : r.lineCutSeen rd loss size = true) :
    receive rd (some loss) (depth + 1) (r.header.take size) = some (.raises, []) := by
  have hNone : readline (r.header.take size) false = none := by
    rw [readline, if_neg (newline_not_mem_take h)]
    rfl
  rw [Reply.lineCutSeen] at hSeen
  rw [receive, Reader.line, hNone]
  dsimp only
  split at hSeen
  · rename_i hRaises
    rw [hRaises]
    rfl
  · cases hSeen

theorem take_encode {r : Reply} {size : Nat} (h : size < r.header.length) :
    r.encode.take size = r.header.take size := by
  rw [encode_eq_header, List.take_append_of_le_length (le_of_lt h)]

theorem take_encode_of_le {r : Reply} {size : Nat} (h : r.header.length ≤ size) :
    r.encode.take size = r.header ++ r.payload.take (size - r.header.length) := by
  rw [encode_eq_header, List.take_append, List.take_of_length_le h]

theorem receive_header (r : Reply) (depth : Nat) (rest : Text) :
    receive rd (some loss) (depth + 1) (r.header ++ rest) =
      if rd.fits r.header then
        match r.parsed rd.decodes with
        | .value v => some (.value v, rest)
        | .error t => some (.error t, rest)
        | .invalid => some (.invalid, rest)
        | .raises => some (.raises, rest)
        | .push size => readAll (receive rd (some loss) depth) size rest []
        | .bulk size =>
          if size ≤ rest.length then some (.value (.bytes (rest.take (size - 2))), rest.drop size)
          else some (.raises, [])
      else some (.raises, rest) := by
  rw [receive, Reader.line, readline_header]
  dsimp only
  rw [parseLine_header]
  cases rd.fits r.header with
  | false => rfl
  | true =>
    rw [if_pos rfl, if_pos rfl]
    cases r.parsed rd.decodes <;> rfl

theorem size_lt_header {r : Reply} {size : Nat} (hPayload : r.payload = [])
    (h : size < r.encode.length) : size < r.header.length := by
  rw [encode_eq_header, hPayload, List.append_nil] at h
  exact h

theorem receive_cut_short {r : Reply} {size depth : Nat} (hPayload : r.payload = [])
    (hCut : r.cutSeen rd loss size = if size < r.header.length then r.lineCutSeen rd loss size else true)
    (hSize : size < r.encode.length) (hSeen : r.cutSeen rd loss size = true) (hDepth : size < depth) :
    ∃ rest, receive rd (some loss) depth (r.encode.take size) = some (.raises, rest) := by
  have hLt := size_lt_header hPayload hSize
  obtain ⟨depth, rfl⟩ := Nat.exists_eq_succ_of_ne_zero (by omega : depth ≠ 0)
  rw [hCut, if_pos hLt] at hSeen
  rw [take_encode hLt]
  exact ⟨[], receive_line hLt hSeen⟩

mutual

theorem receive_cut : ∀ (r : Reply) (size depth : Nat), size < r.encode.length →
    r.cutSeen rd loss size = true → size < depth →
    ∃ rest, receive rd (some loss) depth (r.encode.take size) = some (.raises, rest)
  | .simple t, size, depth, hSize, hSeen, hDepth =>
    receive_cut_short rfl (by rw [Reply.cutSeen]; simp) hSize hSeen hDepth
  | .error t, size, depth, hSize, hSeen, hDepth =>
    receive_cut_short rfl (by rw [Reply.cutSeen]; simp) hSize hSeen hDepth
  | .int i, size, depth, hSize, hSeen, hDepth =>
    receive_cut_short rfl (by rw [Reply.cutSeen]; simp) hSize hSeen hDepth
  | .bulk none, size, depth, hSize, hSeen, hDepth =>
    receive_cut_short rfl (by rw [Reply.cutSeen]; simp) hSize hSeen hDepth
  | .nilArray, size, depth, hSize, hSeen, hDepth =>
    receive_cut_short rfl (by rw [Reply.cutSeen]; simp) hSize hSeen hDepth
  | .bulk (some data), size, 0, hSize, hSeen, hDepth => absurd hDepth (Nat.not_lt_zero size)
  | .array elems, size, 0, hSize, hSeen, hDepth => absurd hDepth (Nat.not_lt_zero size)
  | .bulk (some data), size, depth + 1, hSize, hSeen, hDepth => by
    by_cases hLt : size < (Reply.header (.bulk (some data))).length
    · rw [Reply.cutSeen, if_pos hLt] at hSeen
      · rw [take_encode hLt]
        exact ⟨[], receive_line hLt hSeen⟩
      · simp
    · rw [not_lt] at hLt
      have hShort : ¬data.length + 2 ≤
          ((Reply.payload (.bulk (some data))).take (size - (Reply.header (.bulk (some data))).length)).length := by
        rw [encode_eq_header, List.length_append, Reply.payload, List.length_append] at hSize
        simp only [crlf, List.length_cons, List.length_nil] at hSize
        rw [List.length_take]
        omega
      rw [take_encode_of_le hLt, receive_header]
      cases rd.fits (Reply.header (.bulk (some data))) with
      | false => exact ⟨_, rfl⟩
      | true =>
        rw [if_pos rfl, Reply.parsed]
        dsimp only
        rw [if_neg hShort]
        exact ⟨_, rfl⟩
  | .array elems, size, depth + 1, hSize, hSeen, hDepth => by
    rw [Reply.cutSeen] at hSeen
    split at hSeen
    · rename_i hLt
      rw [take_encode hLt]
      exact ⟨[], receive_line hLt hSeen⟩
    · rename_i hLt
      rw [not_lt] at hLt
      have hPos := header_length_pos (.array elems)
      rw [encode_eq_header, List.length_append, Reply.payload] at hSize
      obtain ⟨rest, hElems⟩ := receiveAll_cut elems (size - (Reply.header (.array elems)).length) depth []
        (by omega) hSeen (by omega)
      rw [take_encode_of_le hLt, receive_header, Reply.payload]
      cases rd.fits (Reply.header (.array elems)) with
      | false => exact ⟨_, rfl⟩
      | true =>
        cases elems with
        | nil =>
          rw [encodeAll, List.length_nil] at hSize
          omega
        | cons r rs => exact ⟨rest, hElems⟩

theorem receiveAll_cut : ∀ (rs : List Reply) (size depth : Nat) (values : List Value),
    size < (encodeAll rs).length → allCutSeen rd loss rs size = true → size < depth →
    ∃ rest, readAll (receive rd (some loss) depth) rs.length ((encodeAll rs).take size) values =
      some (.raises, rest)
  | [], size, depth, values, hSize, hSeen, hDepth => absurd hSize (Nat.not_lt_zero size)
  | r :: rs, size, depth, values, hSize, hSeen, hDepth => by
    rw [allCutSeen] at hSeen
    rw [encodeAll, List.length_append] at hSize
    rw [List.length_cons, readAll, encodeAll]
    split at hSeen
    · rename_i hLe
      rw [Bool.and_eq_true, Bool.not_eq_true'] at hSeen
      have hDepthOf := depth_le_length r
      rw [List.take_append, List.take_of_length_le hLe,
        receive_encode rd (some loss) _ (by omega : r.depth ≤ depth)]
      have hEnds := r.read_ends rd
      generalize r.read rd = e at hEnds
      obtain ⟨e, left⟩ := e
      cases e with
      | value v =>
        obtain ⟨rfl, -⟩ := hEnds
        exact receiveAll_cut rs (size - r.encode.length) depth (values ++ [v]) (by omega) hSeen.2 (by omega)
      | error t =>
        have hError : r.hasError = true := hEnds.2.1
        rw [hSeen.1] at hError
        cases hError
      | invalid => exact hEnds.elim
      | raises => exact ⟨_, rfl⟩
    · rename_i hLt
      rw [not_le] at hLt
      obtain ⟨rest, hHead⟩ := receive_cut r size depth hLt hSeen hDepth
      rw [List.take_append_of_le_length (le_of_lt hLt), hHead]
      exact ⟨rest, rfl⟩

end

end

/-! ## What a call takes -/

def Link.idle : Link := ⟨[], false, true⟩

/-- No connection, or one that the next call can use. -/
def Usable (client : Option Link) : Prop := ∀ k, client = some k → k = .idle

/-- A reply that can be read, or a loss that raises. -/
def NetEv.Fine (rd : Reader) : NetEv → Prop
  | .replied r => r.legible rd = true ∧ r.errorLast = true
  | .lost loss r size => r.cutSeen rd loss size = true
  | _ => True

def NetEv.fails : NetEv → Bool
  | .refused | .unwritten | .lost _ _ _ => true
  | _ => false

structure Handled (rd : Reader) (c : ValkeyConfig) (call : ExecuteCall) : Prop where
  args : ∀ a ∈ call.args, a.Encodable
  password : (Arg.str c.password).Encodable
  events : ∀ e ∈ call.evs, e.Fine rd
  -- AUTH and SELECT are not answered with an error
  setUp : ∀ before after, call.evs = before ++ .accepted :: after →
    ∀ r, .replied r ∈ after.take c.setup.length → r.hasError = false

/-- The server is there: at most the connection that the client holds is lost. -/
inductive Up (c : ValkeyConfig) : Option Link → List NetEv → Reply → Prop
  | held {k : Link} (r : Reply) (hLost : k.lost = false) : Up c (some k) [.replied r] r
  | again {k : Link} {e : NetEv} {evs : List NetEv} {r : Reply} (hLoss : e.isLoss = true)
      (hSize : ∀ loss r size, e = .lost loss r size → size < r.encode.length ∧ (k.lost → size = 0))
      (hUp : Up c none evs r) : Up c (some k) (e :: evs) r
  | opened (replies : List Reply) (r : Reply) (hLength : replies.length = c.setup.length) :
      Up c none (.accepted :: (replies.map .replied ++ [.replied r])) r

structure Recovers (rd : Reader) (c : ValkeyConfig) (client : Option Link) (call : ExecuteCall) :
    Prop where
  -- after a loss in the first attempt, one opening and a whole attempt
  retries : ∀ o client', execute rd c call.args client call.evs = some (o, client', []) →
    ∀ before e after, call.evs = before ++ e :: after → e.isLoss = true →
      (∀ x ∈ before, x.fails = false) →
      (∃ opening others, after = opening :: others ∧ opening.isOpening = true ∧
        ∀ x ∈ others, x.isOpening = false) ∧
      ∃ ended last, attempt rd c call.args none after = some (ended, last, []) ∧ o = ended.outcome
  leaves : ∀ o client', execute rd c call.args client call.evs = some (o, client', []) →
    (∀ v, o ≠ .returned v) → ∀ k, client' = some k → k = .idle
  succeeds : ∀ r, Up c client call.evs r →
    execute rd c call.args client call.evs = some (r.own.outcome, some .idle, [])

section

variable {rd : Reader} {c : ValkeyConfig} {args : List Arg} {k k' : Link} {client client' : Option Link}
  {evs rest : List NetEv} {e : NetEv} {ended : ReadEnd} {r : Reply}

theorem encode_isNone (h : ∀ a ∈ args, a.Encodable) : (encode args).isNone = false := by
  obtain ⟨out, datas, hOut, -⟩ := (encoded_iff args).mpr h
  rw [hOut]
  rfl

theorem ascii_encodable (t : Text) : (ascii t).Encodable := by
  intro code hCode
  obtain ⟨c, -, rfl⟩ := List.mem_map.mp hCode
  have hValid : c.toNat.isValidChar := c.valid
  have hVal : (Fin.ofNat 0x110000 c.toNat).val = c.toNat := by
    rw [Fin.val_ofNat]
    obtain hLow | ⟨-, hHigh⟩ := hValid
    · exact Nat.mod_eq_of_lt (by omega)
    · exact Nat.mod_eq_of_lt hHigh
  rw [isSurrogate, hVal, Bool.and_eq_false_iff, decide_eq_false_iff_not, decide_eq_false_iff_not]
  obtain hLow | ⟨hHigh, -⟩ := hValid
  · exact .inl (by omega)
  · exact .inr (by omega)

theorem setup_encodable (h : (Arg.str c.password).Encodable) :
    ∀ args ∈ c.setup, ∀ a ∈ args, a.Encodable := by
  intro args hArgs
  rw [ValkeyConfig.setup, List.mem_append] at hArgs
  obtain hArgs | hArgs := hArgs
  · split at hArgs
    · cases hArgs
    · rw [List.mem_singleton.mp hArgs]
      exact List.forall_mem_cons.mpr ⟨ascii_encodable _, List.forall_mem_singleton.mpr h⟩
  · split at hArgs
    · cases hArgs
    · rw [List.mem_singleton.mp hArgs]
      exact List.forall_mem_cons.mpr ⟨ascii_encodable _, List.forall_mem_singleton.mpr (ascii_encodable _)⟩

theorem raw_eq (hArgs : ∀ a ∈ args, a.Encodable) : raw rd k args evs = exchange rd k evs := by
  rw [raw, encode_isNone hArgs]
  rfl

theorem exchange_replied (hLost : k.lost = false) (hBuffer : k.buffer = [])
    (hFine : NetEv.Fine rd (.replied r)) :
    exchange rd k (.replied r :: evs) = some (r.own, k, evs) := by
  have hRead := (r.read_eq_iff rd).mpr hFine
  have hReceive : receive rd none ((k.buffer ++ r.encode).length + 1) (k.buffer ++ r.encode) =
      some (r.own, []) := by
    have hDepth := depth_le_length r
    rw [hBuffer, List.nil_append, ← List.append_nil r.encode,
      receive_encode rd none [] (by rw [List.append_nil]; omega), hRead]
    rfl
  rw [exchange, hReceive, if_neg (by rw [hLost]; exact Bool.false_ne_true), ← hBuffer]
  rfl

theorem exchange_loss (evs : List NetEv) (hBuffer : k.buffer = []) (hLoss : e.isLoss = true) (hFine : e.Fine rd)
    (hSize : ∀ loss r size, e = .lost loss r size → size < r.encode.length ∧ (k.lost → size = 0)) :
    ∃ k', exchange rd k (e :: evs) = some (.raises, k', evs) := by
  cases e with
  | refused => cases hLoss
  | accepted => cases hLoss
  | replied r => cases hLoss
  | unwritten => exact ⟨_, rfl⟩
  | lost loss r size =>
    have hBounds := hSize loss r size rfl
    obtain ⟨left, hReceive⟩ := receive_cut r size ((r.encode.take size).length + 1) hBounds.1 hFine (by
      rw [List.length_take]
      omega)
    rw [exchange, if_pos hBounds, hBuffer, List.nil_append, hReceive]
    exact ⟨_, rfl⟩

theorem exchange_cases (hLost : k.lost = false) (hBuffer : k.buffer = [])
    (hFine : ∀ e ∈ evs, e.Fine rd) (h : exchange rd k evs = some (ended, k', rest)) :
    ∃ e, evs = e :: rest ∧
      ((∃ r, e = .replied r ∧ ended = r.own ∧ k' = k) ∨ e.isLoss = true ∧ ended = .raises) := by
  cases evs with
  | nil => cases h
  | cons e evs =>
    have hHead := hFine e List.mem_cons_self
    cases e with
    | refused => cases h
    | accepted => cases h
    | replied r =>
      rw [exchange_replied hLost hBuffer hHead] at h
      cases h
      exact ⟨_, rfl, .inl ⟨r, rfl, rfl, rfl⟩⟩
    | unwritten =>
      cases h
      exact ⟨_, rfl, .inr ⟨rfl, rfl⟩⟩
    | lost loss r size =>
      by_cases hSize : size < r.encode.length
      · obtain ⟨k'', hRaw⟩ := exchange_loss evs (e := .lost loss r size) hBuffer rfl hHead (by
          rintro _ _ _ ⟨⟩
          exact ⟨hSize, fun hTrue => absurd hTrue (by rw [hLost]; exact Bool.false_ne_true)⟩)
        rw [hRaw] at h
        cases h
        exact ⟨_, rfl, .inr ⟨rfl, rfl⟩⟩
      · rw [exchange, if_neg fun hAnd => hSize hAnd.1] at h
        cases h

theorem own_eq_value (hFine : NetEv.Fine rd (.replied r)) (hError : r.hasError = false) :
    ∃ v, r.own = .value v := by
  have hEnds := r.read_ends rd
  rw [(r.read_eq_iff rd).mpr hFine] at hEnds
  cases hOwn : r.own with
  | value v => exact ⟨v, rfl⟩
  | error t =>
    rw [hOwn] at hEnds
    have hTrue : r.hasError = true := hEnds.2.1
    rw [hError] at hTrue
    cases hTrue
  | invalid =>
    rw [hOwn] at hEnds
    exact hEnds.elim
  | raises =>
    rw [Reply.own] at hOwn
    split at hOwn <;> cases hOwn

theorem setUp_cases {commands : List (List Arg)} (hArgs : ∀ args ∈ commands, ∀ a ∈ args, a.Encodable)
    (hFine : ∀ e ∈ evs, e.Fine rd)
    (hErrors : ∀ r, .replied r ∈ evs.take commands.length → r.hasError = false)
    (h : setUp rd commands .opened evs = some (ended, k', rest)) :
    (∃ v used, ended = .value v ∧ k' = .idle ∧ evs = used ++ rest ∧
        ∀ x ∈ used, x.fails = false ∧ x.isOpening = false) ∨
      ∃ used e, ended = .raises ∧ evs = used ++ e :: rest ∧ e.isLoss = true ∧
        ∀ x ∈ used, x.fails = false ∧ x.isOpening = false := by
  induction commands generalizing evs with
  | nil =>
    cases h
    exact .inl ⟨_, [], rfl, rfl, rfl, List.forall_mem_nil _⟩
  | cons args commands ih =>
    rw [List.forall_mem_cons] at hArgs
    rw [setUp, raw_eq hArgs.1] at h
    cases hExchange : exchange rd .opened evs with
    | none =>
      rw [hExchange] at h
      cases h
    | some first =>
      obtain ⟨firstEnd, k, others⟩ := first
      rw [hExchange] at h
      obtain ⟨e, rfl, hCases⟩ := exchange_cases rfl rfl hFine hExchange
      obtain ⟨r, rfl, rfl, rfl⟩ | ⟨hLoss, rfl⟩ := hCases
      · rw [List.forall_mem_cons] at hFine
        obtain ⟨v, hv⟩ := own_eq_value hFine.1 (hErrors r List.mem_cons_self)
        rw [hv] at h
        have hRest := ih hArgs.2 hFine.2 (fun r hr => hErrors r (List.mem_cons_of_mem _ hr)) h
        have hUsed : ∀ used : List NetEv, (∀ x ∈ used, x.fails = false ∧ x.isOpening = false) →
            ∀ x ∈ .replied r :: used, x.fails = false ∧ x.isOpening = false := fun used hAll =>
          List.forall_mem_cons.mpr ⟨⟨rfl, rfl⟩, hAll⟩
        obtain ⟨v, used, hEnd, hIdle, rfl, hAll⟩ | ⟨used, e, hEnd, rfl, hLoss, hAll⟩ := hRest
        · exact .inl ⟨v, .replied r :: used, hEnd, hIdle, rfl, hUsed used hAll⟩
        · exact .inr ⟨.replied r :: used, e, hEnd, rfl, hLoss, hUsed used hAll⟩
      · cases h
        exact .inr ⟨[], e, rfl, rfl, hLoss, List.forall_mem_nil _⟩

theorem setUp_replied (evs : List NetEv) {commands : List (List Arg)} {replies : List Reply}
    (hArgs : ∀ args ∈ commands, ∀ a ∈ args, a.Encodable) (hLength : replies.length = commands.length)
    (hFine : ∀ r ∈ replies, NetEv.Fine rd (.replied r)) (hErrors : ∀ r ∈ replies, r.hasError = false) :
    ∃ v, setUp rd commands .opened (replies.map .replied ++ evs) = some (.value v, .idle, evs) := by
  induction commands generalizing replies with
  | nil =>
    rw [List.length_nil, List.length_eq_zero_iff] at hLength
    subst hLength
    exact ⟨_, rfl⟩
  | cons args commands ih =>
    cases replies with
    | nil => cases hLength
    | cons r replies =>
      rw [List.forall_mem_cons] at hArgs hFine hErrors
      obtain ⟨v, hv⟩ := own_eq_value hFine.1 hErrors.1
      rw [setUp, raw_eq hArgs.1, List.map_cons, List.cons_append,
        exchange_replied rfl rfl hFine.1, hv]
      exact ih hArgs.2 (Nat.succ.inj hLength) hFine.2 hErrors.2

/-- What an attempt takes: it ends at a reply or at the first failure. -/
structure Taken (client' : Option Link) (ended : ReadEnd) (used : List NetEv) (last : NetEv) : Prop where
  used : ∀ x ∈ used, x.fails = false
  last : (∃ r, last = .replied r ∧ ended = r.own ∧ client' = some .idle) ∨
    last.fails = true ∧ ended = .raises

theorem isOpening_of_isLoss (h : e.isLoss = true) : e.isOpening = false := by
  cases e <;> first | rfl | cases h

theorem fails_of_isLoss (h : e.isLoss = true) : e.fails = true := by
  cases e <;> first | rfl | cases h

theorem Taken.of_exchange {used : List NetEv} (hUsed : ∀ x ∈ used, x.fails = false)
    (h : (∃ r, e = .replied r ∧ ended = r.own ∧ k' = .idle) ∨ e.isLoss = true ∧ ended = .raises) :
    e.isOpening = false ∧ Taken (some k') ended used e := by
  obtain ⟨r, rfl, hEnd, rfl⟩ | ⟨hLoss, hEnd⟩ := h
  · exact ⟨rfl, hUsed, .inl ⟨r, rfl, hEnd, rfl⟩⟩
  · exact ⟨isOpening_of_isLoss hLoss, hUsed, .inr ⟨fails_of_isLoss hLoss, hEnd⟩⟩

theorem attempt_some_cases (hArgs : ∀ a ∈ args, a.Encodable) (hFine : ∀ e ∈ evs, e.Fine rd)
    (h : attempt rd c args (some .idle) evs = some (ended, client', rest)) :
    ∃ last, evs = last :: rest ∧ last.isOpening = false ∧ Taken client' ended [] last := by
  rw [attempt, raw_eq hArgs] at h
  obtain ⟨⟨ended, k, others⟩, hExchange, hEq⟩ := Option.map_eq_some_iff.mp h
  cases hEq
  obtain ⟨e, rfl, hCases⟩ := exchange_cases rfl rfl hFine hExchange
  exact ⟨e, rfl, Taken.of_exchange (List.forall_mem_nil _) hCases⟩

theorem attempt_none_cases (hArgs : ∀ a ∈ args, a.Encodable)
    (hPassword : (Arg.str c.password).Encodable) (hFine : ∀ e ∈ evs, e.Fine rd)
    (hErrors : ∀ after, evs = .accepted :: after →
      ∀ r, .replied r ∈ after.take c.setup.length → r.hasError = false)
    (h : attempt rd c args none evs = some (ended, client', rest)) :
    ∃ opening others, evs = opening :: (others ++ rest) ∧ opening.isOpening = true ∧
      (∀ x ∈ others, x.isOpening = false) ∧
      ∃ used last, opening :: others = used ++ [last] ∧ Taken client' ended used last := by
  cases evs with
  | nil => cases h
  | cons e evs =>
    cases e with
    | unwritten => cases h
    | replied r => cases h
    | lost loss r size => cases h
    | refused =>
      cases h
      exact ⟨.refused, [], rfl, rfl, List.forall_mem_nil _, [], .refused, rfl, List.forall_mem_nil _,
        .inr ⟨rfl, rfl⟩⟩
    | accepted =>
      rw [List.forall_mem_cons] at hFine
      rw [attempt, connect] at h
      cases hSetUp : setUp rd c.setup .opened evs with
      | none =>
        rw [hSetUp] at h
        cases h
      | some first =>
        obtain ⟨firstEnd, k, others⟩ := first
        rw [hSetUp] at h
        obtain ⟨v, used, rfl, rfl, rfl, hUsed⟩ | ⟨used, e, rfl, rfl, hLoss, hUsed⟩ :=
          setUp_cases (setup_encodable hPassword) hFine.2 (hErrors evs rfl) hSetUp
        · rw [Option.map_some] at h
          dsimp only at h
          rw [raw_eq hArgs] at h
          obtain ⟨⟨ended, k, after⟩, hExchange, hEq⟩ := Option.map_eq_some_iff.mp h
          cases hEq
          obtain ⟨e, rfl, hCases⟩ := exchange_cases rfl rfl
            (fun x hx => hFine.2 x (List.mem_append_right used hx)) hExchange
          have hFailures : ∀ x ∈ NetEv.accepted :: used, x.fails = false :=
            List.forall_mem_cons.mpr ⟨rfl, fun x hx => (hUsed x hx).1⟩
          obtain ⟨hOpening, hTaken⟩ := Taken.of_exchange hFailures hCases
          refine ⟨.accepted, used ++ [e], by simp, rfl, ?_, .accepted :: used, e, rfl, hTaken⟩
          exact List.forall_mem_append.mpr
            ⟨fun x hx => (hUsed x hx).2, List.forall_mem_singleton.mpr hOpening⟩
        · cases h
          refine ⟨.accepted, used ++ [e], by simp, rfl, ?_, .accepted :: used, e, rfl, ?_,
            .inr ⟨fails_of_isLoss hLoss, rfl⟩⟩
          · exact List.forall_mem_append.mpr
              ⟨fun x hx => (hUsed x hx).2, List.forall_mem_singleton.mpr (isOpening_of_isLoss hLoss)⟩
          · exact List.forall_mem_cons.mpr ⟨rfl, fun x hx => (hUsed x hx).1⟩

end

theorem first_failure {before before' after after' : List NetEv} {e e' : NetEv}
    (h : before ++ e :: after = before' ++ e' :: after') (hBefore : ∀ x ∈ before, x.fails = false)
    (hBefore' : ∀ x ∈ before', x.fails = false) (he : e.fails = true) (he' : e'.fails = true) :
    before = before' ∧ e = e' ∧ after = after' := by
  induction before generalizing before' with
  | nil =>
    cases before' with
    | nil =>
      obtain ⟨hHead, hTail⟩ := List.cons.inj h
      exact ⟨rfl, hHead, hTail⟩
    | cons x before' =>
      obtain ⟨rfl, -⟩ := List.cons.inj h
      rw [hBefore' _ List.mem_cons_self] at he
      cases he
  | cons x before ih =>
    rw [List.forall_mem_cons] at hBefore
    cases before' with
    | nil =>
      obtain ⟨rfl, -⟩ := List.cons.inj h
      rw [hBefore.1] at he'
      cases he'
    | cons y before' =>
      obtain ⟨rfl, hTail⟩ := List.cons.inj h
      obtain ⟨rfl, rfl, rfl⟩ := ih hTail hBefore.2 (List.forall_mem_cons.mp hBefore').2
      exact ⟨rfl, rfl, rfl⟩

section

variable {rd : Reader} {c : ValkeyConfig} {client client' : Option Link} {call : ExecuteCall}
  {args : List Arg} {evs rest : List NetEv} {ended : ReadEnd} {o : Outcome} {r : Reply}

theorem close_own (r : Reply) (client : Option Link) : r.own.close client = client := by
  rw [Reply.own]
  cases r.result <;> rfl

theorem execute_of_raises {k : Option Link} (h : attempt rd c args client evs = some (.raises, k, rest)) :
    execute rd c args client evs =
      (attempt rd c args none rest).map fun (e, client, evs) => (e.outcome, e.close client, evs) := by
  rw [execute, h]

theorem execute_of_own (h : attempt rd c args client evs = some (r.own, client', rest)) :
    execute rd c args client evs = some (r.own.outcome, client', rest) := by
  rw [execute, h, Reply.own]
  cases r.result <;> rfl

theorem Handled.attempt_cases (h : Handled rd c call) (hClient : Usable client)
    {before : List NetEv} (hEvs : call.evs = before ++ evs)
    (hAttempt : attempt rd c call.args client evs = some (ended, client', rest)) :
    ∃ used last, evs = used ++ last :: rest ∧ Taken client' ended used last := by
  have hFine : ∀ e ∈ evs, e.Fine rd := fun e he =>
    h.events e (hEvs ▸ List.mem_append_right before he)
  cases client with
  | some k =>
    obtain rfl := hClient k rfl
    obtain ⟨last, hEq, -, hTaken⟩ := attempt_some_cases h.args hFine hAttempt
    exact ⟨[], last, hEq, hTaken⟩
  | none =>
    obtain ⟨opening, others, rfl, -, -, used, last, hUsed, hTaken⟩ :=
      attempt_none_cases h.args h.password hFine
        (fun after hAfter => h.setUp before after (hAfter ▸ hEvs)) hAttempt
    refine ⟨used, last, ?_, hTaken⟩
    rw [← List.cons_append, hUsed, List.append_assoc, List.singleton_append]

/-- A call ends with its first attempt, or its second one follows the first failure. -/
theorem Handled.execute_cases (h : Handled rd c call) (hClient : Usable client)
    (hExecute : execute rd c call.args client call.evs = some (o, client', [])) :
    ((∀ e ∈ call.evs, e.fails = false) ∧ client' = some .idle) ∨
      ∃ used last after, call.evs = used ++ last :: after ∧ (∀ e ∈ used, e.fails = false) ∧
        last.fails = true ∧ ∃ ended k, attempt rd c call.args none after = some (ended, k, []) ∧
          o = ended.outcome ∧ client' = ended.close k := by
  cases hAttempt : attempt rd c call.args client call.evs with
  | none =>
    rw [execute, hAttempt] at hExecute
    cases hExecute
  | some first =>
    obtain ⟨ended, k, rest⟩ := first
    obtain ⟨used, last, hEvs, hUsed, hLast⟩ := h.attempt_cases hClient (List.nil_append _).symm hAttempt
    obtain ⟨r, rfl, rfl, rfl⟩ | ⟨hFails, rfl⟩ := hLast
    · rw [execute_of_own hAttempt] at hExecute
      cases hExecute
      refine .inl ⟨?_, rfl⟩
      rw [hEvs]
      exact List.forall_mem_append.mpr ⟨hUsed, List.forall_mem_singleton.mpr rfl⟩
    · rw [execute_of_raises hAttempt] at hExecute
      obtain ⟨⟨ended, k, after⟩, hSecond, hEq⟩ := Option.map_eq_some_iff.mp hExecute
      cases hEq
      exact .inr ⟨used, last, rest, hEvs, hUsed, hFails, ended, k, hSecond, rfl, rfl⟩

theorem Handled.idle (h : Handled rd c call) (hClient : Usable client)
    (hExecute : execute rd c call.args client call.evs = some (o, client', [])) :
    Usable client' := by
  obtain ⟨-, rfl⟩ | ⟨used, last, after, hEvs, -, -, ended, k, hSecond, -, rfl⟩ :=
    h.execute_cases hClient hExecute
  · rintro k ⟨⟩
    rfl
  · have hAll : call.evs = (used ++ [last]) ++ after := by
      rw [hEvs, List.append_assoc, List.singleton_append]
    obtain ⟨-, -, -, -, ⟨r, -, rfl, rfl⟩ | ⟨-, rfl⟩⟩ :=
      h.attempt_cases (fun k hk => by cases hk) hAll hSecond
    · intro k hk
      rw [close_own] at hk
      exact (Option.some.inj hk).symm
    · intro k hk
      cases hk

theorem Handled.retries (h : Handled rd c call) (hClient : Usable client)
    (hExecute : execute rd c call.args client call.evs = some (o, client', []))
    {before after : List NetEv} {e : NetEv} (hEvs : call.evs = before ++ e :: after)
    (hLoss : e.isLoss = true) (hBefore : ∀ x ∈ before, x.fails = false) :
    (∃ opening others, after = opening :: others ∧ opening.isOpening = true ∧
        ∀ x ∈ others, x.isOpening = false) ∧
      ∃ ended last, attempt rd c call.args none after = some (ended, last, []) ∧ o = ended.outcome := by
  obtain ⟨hNone, -⟩ | ⟨used, last, after', hEvs', hUsed, hFails, ended, k, hSecond, hOutcome, -⟩ :=
    h.execute_cases hClient hExecute
  · have hFails := fails_of_isLoss hLoss
    rw [hNone e (hEvs ▸ List.mem_append_right before List.mem_cons_self)] at hFails
    cases hFails
  · obtain ⟨rfl, rfl, rfl⟩ :=
      first_failure (hEvs ▸ hEvs') hBefore hUsed (fails_of_isLoss hLoss) hFails
    have hAll : call.evs = (before ++ [e]) ++ after := by
      rw [hEvs, List.append_assoc, List.singleton_append]
    obtain ⟨opening, others, hAfter, hOpening, hOthers, -⟩ :=
      attempt_none_cases h.args h.password
        (fun x hx => h.events x (hAll ▸ List.mem_append_right _ hx))
        (fun next hNext => h.setUp (before ++ [e]) next (hNext ▸ hAll)) hSecond
    rw [List.append_nil] at hAfter
    exact ⟨⟨opening, others, hAfter, hOpening, hOthers⟩, ended, k, hSecond, hOutcome⟩

theorem Handled.attempt_up (h : Handled rd c call) (before : List NetEv)
    (hEvs : call.evs = before ++ evs) (hUp : Up c none evs r) :
    attempt rd c call.args none evs = some (r.own, some .idle, []) := by
  cases hUp with
  | opened replies r hLength =>
    have hFine : ∀ e ∈ replies.map NetEv.replied ++ [.replied r], e.Fine rd := fun e he =>
      h.events e (hEvs ▸ List.mem_append_right before (List.mem_cons_of_mem _ he))
    rw [List.forall_mem_append, List.forall_mem_map, List.forall_mem_singleton] at hFine
    have hErrors : ∀ r ∈ replies, r.hasError = false := by
      intro r' hr'
      apply h.setUp before _ hEvs
      rw [List.take_left' (by rw [List.length_map, hLength])]
      exact List.mem_map_of_mem hr'
    obtain ⟨v, hSetUp⟩ := setUp_replied [.replied r] (setup_encodable h.password) hLength
      hFine.1 hErrors
    rw [attempt, connect, hSetUp, Option.map_some]
    dsimp only
    rw [raw_eq h.args, exchange_replied rfl rfl hFine.2]
    rfl

theorem Handled.succeeds (h : Handled rd c call) (hClient : Usable client)
    (hUp : Up c client call.evs r) :
    execute rd c call.args client call.evs = some (r.own.outcome, some .idle, []) := by
  cases client with
  | none => exact execute_of_own (h.attempt_up [] (List.nil_append _).symm hUp)
  | some k =>
    obtain rfl := hClient k rfl
    generalize hEvs : call.evs = evs at hUp
    cases hUp with
    | held r hLost =>
      apply execute_of_own
      rw [attempt, raw_eq h.args, exchange_replied rfl rfl (h.events _ (hEvs ▸ List.mem_cons_self))]
      rfl
    | @again _ e evs _ hLoss hSize hUp =>
      obtain ⟨k', hExchange⟩ := exchange_loss evs (k := .idle) rfl hLoss
        (h.events e (hEvs ▸ List.mem_cons_self)) hSize
      have hFirst : attempt rd c call.args (some .idle) (e :: evs) = some (.raises, some k', evs) := by
        rw [attempt, raw_eq h.args, hExchange]
        rfl
      have hSecond := h.attempt_up [e] hEvs hUp
      rw [execute_of_raises hFirst, hSecond, Option.map_some]
      dsimp only
      rw [close_own]

theorem Handled.recovers (h : Handled rd c call) (hClient : Usable client) :
    Recovers rd c client call where
  retries _ _ hExecute _ _ _ := h.retries hClient hExecute
  leaves _ _ hExecute _ := h.idle hClient hExecute
  succeeds _ := h.succeeds hClient

theorem idle_of_reach (h : Reach (executeStep rd c) (fun _ call => Handled rd c call) none client) :
    Usable client := by
  have hStart : Usable none := fun k hk => by cases hk
  refine h.invariant hStart ?_
  intro client call client' _ hClient hHandled hStep
  rw [executeStep] at hStep
  split at hStep
  · rename_i hExecute
    cases hStep
    exact hHandled.idle hClient hExecute
  · cases hStep

theorem client_recovers
    (h : Reach (executeStep rd c) (fun _ call => Handled rd c call) none client)
    (hCall : Handled rd c call) : Recovers rd c client call :=
  hCall.recovers (idle_of_reach h)

end

def plainReader : Reader := ⟨fun t => t.all fun c => c.toNat < 128, some 65536⟩

def noSetup : ValkeyConfig := ⟨[], 0⟩

def pong : Reply := .simple ⟨['P', 'O', 'N', 'G'], by decide⟩

def ping (evs : List NetEv) : ExecuteCall := ⟨[ascii "PING".toList], evs⟩

theorem ping_handled {evs : List NetEv} (h : ∀ e ∈ evs, e.Fine plainReader) :
    Handled plainReader noSetup (ping evs) where
  args := List.forall_mem_singleton.mpr (ascii_encodable _)
  password := List.forall_mem_nil _
  events := h
  setUp _ _ _ _ hr := absurd hr List.not_mem_nil

/-- A write that fails, and the same call on a new connection. -/
theorem ping_recovers : Recovers plainReader noSetup (some .idle)
    (ping [.unwritten, .accepted, .replied pong]) := by
  have hFirst : Handled plainReader noSetup (ping [.accepted, .replied pong]) :=
    ping_handled (List.forall_mem_cons.mpr ⟨trivial, List.forall_mem_singleton.mpr ⟨rfl, rfl⟩⟩)
  have hReach : Reach (executeStep plainReader noSetup)
      (fun _ call => Handled plainReader noSetup call) none (some .idle) :=
    .tail .refl hFirst (by decide)
  refine client_recovers hReach (ping_handled ?_)
  exact List.forall_mem_cons.mpr ⟨trivial, List.forall_mem_cons.mpr ⟨trivial,
    List.forall_mem_singleton.mpr ⟨rfl, rfl⟩⟩⟩

/-- The stream ends before a reply: no second attempt, and the connection stays. -/
theorem eof_not_retried : ∃ client, run (executeStep plainReader noSetup) none
      [ping [.accepted, .replied pong]] = some client ∧
    execute plainReader noSetup [ascii "PING".toList] client [.lost .closed pong 0] =
      some (.failed, some ⟨[], true, true⟩, []) ∧
    ¬Recovers plainReader noSetup client (ping [.lost .closed pong 0]) := by
  have hFailed : execute plainReader noSetup [ascii "PING".toList] (some .idle) [.lost .closed pong 0] =
      some (.failed, some ⟨[], true, true⟩, []) := rfl
  refine ⟨some .idle, by decide, hFailed, fun hRecovers => ?_⟩
  obtain ⟨⟨opening, others, hNone, -⟩, -⟩ :=
    hRecovers.retries _ _ hFailed [] _ [] rfl rfl (List.forall_mem_nil _)
  cases hNone

end OpenSpoke.Valkey
