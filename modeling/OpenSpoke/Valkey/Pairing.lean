import OpenSpoke.Valkey.Client

/-!
# Replies and their commands

Nothing on the wire says which command a reply is for. The pairing rests on the
bytes that a call leaves unread: none, if it reads its reply to the end or closes
the connection.
-/

namespace OpenSpoke.Valkey

open Lts
open Python (Text)

namespace World

/-- The outcome of a call is the result of the reply to the command that it has sent last,
its own if it returns a value. -/
def Earned (s : World) (n : Nat) : Outcome → Prop
  | .returned v => ∃ c r, (s.call n).cmd = some c ∧ s.sender c = some (n, .own) ∧
      s.reply c = some r ∧ r.result = .ok v
  | .serverError t => ∃ c r stage, (s.call n).cmd = some c ∧ s.sender c = some (n, stage) ∧
      s.reply c = some r ∧ r.result = .error t
  | _ => True

def Paired (s : World) : Prop := ∀ n o, (s.call n).pc = .finished o → s.Earned n o

/-- A line that the loss of the connection has cut short is not taken for a whole value, and an
error is read where its reply ends. -/
def readsWhole (decodes : Text → Bool) (k : Conn) (frames : List Frame) : Bool :=
  match readline k.buffer k.eof with
  | none => true
  | some (line, _) =>
    match parseLine decodes line with
    | .value _ => '\n' ∈ line
    | .error _ => '\n' ∈ line && frames.all (·.left ≤ 1)
    | .bulk size => '\n' ∈ line || 0 < size
    | _ => true

/-- The condition on a step: no call is cancelled between its write and the end of the reply,
and what is read is whole. -/
def undisturbed (decodes : Text → Bool) (s : World) : ValkeyAct → Bool
  | .call n .cancel =>
    match (s.call n).pc with
    | .draining _ _ | .line _ _ _ | .bulk _ _ _ _ => false
    | _ => true
  | .call n .read =>
    match (s.call n).pc with
    | .line _ _ frames => s.conn.all (readsWhole decodes · frames)
    | _ => true
  | _ => true

end World

/-! ## Lines of replies -/

def Reply.tag : Reply → Char
  | .simple _ => '+'
  | .error _ => '-'
  | .int _ => ':'
  | .bulk _ => '$'
  | .nilArray | .array _ => '*'

/-- The line of a reply after its tag. -/
def Reply.body : Reply → Text
  | .simple t | .error t => t.val
  | .int i => Python.decimal i.val
  | .bulk none | .nilArray => Python.decimal (-1)
  | .bulk (some data) => Python.decimal data.length
  | .array elems => Python.decimal elems.length

/-- What follows the first line of a reply. -/
def Reply.payload : Reply → Text
  | .bulk (some data) => data ++ crlf
  | .array elems => encodeAll elems
  | _ => []

theorem Reply.encode_eq (r : Reply) : r.encode = r.tag :: r.body ++ crlf ++ r.payload := by
  cases r with
  | bulk data => cases data <;> simp [encode, tag, body, payload]
  | _ => simp [encode, tag, body, payload]

theorem Reply.newline_not_mem (r : Reply) : '\n' ∉ r.tag :: r.body := by
  have hDecimal := Python.newline_not_mem_decimal
  have hTag : '\n' ≠ r.tag := by cases r <;> simp [tag]
  rw [List.mem_cons, not_or]
  refine ⟨hTag, ?_⟩
  cases r with
  | simple t | error t => exact t.2.2
  | bulk data =>
    cases data with
    | none => exact hDecimal (-1)
    | some data => exact hDecimal data.length
  | int i => exact hDecimal i.val
  | nilArray => exact hDecimal (-1)
  | array elems => exact hDecimal elems.length

@[simp] theorem lineBody_crlf (tag : Char) (body : Text) :
    lineBody (tag :: (body ++ crlf)) = body := by
  simp [lineBody, crlf]

def Reply.header (r : Reply) : Text := r.tag :: r.body ++ crlf

theorem encode_eq_header (r : Reply) : r.encode = r.header ++ r.payload := by
  rw [r.encode_eq, Reply.header]

/-- What the line of a reply says. -/
def Reply.parsed (decodes : Text → Bool) : Reply → Parsed
  | .simple t => if decodes t.val then .value (.text t.val) else .raises
  | .error t => if decodes t.val then .error t.val else .raises
  | .int i => .value (.int i.val)
  | .bulk none | .nilArray => .value .none
  | .bulk (some data) => .bulk (data.length + 2)
  | .array [] => .value (.list [])
  | .array (r :: rs) => .push (r :: rs).length

theorem parseLine_header (decodes : Text → Bool) (r : Reply) :
    parseLine decodes r.header = r.parsed decodes := by
  have hDecimal := Python.parseInt_decimal
  rw [Reply.header, List.cons_append]
  cases r with
  | simple t => simp only [Reply.tag, Reply.body, parseLine, lineBody_crlf, if_true, Reply.parsed]
  | error t =>
    simp only [Reply.tag, Reply.body, parseLine, lineBody_crlf, Char.reduceEq, if_true, if_false,
      Reply.parsed]
  | int i =>
    simp only [Reply.tag, Reply.body, parseLine, lineBody_crlf, hDecimal, Char.reduceEq, if_true,
      if_false, Reply.parsed]
  | nilArray =>
    simp only [Reply.tag, Reply.body, parseLine, lineBody_crlf, hDecimal, Char.reduceEq, if_true,
      if_false, Reply.parsed]
  | bulk data =>
    cases data with
    | none =>
      simp only [Reply.tag, Reply.body, parseLine, lineBody_crlf, hDecimal, Char.reduceEq, if_true,
        if_false, Reply.parsed]
    | some data =>
      have hSize : ¬(data.length : Int) = -1 := by omega
      have hRange : ¬(data.length : Int) + 2 < 0 := by omega
      have hNat : ((data.length : Int) + 2).toNat = data.length + 2 := by omega
      simp only [Reply.tag, Reply.body, parseLine, lineBody_crlf, hDecimal, Char.reduceEq, if_true,
        if_false, hSize, hRange, hNat, Reply.parsed]
  | array elems =>
    have hSize : ¬(elems.length : Int) = -1 := by omega
    cases elems with
    | nil =>
      simp only [Reply.tag, Reply.body, parseLine, lineBody_crlf, hDecimal, Char.reduceEq, if_true,
        if_false, hSize, Reply.parsed]
      rfl
    | cons e elems =>
      have hPos : ¬((e :: elems).length : Int) ≤ 0 := by simp
      simp only [Reply.tag, Reply.body, parseLine, lineBody_crlf, hDecimal, Char.reduceEq, if_true,
        if_false, hSize, hPos, Reply.parsed]
      rfl

theorem append_cons_inj {c : Char} {a b s t : Text} (ha : c ∉ a) (hb : c ∉ b)
    (h : a ++ c :: s = b ++ c :: t) : a = b ∧ s = t := by
  induction a generalizing b with
  | nil =>
    cases b with
    | nil => exact ⟨rfl, (List.cons.inj h).2⟩
    | cons d b => exact absurd ((List.cons.inj h).1 ▸ List.mem_cons_self) hb
  | cons d a ih =>
    cases b with
    | nil => exact absurd ((List.cons.inj h).1 ▸ List.mem_cons_self) ha
    | cons e b =>
      obtain ⟨rfl, hTails⟩ := List.cons.inj h
      obtain ⟨rfl, hRest⟩ := ih (fun hMem => ha (List.mem_cons_of_mem _ hMem))
        (fun hMem => hb (List.mem_cons_of_mem _ hMem)) hTails
      exact ⟨rfl, hRest⟩

/-- A line that has arrived is the first one that was sent. -/
theorem readline_of_mem {buffer rest header tail : Text} {eof : Bool} (hMem : '\n' ∈ buffer)
    (hEq : buffer ++ rest = header ++ crlf ++ tail) (hHeader : '\n' ∉ header) :
    ∃ buffer', readline buffer eof = some (header ++ crlf, buffer') ∧ buffer' ++ rest = tail := by
  obtain ⟨before, after, rfl, hBefore⟩ := List.eq_append_cons_of_mem hMem
  have hAll : ∀ c ∈ before, decide (c ≠ '\n') = true := fun c hc =>
    decide_eq_true fun hEq => hBefore (hEq ▸ hc)
  have hStart : '\n' ∉ header ++ ['\r'] := by simpa using hHeader
  have hEq : before ++ '\n' :: (after ++ rest) = (header ++ ['\r']) ++ '\n' :: tail := by
    simpa [crlf] using hEq
  obtain ⟨rfl, hTail⟩ := append_cons_inj hBefore hStart hEq
  refine ⟨after, ?_, hTail⟩
  rw [readline, if_pos hMem, List.takeWhile_append_of_pos hAll, List.dropWhile_append_of_pos hAll]
  simp [crlf]

theorem readline_eq_some {buffer line buffer' : Text} {eof : Bool}
    (h : readline buffer eof = some (line, buffer')) (hMem : '\n' ∉ buffer) :
    eof = true ∧ line = buffer ∧ buffer' = [] := by
  simp only [readline, hMem, if_false] at h
  split at h
  next hEof =>
    cases h
    exact ⟨hEof, rfl, rfl⟩
  next => cases h

/-! ## What is unread -/

/-- Nothing is to come on the connection. -/
structure Conn.Clean (k : Conn) : Prop where
  buffer : k.buffer = []
  wire : k.wire = []
  asked : k.eof = false → k.asked = []

/-- These bytes are to come, unless the connection is lost, and no others. -/
def Conn.Fed (k : Conn) (expected : Text) : Prop :=
  ∃ missing, k.buffer ++ k.wire ++ missing = expected ∧
    (k.eof = false → missing = [] ∧ k.asked = []) ∧ (k.eof = true → k.wire = [])

/-- The connection is lost and nothing is to come. -/
structure Conn.Over (k : Conn) : Prop where
  eof : k.eof = true
  buffer : k.buffer = []
  wire : k.wire = []

theorem Conn.Over.clean {k : Conn} (h : k.Over) : k.Clean where
  buffer := h.buffer
  wire := h.wire
  asked hOpen := by
    rw [h.eof] at hOpen
    cases hOpen

theorem Conn.Fed.clean {k : Conn} (h : k.Fed []) : k.Clean := by
  obtain ⟨missing, hEq, hOpen, -⟩ := h
  simp only [List.append_eq_nil_iff] at hEq
  exact ⟨hEq.1.1, hEq.1.2, fun hEof => (hOpen hEof).2⟩

theorem Conn.Fed.readline {k : Conn} {r : Reply} {tail : Text} (h : k.Fed (r.encode ++ tail))
    (hMem : '\n' ∈ k.buffer) :
    ∃ buffer, Valkey.readline k.buffer k.eof = some (r.tag :: r.body ++ crlf, buffer) ∧
      Conn.Fed { k with buffer := buffer } (r.payload ++ tail) := by
  obtain ⟨missing, hEq, hOpen, hEof⟩ := h
  rw [r.encode_eq, List.append_assoc, List.append_assoc _ r.payload] at hEq
  obtain ⟨buffer, hRead, hRest⟩ := readline_of_mem hMem hEq r.newline_not_mem
  exact ⟨buffer, hRead, missing, by simpa using hRest, hOpen, hEof⟩

theorem Conn.Fed.readexactly {k : Conn} {data tail : Text} (h : k.Fed (data ++ crlf ++ tail))
    (hLength : data.length + 2 ≤ k.buffer.length) :
    k.buffer.take data.length = data ∧
      Conn.Fed { k with buffer := k.buffer.drop (data.length + 2) } tail := by
  obtain ⟨missing, hEq, hOpen, hEof⟩ := h
  rw [List.append_assoc] at hEq
  have hTake := congrArg (List.take data.length) hEq
  have hDrop := congrArg (List.drop (data.length + 2)) hEq
  rw [List.take_append_of_le_length (by omega)] at hTake
  rw [List.drop_append_of_le_length hLength] at hDrop
  refine ⟨by simpa using hTake, missing, ?_, hOpen, hEof⟩
  simpa [crlf, List.append_assoc] using hDrop

theorem Conn.Fed.arrive {k : Conn} {expected : Text} (h : k.Fed expected) (size : Nat) :
    Conn.Fed { k with wire := k.wire.drop size, buffer := k.buffer ++ k.wire.take size } expected := by
  obtain ⟨missing, hEq, hOpen, hEof⟩ := h
  refine ⟨missing, ?_, hOpen, fun h => ?_⟩
  · rw [List.append_assoc k.buffer, List.take_append_drop, hEq]
  · simp [hEof h]

theorem Conn.Over.arrive {k : Conn} (h : k.Over) (size : Nat) :
    Conn.Over { k with wire := k.wire.drop size, buffer := k.buffer ++ k.wire.take size } :=
  ⟨h.eof, by simp [h.buffer, h.wire], by simp [h.wire]⟩

theorem Conn.Fed.lose {k : Conn} {expected : Text} (h : k.Fed expected) :
    Conn.Fed { k with wire := [], eof := true } expected := by
  obtain ⟨missing, hEq, -, -⟩ := h
  exact ⟨k.wire ++ missing, by simpa using hEq, fun h => (nomatch h), fun _ => rfl⟩

namespace World

/-- The bytes of the reply to `c`, from the line on that the call reads next. -/
def AwaitsLine (s : World) (k : Conn) (c : Nat) (frames : List Frame) : Prop :=
  (frames = [] ∧ s.reply c = none ∧ k.buffer = [] ∧ k.wire = [] ∧
    (k.eof = false → k.asked = [c])) ∨ k.Over ∨
  ∃ (r cur : Reply) (rests : List (List Reply)), s.reply c = some r ∧
    k.Fed (cur.encode ++ encodeRests rests) ∧ Counts frames rests ∧
    r.result = resume frames rests cur.result

/-- The same from a bulk string on. -/
def AwaitsBulk (s : World) (k : Conn) (c : Nat) (size : Nat) (frames : List Frame) : Prop :=
  (k.Over ∧ 0 < size) ∨ ∃ r data rests, s.reply c = some r ∧ size = data.length + 2 ∧
    k.Fed (data ++ crlf ++ encodeRests rests) ∧ Counts frames rests ∧
    r.result = resume frames rests (.ok (.bytes data))

/-- `k` is the connection and `c` the command that the call has sent last. -/
structure Owns (s : World) (n : Nat) (stage : Stage) (k : Conn) (c : Nat) : Prop where
  conn : s.conn = some k
  cmd : (s.call n).cmd = some c
  sender : s.sender c = some (n, stage)

/-- The call that has the lock. -/
def Busy (s : World) (n : Nat) : Prop :=
  match (s.call n).pc with
  | .opening _ => s.conn = none
  | .draining _ stage => ∃ k c, s.Owns n stage k c ∧ s.AwaitsLine k c []
  | .line _ stage frames => ∃ k c, s.Owns n stage k c ∧ s.AwaitsLine k c frames
  | .bulk _ stage size frames => ∃ k c, s.Owns n stage k c ∧ s.AwaitsBulk k c size frames
  | _ => False

/-- What holds while the call `n` is at work, whatever its connection is like. -/
structure Held (s : World) (n : Nat) : Prop where
  lock : s.lock = some n
  known : n < s.nextCall
  others : ∀ m, m ≠ n → (s.call m).pc.holds = false
  fresh : ∀ m, s.nextCall ≤ m → (s.call m).pc = .absent
  unsent : ∀ c, s.nextCmd ≤ c → s.reply c = none ∧ s.sender c = none
  paired : s.Paired

structure Sound (s : World) : Prop where
  idle : s.lock = none → ∀ k, s.conn = some k → k.Clean
  busy : ∀ n, s.lock = some n → s.Busy n
  holder : ∀ n, (s.call n).pc.holds = true → s.lock = some n
  fresh : ∀ n, s.nextCall ≤ n → (s.call n).pc = .absent
  unsent : ∀ c, s.nextCmd ≤ c → s.reply c = none ∧ s.sender c = none
  paired : s.Paired

section Steps

variable {s : World} {n : Nat}

theorem Sound.held (hs : s.Sound) (h : s.lock = some n) : s.Held n := by
  refine ⟨h, ?_, fun m hne => ?_, hs.fresh, hs.unsent, hs.paired⟩
  · by_contra hLe
    have hBusy := hs.busy n h
    rw [Busy, hs.fresh n (Nat.le_of_not_lt hLe)] at hBusy
    exact hBusy
  · refine Bool.eq_false_iff.mpr fun hHolds => hne ?_
    exact Option.some.inj ((hs.holder m hHolds).symm.trans h)

theorem Busy.imp {t : World} (h : s.Busy n) (hPc : (t.call n).pc = (s.call n).pc)
    (hConn : s.conn = none → t.conn = none)
    (hLine : ∀ {stage k c frames}, s.Owns n stage k c → s.AwaitsLine k c frames →
      ∃ k', t.Owns n stage k' c ∧ t.AwaitsLine k' c frames)
    (hBulk : ∀ {stage k c size frames}, s.Owns n stage k c → s.AwaitsBulk k c size frames →
      ∃ k', t.Owns n stage k' c ∧ t.AwaitsBulk k' c size frames) : t.Busy n := by
  simp only [Busy, hPc] at h ⊢
  split at h
  · exact hConn h
  · obtain ⟨k, c, hOwn, hAwaits⟩ := h
    obtain ⟨k', hNew⟩ := hLine hOwn hAwaits
    exact ⟨k', c, hNew⟩
  · obtain ⟨k, c, hOwn, hAwaits⟩ := h
    obtain ⟨k', hNew⟩ := hLine hOwn hAwaits
    exact ⟨k', c, hNew⟩
  · obtain ⟨k, c, hOwn, hAwaits⟩ := h
    obtain ⟨k', hNew⟩ := hBulk hOwn hAwaits
    exact ⟨k', c, hNew⟩
  · exact h

/-- A call of its own state and of commands that have been answered keeps its outcome. -/
theorem Earned.congr {t : World} {o : Outcome} (h : s.Earned n o)
    (hCmd : (t.call n).cmd = (s.call n).cmd)
    (hSender : ∀ c x, s.sender c = some x → t.sender c = some x)
    (hReply : ∀ c r, s.reply c = some r → t.reply c = some r) : t.Earned n o := by
  cases o with
  | returned v =>
    obtain ⟨c, r, hc, hSent, hr, hv⟩ := h
    exact ⟨c, r, hCmd.trans hc, hSender c _ hSent, hReply c r hr, hv⟩
  | serverError t =>
    obtain ⟨c, r, stage, hc, hSent, hr, he⟩ := h
    exact ⟨c, r, stage, hCmd.trans hc, hSender c _ hSent, hReply c r hr, he⟩
  | _ => trivial

theorem Held.callTo (hs : s.Held n) {pc : CallPc} (hPc : pc.holds = true)
    (hBusy : (s.callTo n pc).Busy n) : (s.callTo n pc).Sound := by
  refine ⟨fun h => ?_, fun m h => ?_, fun m h => ?_, fun m h => ?_, hs.unsent, fun m o h => ?_⟩
  · rw [callTo_lock, hs.lock] at h
    cases h
  · rw [callTo_lock, hs.lock] at h
    cases h
    exact hBusy
  · rcases eq_or_ne m n with rfl | hne
    · exact hs.lock
    · simp [hne, hs.others m hne] at h
  · have hne : m ≠ n := fun hEq => Nat.not_lt.mpr h (hEq ▸ hs.known)
    simpa [hne] using hs.fresh m h
  · rcases eq_or_ne m n with rfl | hne
    · simp only [callTo_call, Function.update_self] at h
      rw [h] at hPc
      cases hPc
    · have hOther : (s.call m).pc = .finished o := by simpa [hne] using h
      exact (hs.paired m o hOther).congr (by simp [hne]) (fun _ _ h => h) fun _ _ h => h

theorem Held.finish (hs : s.Held n) (hConn : ∀ k, s.conn = some k → k.Clean) {o : Outcome}
    (ho : s.Earned n o) : (s.finish n o).Sound := by
  refine ⟨fun _ => hConn, fun m h => (nomatch h), fun m h => ?_, fun m h => ?_, hs.unsent,
    fun m o' h => ?_⟩
  · rcases eq_or_ne m n with rfl | hne
    · simp [CallPc.holds] at h
    · simp [hne, hs.others m hne] at h
  · have hne : m ≠ n := fun hEq => Nat.not_lt.mpr h (hEq ▸ hs.known)
    simpa [hne] using hs.fresh m h
  · rcases eq_or_ne m n with rfl | hne
    · simp only [finish_call, Function.update_self, CallPc.finished.injEq] at h
      subst h
      exact ho.congr (by simp) (fun _ _ h => h) fun _ _ h => h
    · have hOther : (s.call m).pc = .finished o' := by simpa [hne] using h
      exact (hs.paired m o' hOther).congr (by simp [hne]) (fun _ _ h => h) fun _ _ h => h

theorem Held.send (hs : s.Held n) {k : Conn} (hk : k.Clean) (again : Bool) (stage : Stage) :
    (s.send n k again stage).Sound := by
  obtain ⟨hReply, hSender⟩ := hs.unsent s.nextCmd (Nat.le_refl _)
  have hOld : ∀ c x, s.sender c = some x →
      Function.update s.sender s.nextCmd (some (n, stage)) c = some x := by
    intro c x hc
    have hne : c ≠ s.nextCmd := fun hEq => by simp [hEq, hSender] at hc
    rw [Function.update_of_ne hne, hc]
  refine ⟨fun h => ?_, fun m h => ?_, fun m h => ?_, fun m h => ?_, fun c hc => ?_,
    fun m o h => ?_⟩
  · rw [send_lock, hs.lock] at h
    cases h
  · rw [send_lock, hs.lock] at h
    cases h
    have hPc : ((s.send n k again stage).call n).pc = .draining again stage := by simp
    rw [Busy, hPc]
    refine ⟨{ k with asked := k.asked ++ [s.nextCmd] }, s.nextCmd, ⟨rfl, by simp, by simp⟩, .inl ?_⟩
    refine ⟨rfl, hReply, hk.buffer, hk.wire, fun hEof => ?_⟩
    simp [hk.asked hEof]
  · rcases eq_or_ne m n with rfl | hne
    · exact hs.lock
    · simp [hne, hs.others m hne] at h
  · have hne : m ≠ n := fun hEq => Nat.not_lt.mpr h (hEq ▸ hs.known)
    simpa [hne] using hs.fresh m h
  · have hLe : s.nextCmd + 1 ≤ c := hc
    have hne : c ≠ s.nextCmd := by omega
    have hUnsent := hs.unsent c (by omega)
    exact ⟨hUnsent.1, by simpa [hne] using hUnsent.2⟩
  · rcases eq_or_ne m n with rfl | hne
    · simp at h
    · have hOther : (s.call m).pc = .finished o := by simpa [hne] using h
      exact (hs.paired m o hOther).congr (by simp [hne]) hOld fun _ _ h => h

theorem Held.withConn (hs : s.Held n) (conn : Option Conn) : ({ s with conn := conn }).Held n :=
  ⟨hs.lock, hs.known, hs.others, hs.fresh, hs.unsent, hs.paired⟩

theorem Held.start (hs : s.Held n) (hConn : ∀ k, s.conn = some k → k.Clean) (again : Bool) :
    (s.start n again).Sound := by
  simp only [World.start]
  split
  next hNone =>
    refine hs.callTo rfl ?_
    simp [Busy, hNone]
  next k hk => exact hs.send (hConn k hk) again .own

theorem Held.broken (hs : s.Held n) (again : Bool) : (s.broken n again).Sound := by
  simp only [World.broken]
  split
  · exact (hs.withConn none).finish (fun _ h => (nomatch h)) trivial
  · exact (hs.withConn none).start (fun _ h => (nomatch h)) true

theorem Held.goesOn (hs : s.Held n) {k : Conn} {c : Nat} {stage : Stage}
    (hOwn : (s.call n).cmd = some c ∧ s.sender c = some (n, stage)) {frames : List Frame}
    (hAwaits : s.AwaitsLine k c frames) (again : Bool) :
    (({ s with conn := some k } : World).callTo n (.line again stage frames)).Sound := by
  refine (hs.withConn (some k)).callTo rfl ?_
  have hPc : ((({ s with conn := some k } : World).callTo n (.line again stage frames)).call n).pc =
      .line again stage frames := by simp
  rw [Busy, hPc]
  exact ⟨k, c, ⟨rfl, by simpa using hOwn.1, hOwn.2⟩, hAwaits⟩

theorem Held.goesOnBulk (hs : s.Held n) {k : Conn} {c : Nat} {stage : Stage} {size : Nat}
    (hOwn : (s.call n).cmd = some c ∧ s.sender c = some (n, stage)) {frames : List Frame}
    (hAwaits : s.AwaitsBulk k c size frames) (again : Bool) :
    (({ s with conn := some k } : World).callTo n (.bulk again stage size frames)).Sound := by
  refine (hs.withConn (some k)).callTo rfl ?_
  have hPc : ((({ s with conn := some k } : World).callTo n
      (.bulk again stage size frames)).call n).pc = .bulk again stage size frames := by simp
  rw [Busy, hPc]
  exact ⟨k, c, ⟨rfl, by simpa using hOwn.1, hOwn.2⟩, hAwaits⟩

theorem Held.took_value (hs : s.Held n) {k : Conn} {c : Nat} {stage : Stage}
    (hOwn : (s.call n).cmd = some c ∧ s.sender c = some (n, stage)) {frames : List Frame}
    {rests : List (List Reply)} {r : Reply} {v : Value} (hReply : s.reply c = some r)
    (hFed : k.Fed (encodeRests rests)) (hCounts : Counts frames rests)
    (hResult : r.result = resume frames rests (.ok v)) (again : Bool) :
    (s.took n k again stage frames (.value v)).Sound := by
  have hSpec := settle_spec hCounts v
  simp only [World.took]
  cases hSettle : settle frames v with
  | inl w =>
    rw [hSettle] at hSpec
    obtain ⟨hDone, hValue⟩ := hSpec
    rw [hDone] at hFed
    cases stage with
    | auth => exact hs.send hFed.clean again _
    | select => exact hs.send hFed.clean again _
    | own =>
      refine (hs.withConn (some k)).finish (fun k' hk => ?_) ?_
      · cases hk
        exact hFed.clean
      · exact ⟨c, r, hOwn.1, hOwn.2, hReply, hResult.trans hValue⟩
  | inr frames' =>
    rw [hSettle] at hSpec
    obtain ⟨cur, rests', hCounts', hEncode, hResume⟩ := hSpec
    rw [hEncode] at hFed
    exact hs.goesOn hOwn
      (.inr (.inr ⟨r, cur, rests', hReply, hFed, hCounts', hResult.trans hResume⟩)) again

theorem Held.took_line (hs : s.Held n) {decodes : Text → Bool} {k : Conn} {c : Nat} {stage : Stage}
    (hOwn : (s.call n).cmd = some c ∧ s.sender c = some (n, stage)) {frames : List Frame}
    {rests : List (List Reply)} {r cur : Reply} (hReply : s.reply c = some r)
    (hFed : k.Fed (cur.payload ++ encodeRests rests)) (hCounts : Counts frames rests)
    (hResult : r.result = resume frames rests cur.result)
    (hError : ∀ t, parseLine decodes cur.header = .error t → ∀ f ∈ frames, f.left ≤ 1)
    (again : Bool) : (s.took n k again stage frames (parseLine decodes cur.header)).Sound := by
  have hValue : ∀ {v}, cur.result = .ok v → cur.payload = [] →
      (s.took n k again stage frames (.value v)).Sound := fun hv hPayload => by
    rw [hPayload] at hFed
    rw [hv] at hResult
    exact hs.took_value hOwn hReply hFed hCounts hResult again
  rw [parseLine_header] at hError ⊢
  cases cur with
  | simple t =>
    rw [Reply.parsed]
    split
    · exact hValue rfl rfl
    · exact hs.broken again
  | error t =>
    rw [Reply.parsed] at hError ⊢
    split
    next hDecodes =>
      have hLast := hError t.val (if_pos hDecodes)
      have hDone : k.Clean := by
        rw [encodeRests_of_last hCounts hLast] at hFed
        exact hFed.clean
      refine (hs.withConn (some k)).finish (fun k' hk => ?_) ?_
      · cases hk
        exact hDone
      · exact ⟨c, r, stage, hOwn.1, hOwn.2, hReply, hResult.trans (resume_error _ _ _)⟩
    next => exact hs.broken again
  | int i => exact hValue rfl rfl
  | nilArray => exact hValue rfl rfl
  | bulk data =>
    cases data with
    | none => exact hValue rfl rfl
    | some data =>
      exact hs.goesOnBulk hOwn (.inr ⟨r, data, rests, hReply, rfl, hFed, hCounts, hResult⟩) again
  | array elems =>
    cases elems with
    | nil => exact hValue rfl rfl
    | cons e elems =>
      refine hs.goesOn hOwn (.inr (.inr ⟨r, e, elems :: rests, hReply, ?_, .cons (by simp) hCounts,
        hResult.trans (resume_array _ _ _ _)⟩)) again
      simpa [Reply.payload, encodeAll, encodeRests] using hFed

/-! ### The connection -/

theorem Sound.serve (hs : s.Sound) {k k' : Conn} (hk : s.conn = some k)
    {reply : Nat → Option Reply} (hOld : ∀ c r, s.reply c = some r → reply c = some r)
    (hUnsent : ∀ c, s.nextCmd ≤ c → reply c = none) (hClean : k.Clean → k'.Clean)
    (hLine : ∀ c frames, s.AwaitsLine k c frames →
      ({ s with conn := some k', reply := reply } : World).AwaitsLine k' c frames)
    (hBulk : ∀ c size frames, s.AwaitsBulk k c size frames →
      ({ s with conn := some k', reply := reply } : World).AwaitsBulk k' c size frames) :
    ({ s with conn := some k', reply := reply } : World).Sound := by
  refine ⟨fun h k'' hk'' => ?_, fun n h => ?_, hs.holder, hs.fresh, fun c hc => ?_, fun n o h => ?_⟩
  · cases hk''
    exact hClean (hs.idle h k hk)
  · refine (hs.busy n h).imp rfl (fun hNone => ?_) (fun hOwn hAwaits => ?_) fun hOwn hAwaits => ?_
    · rw [hk] at hNone
      cases hNone
    · cases Option.some.inj (hOwn.conn.symm.trans hk)
      exact ⟨k', ⟨rfl, hOwn.cmd, hOwn.sender⟩, hLine _ _ hAwaits⟩
    · cases Option.some.inj (hOwn.conn.symm.trans hk)
      exact ⟨k', ⟨rfl, hOwn.cmd, hOwn.sender⟩, hBulk _ _ _ hAwaits⟩
  · exact ⟨hUnsent c hc, (hs.unsent c hc).2⟩
  · exact (hs.paired n o h).congr rfl (fun _ _ h => h) hOld

end Steps

theorem Sound.arrive {s : World} (hs : s.Sound) {k : Conn} (hk : s.conn = some k) (size : Nat) :
    ({ s with
        conn := some
          { k with
            wire := k.wire.drop size
            buffer := k.buffer ++ k.wire.take size } } : World).Sound := by
  refine hs.serve hk (fun _ _ h => h) (fun c hc => (hs.unsent c hc).1) (fun h => ?_)
    (fun c frames h => ?_) fun c size frames h => ?_
  · exact ⟨by simp [h.buffer, h.wire], by simp [h.wire], h.asked⟩
  · rcases h with ⟨hFrames, hNone, hBuffer, hWire, hAsked⟩ | hOver |
      ⟨r, cur, rests, hReply, hFed, hRest⟩
    · exact .inl ⟨hFrames, hNone, by simp [hBuffer, hWire], by simp [hWire], hAsked⟩
    · exact .inr (.inl (hOver.arrive size))
    · exact .inr (.inr ⟨r, cur, rests, hReply, hFed.arrive _, hRest⟩)
  · rcases h with ⟨hOver, hSize⟩ | ⟨r, data, rests, hReply, hSize, hFed, hRest⟩
    · exact .inl ⟨hOver.arrive _, hSize⟩
    · exact .inr ⟨r, data, rests, hReply, hSize, hFed.arrive _, hRest⟩

theorem Sound.lose {s : World} (hs : s.Sound) {k : Conn} (hk : s.conn = some k) :
    ({ s with conn := some { k with wire := [], eof := true } } : World).Sound := by
  refine hs.serve hk (fun _ _ h => h) (fun c hc => (hs.unsent c hc).1) (fun h => ?_)
    (fun c frames h => ?_) fun c size frames h => ?_
  · exact ⟨h.buffer, rfl, fun h => (nomatch h)⟩
  · rcases h with ⟨hFrames, hNone, hBuffer, hWire, hAsked⟩ | hOver |
      ⟨r, cur, rests, hReply, hFed, hRest⟩
    · exact .inl ⟨hFrames, hNone, hBuffer, rfl, fun h => (nomatch h)⟩
    · exact .inr (.inl ⟨rfl, hOver.buffer, rfl⟩)
    · exact .inr (.inr ⟨r, cur, rests, hReply, hFed.lose, hRest⟩)
  · rcases h with ⟨hOver, hSize⟩ | ⟨r, data, rests, hReply, hSize, hFed, hRest⟩
    · exact .inl ⟨⟨rfl, hOver.buffer, rfl⟩, hSize⟩
    · exact .inr ⟨r, data, rests, hReply, hSize, hFed.lose, hRest⟩

/-- What the server is to answer is the command of the call that has the lock. -/
theorem Sound.asked {s : World} (hs : s.Sound) {c : Nat} {asked : List Nat} {wire buffer : Text}
    (hk : s.conn = some ⟨c :: asked, wire, buffer, false⟩) :
    asked = [] ∧ s.reply c = none ∧ s.sender c ≠ none := by
  cases hLock : s.lock with
  | none => exact absurd ((hs.idle hLock _ hk).asked rfl) (List.cons_ne_nil _ _)
  | some n =>
    have hLine : ∀ {stage k c' frames}, s.Owns n stage k c' → s.AwaitsLine k c' frames →
        asked = [] ∧ s.reply c = none ∧ s.sender c ≠ none := by
      intro stage k c' frames hOwn hAwaits
      cases Option.some.inj (hOwn.conn.symm.trans hk)
      rcases hAwaits with ⟨-, hNone, -, -, hAsked⟩ | ⟨hEof, -, -⟩ |
        ⟨r, cur, rests, -, ⟨_, _, hOpen, _⟩, -⟩
      · obtain ⟨rfl, rfl⟩ := List.cons.inj (hAsked rfl)
        exact ⟨rfl, hNone, by rw [hOwn.sender]; simp⟩
      · cases hEof
      · exact absurd (hOpen rfl).2 (List.cons_ne_nil _ _)
    have hBusy := hs.busy n hLock
    simp only [Busy] at hBusy
    split at hBusy
    · rw [hk] at hBusy
      cases hBusy
    · obtain ⟨k, c', hOwn, hAwaits⟩ := hBusy
      exact hLine hOwn hAwaits
    · obtain ⟨k, c', hOwn, hAwaits⟩ := hBusy
      exact hLine hOwn hAwaits
    · obtain ⟨k, c', hOwn, hAwaits⟩ := hBusy
      cases Option.some.inj (hOwn.conn.symm.trans hk)
      rcases hAwaits with ⟨⟨hEof, -, -⟩, -⟩ | ⟨r, data, rests, -, -, ⟨_, _, hOpen, _⟩, -⟩
      · cases hEof
      · exact absurd (hOpen rfl).2 (List.cons_ne_nil _ _)
    · exact hBusy.elim

theorem Sound.answer {s : World} (hs : s.Sound) {c : Nat} {asked : List Nat} {wire buffer : Text}
    (hk : s.conn = some ⟨c :: asked, wire, buffer, false⟩) (r : Reply) :
    ({ s with
        conn := some ⟨asked, wire ++ r.encode, buffer, false⟩
        reply := Function.update s.reply c (some r) } : World).Sound := by
  obtain ⟨rfl, hNone, hSent⟩ := hs.asked hk
  have hOld : ∀ c' r', s.reply c' = some r' → Function.update s.reply c (some r) c' = some r' := by
    intro c' r' h
    have hne : c' ≠ c := fun hEq => by simp [hEq, hNone] at h
    rw [Function.update_of_ne hne, h]
  refine hs.serve hk hOld (fun c' hc => ?_) (fun h => ?_) (fun c' frames h => ?_)
    fun c' size frames h => ?_
  · obtain ⟨hReply, hSender⟩ := hs.unsent c' hc
    have hne : c' ≠ c := fun hEq => hSent (hEq ▸ hSender)
    rw [Function.update_of_ne hne, hReply]
  · exact absurd (h.asked rfl) (List.cons_ne_nil _ _)
  · rcases h with ⟨rfl, -, hBuffer, hWire, hAsked⟩ | ⟨hEof, -, -⟩ |
      ⟨r', cur, rests, -, ⟨_, _, hOpen, _⟩, -⟩
    · obtain ⟨rfl, -⟩ := List.cons.inj (hAsked rfl)
      refine .inr (.inr ⟨r, r, [], Function.update_self .., ⟨[], ?_, fun _ => ⟨rfl, rfl⟩, ?_⟩,
        .nil, rfl⟩)
      · have hBuffer : buffer = [] := hBuffer
        have hWire : wire = [] := hWire
        simp [hBuffer, hWire, encodeRests]
      · exact fun h => absurd h Bool.false_ne_true
    · cases hEof
    · exact absurd (hOpen rfl).2 (List.cons_ne_nil _ _)
  · rcases h with ⟨⟨hEof, -, -⟩, -⟩ | ⟨r', data, rests, -, -, ⟨_, _, hOpen, _⟩, -⟩
    · cases hEof
    · exact absurd (hOpen rfl).2 (List.cons_ne_nil _ _)

/-! ### The calls -/

section Steps

variable {s : World} {n : Nat} {decodes : Text → Bool}

theorem Sound.readLine (hs : s.Sound) {again : Bool} {stage : Stage} {frames : List Frame}
    (hPc : (s.call n).pc = .line again stage frames)
    (hOk : s.undisturbed decodes (.call n .read) = true) {k : Conn} (hk : s.conn = some k)
    {line buffer : Text} (hRead : readline k.buffer k.eof = some (line, buffer)) :
    (s.took n { k with buffer := buffer } again stage frames (parseLine decodes line)).Sound := by
  have hLock := hs.holder n (by rw [hPc]; rfl)
  have hHeld := hs.held hLock
  have hBusy := hs.busy n hLock
  simp only [Busy, hPc] at hBusy
  obtain ⟨k', c, hOwn, hAwaits⟩ := hBusy
  cases Option.some.inj (hOwn.conn.symm.trans hk)
  simp only [undisturbed, hPc, hk, Option.all_some, readsWhole, hRead] at hOk
  by_cases hMem : '\n' ∈ k.buffer
  · rcases hAwaits with ⟨-, -, hEmpty, -⟩ | hOver | ⟨r, cur, rests, hReply, hFed, hCounts, hResult⟩
    · rw [hEmpty] at hMem
      cases hMem
    · rw [hOver.buffer] at hMem
      cases hMem
    · obtain ⟨rest, hFirst, hRest⟩ := hFed.readline hMem
      obtain ⟨rfl, rfl⟩ := Prod.mk.inj (Option.some.inj (hFirst.symm.trans hRead))
      refine hHeld.took_line ⟨hOwn.cmd, hOwn.sender⟩ hReply hRest hCounts hResult
        (fun t hParse => ?_) again
      rw [Reply.header] at hParse
      rw [hParse] at hOk
      simpa using ((Bool.and_eq_true _ _).mp hOk).2
  · obtain ⟨hEof, rfl, rfl⟩ := readline_eq_some hRead hMem
    have hOver : Conn.Over { k with buffer := [] } := by
      refine ⟨hEof, rfl, ?_⟩
      rcases hAwaits with ⟨-, -, -, hWire, -⟩ | hOver | ⟨r, cur, rests, -, ⟨_, _, _, hWire⟩, -⟩
      · exact hWire
      · exact hOver.wire
      · exact hWire hEof
    cases hParse : parseLine decodes k.buffer with
    | value v => simp [hParse, hMem] at hOk
    | error t => simp [hParse, hMem] at hOk
    | invalid =>
      refine (hHeld.withConn _).finish (fun k' hk' => ?_) trivial
      cases hk'
      exact hOver.clean
    | raises => exact hHeld.broken again
    | push size => exact hHeld.goesOn ⟨hOwn.cmd, hOwn.sender⟩ (.inr (.inl hOver)) again
    | bulk size =>
      have hSize : 0 < size := by simpa [hParse, hMem] using hOk
      exact hHeld.goesOnBulk ⟨hOwn.cmd, hOwn.sender⟩ (.inl ⟨hOver, hSize⟩) again

theorem Sound.known (hs : s.Sound) (h : (s.call n).pc ≠ .absent) : n < s.nextCall := by
  by_contra hLe
  exact h (hs.fresh n (Nat.le_of_not_lt hLe))

theorem Sound.apart (hs : s.Sound) {pc : CallPc} {cmd : Option Nat} {nextCall : Nat}
    (hOld : (s.call n).pc.holds = false) (hNew : pc = .waiting ∨ pc = .finished .cancelled)
    (hKnown : n < nextCall) (hLe : s.nextCall ≤ nextCall) :
    ({ s with call := Function.update s.call n ⟨pc, cmd⟩, nextCall := nextCall } : World).Sound := by
  have hHolds : pc.holds = false := by rcases hNew with rfl | rfl <;> rfl
  have hOthers : ∀ m, s.lock = some m → m ≠ n := by
    rintro m hLock rfl
    have hBusy := hs.busy m hLock
    cases hPc : (s.call m).pc <;> simp [Busy, hPc, CallPc.holds] at hBusy hOld
  refine ⟨hs.idle, fun m h => ?_, fun m h => ?_, fun m h => ?_, hs.unsent, fun m o h => ?_⟩
  · have hne := hOthers m h
    refine (hs.busy m h).imp (by simp [hne]) (fun hNone => hNone) (fun hOwn hAwaits => ?_)
      fun hOwn hAwaits => ?_
    · exact ⟨_, ⟨hOwn.conn, by simpa [hne] using hOwn.cmd, hOwn.sender⟩, hAwaits⟩
    · exact ⟨_, ⟨hOwn.conn, by simpa [hne] using hOwn.cmd, hOwn.sender⟩, hAwaits⟩
  · rcases eq_or_ne m n with rfl | hne
    · simp [hHolds] at h
    · exact hs.holder m (by simpa [hne] using h)
  · have hFar : nextCall ≤ m := h
    have hne : m ≠ n := by omega
    simpa [hne] using hs.fresh m (Nat.le_trans hLe hFar)
  · rcases eq_or_ne m n with rfl | hne
    · have hFinished : pc = .finished o := by simpa using h
      rcases hNew with rfl | rfl
      · cases hFinished
      · cases hFinished
        trivial
    · have hOther : (s.call m).pc = .finished o := by simpa [hne] using h
      exact (hs.paired m o hOther).congr (by simp [hne]) (fun _ _ h => h) fun _ _ h => h

theorem Sound.acquire (hs : s.Sound) (hPc : (s.call n).pc = .waiting) (hLock : s.lock = none) :
    (({ s with lock := some n } : World).start n false).Sound := by
  have hHeld : ({ s with lock := some n } : World).Held n := by
    refine ⟨rfl, hs.known (by simp [hPc]), fun m _ => ?_, hs.fresh, hs.unsent, hs.paired⟩
    refine Bool.eq_false_iff.mpr fun hHolds => ?_
    rw [hs.holder m hHolds] at hLock
    cases hLock
  exact hHeld.start (hs.idle hLock) false

theorem Sound.drained (hs : s.Sound) {again : Bool} {stage : Stage}
    (hPc : (s.call n).pc = .draining again stage) : (s.callTo n (.line again stage [])).Sound := by
  have hLock := hs.holder n (by rw [hPc]; rfl)
  have hBusy := hs.busy n hLock
  simp only [Busy, hPc] at hBusy
  obtain ⟨k, c, hOwn, hAwaits⟩ := hBusy
  refine (hs.held hLock).callTo rfl ?_
  have hNew : ((s.callTo n (.line again stage [])).call n).pc = .line again stage [] := by simp
  rw [Busy, hNew]
  exact ⟨k, c, ⟨hOwn.conn, by simpa using hOwn.cmd, hOwn.sender⟩, hAwaits⟩

theorem Sound.readBulk (hs : s.Sound) {again : Bool} {stage : Stage} {size : Nat}
    {frames : List Frame} (hPc : (s.call n).pc = .bulk again stage size frames) {k : Conn}
    (hk : s.conn = some k) (hSize : size ≤ k.buffer.length) :
    (s.took n { k with buffer := k.buffer.drop size } again stage frames
      (.value (.bytes (k.buffer.take (size - 2))))).Sound := by
  have hLock := hs.holder n (by rw [hPc]; rfl)
  have hBusy := hs.busy n hLock
  simp only [Busy, hPc] at hBusy
  obtain ⟨k', c, hOwn, hAwaits⟩ := hBusy
  cases Option.some.inj (hOwn.conn.symm.trans hk)
  rcases hAwaits with ⟨hOver, hPos⟩ | ⟨r, data, rests, hReply, rfl, hFed, hCounts, hResult⟩
  · rw [hOver.buffer] at hSize
    exact absurd (Nat.le_zero.mp hSize) (Nat.ne_of_gt hPos)
  · obtain ⟨hTake, hRest⟩ := hFed.readexactly hSize
    rw [Nat.add_sub_cancel, hTake]
    exact (hs.held hLock).took_value ⟨hOwn.cmd, hOwn.sender⟩ hReply hRest hCounts hResult again

theorem Sound.raises (hs : s.Sound) (hHolds : (s.call n).pc.holds = true) (again : Bool) :
    (s.broken n again).Sound :=
  (hs.held (hs.holder n hHolds)).broken again

theorem Sound.callStep (hs : s.Sound) {e : CallEv} {t : World}
    (hOk : s.undisturbed decodes (.call n e) = true) (h : s.callStep decodes n e = some t) :
    t.Sound := by
  simp only [World.callStep] at h
  split at h
  next hPc =>
    split at h
    next hLock =>
      cases h
      exact hs.acquire hPc (by simpa using hLock)
    next => cases h
  next again hPc =>
    cases h
    have hLock := hs.holder n (by rw [hPc]; rfl)
    exact (hs.held hLock).send ⟨rfl, rfl, fun _ => rfl⟩ again _
  next again stage hPc =>
    cases h
    exact hs.drained hPc
  next again stage frames hPc =>
    obtain ⟨k, hk, h⟩ := Option.bind_eq_some_iff.mp h
    obtain ⟨⟨line, buffer⟩, hRead, rfl⟩ := Option.map_eq_some_iff.mp h
    exact hs.readLine hPc hOk hk hRead
  next again stage size frames hPc =>
    obtain ⟨k, hk, h⟩ := Option.bind_eq_some_iff.mp h
    split at h
    next hSize =>
      cases h
      exact hs.readBulk hPc hk hSize
    next =>
      split at h
      next =>
        cases h
        exact hs.raises (by rw [hPc]; rfl) again
      next => cases h
  next again hPc =>
    cases h
    exact hs.raises (by rw [hPc]; rfl) again
  next again stage hPc =>
    cases h
    exact hs.raises (by rw [hPc]; rfl) again
  next again stage frames hPc =>
    cases h
    exact hs.raises (by rw [hPc]; rfl) again
  next again stage size frames hPc =>
    cases h
    exact hs.raises (by rw [hPc]; rfl) again
  next hPc =>
    cases h
    exact hs.apart (by rw [hPc]; rfl) (.inr rfl) (hs.known (by simp [hPc])) (Nat.le_refl _)
  next again hPc =>
    cases h
    have hLock := hs.holder n (by rw [hPc]; rfl)
    have hBusy := hs.busy n hLock
    simp only [Busy, hPc] at hBusy
    exact (hs.held hLock).finish (fun k hk => by rw [hBusy] at hk; cases hk) trivial
  next again stage hPc => simp [undisturbed, hPc] at hOk
  next again stage frames hPc => simp [undisturbed, hPc] at hOk
  next again stage size frames hPc => simp [undisturbed, hPc] at hOk
  next => cases h

theorem Sound.step (hs : s.Sound) {a : ValkeyAct} {t : World} (hOk : s.undisturbed decodes a = true)
    (h : s.step decodes a = some t) : t.Sound := by
  cases a with
  | request =>
    cases h
    exact hs.apart (by rw [hs.fresh _ (Nat.le_refl _)]; rfl) (.inl rfl) (Nat.lt_succ_self _)
      (Nat.le_succ _)
  | call n e => exact hs.callStep hOk h
  | answer r =>
    simp only [World.step] at h
    split at h
    next c asked wire buffer hk =>
      cases h
      exact hs.answer hk r
    next => cases h
  | arrive size =>
    obtain ⟨k, hk, rfl⟩ := Option.map_eq_some_iff.mp h
    exact hs.arrive hk size
  | lose =>
    obtain ⟨k, hk, rfl⟩ := Option.map_eq_some_iff.mp h
    exact hs.lose hk

end Steps

theorem sound_init (password db : Bool) : (World.init password db).Sound where
  idle _ _ h := nomatch h
  busy _ h := nomatch h
  holder _ h := nomatch h
  fresh _ _ := rfl
  unsent _ _ := ⟨rfl, rfl⟩
  paired _ _ h := nomatch h

end World

/-! ## Pairing -/

/-- Every value that a call returns is the reply to its own command, and every error of the
server is one to a command of the call that gets it. -/
theorem replies_paired {decodes : Text → Bool} {password db : Bool} {acts : List ValkeyAct}
    {s : World} (hRun : run (World.step decodes) (.init password db) acts = some s)
    (hAlong : Along (World.step decodes) (fun s a => s.undisturbed decodes a = true)
      (.init password db) acts) : s.Paired := by
  have hSound : s.Sound := (Reach.of_run hRun hAlong).invariant (World.sound_init password db)
    fun _ _ _ _ hs hOk hStep => hs.step hOk hStep
  exact hSound.paired

/-- An error reply, then a bulk string. -/
def errorThenBulk : List ValkeyAct :=
  [.request, .request, .call 0 .acquire, .call 0 .opened, .call 0 .drained,
    .answer (.simple ⟨['O', 'K'], by decide⟩), .arrive 9, .call 0 .read, .call 0 .drained,
    .answer (.error ⟨['E'], by decide⟩), .arrive 2, .arrive 2, .call 0 .read,
    .call 1 .acquire, .answer (.bulk (some ['x', '\n'])), .call 1 .drained, .arrive 9,
    .call 1 .read, .call 1 .read]

theorem errorThenBulk_paired :
    ∃ s, run (World.step fun _ => true) (.init true false) errorThenBulk = some s ∧ s.Paired ∧
      (s.call 0).pc = .finished (.serverError ['E']) ∧
      (s.call 1).pc = .finished (.returned (.bytes ['x', '\n'])) := by
  have hAlong : Along (World.step fun _ => true) (fun s a => s.undisturbed (fun _ => true) a = true)
      (.init true false) errorThenBulk := by decide
  exact ⟨_, rfl, replies_paired rfl hAlong, rfl, rfl⟩

def cancelledRead : List ValkeyAct :=
  [.request, .call 0 .acquire, .call 0 .opened, .call 0 .drained, .answer (.int ⟨1, by decide⟩),
    .call 0 .cancel, .request, .call 1 .acquire, .call 1 .drained, .arrive 4, .call 1 .read]

theorem cancelledRead_mispaired :
    ∃ s, run (World.step fun _ => true) (.init false false) cancelledRead = some s ∧
      ¬s.Paired := by
  refine ⟨_, rfl, fun hPaired => ?_⟩
  obtain ⟨c, r, hCmd, -, hReply, -⟩ := hPaired 1 (.returned (.int 1)) rfl
  cases hCmd
  cases hReply

end OpenSpoke.Valkey
