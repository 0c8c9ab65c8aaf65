import Mathlib.Data.List.Chain
import OpenSpoke.Tunnel.Server.Listeners

/-!
# The requests of application spokes

What the server does with each `HttpRequest` frame it has read: the verdict of
its checks, the upstream request it issues, and the response it queues. The
response frames of a connection are exactly the answers to its requests.
-/

namespace OpenSpoke.Tunnel

open Lts

/-- What the checks of `recv_loop` and `handle_http_request` decide. -/
inductive Verdict
  | denied (resp : HttpResponse)
  /-- the builder holds an error, so `send()` fails without a request -/
  | unsendable (err : String)
  | forwarded (req : UpstreamRequest)
  deriving DecidableEq

def verdict (E : Env) (sc : SpokeConfig) (id : String) (req : HttpRequest) : Verdict :=
  if sc.kind ≠ .application then .denied rejectedKind
  else if req.path ∉ E.cfg.allowedPaths then .denied (rejectedPath req.path)
  else
    match forward E.lib E.cfg id req with
    | .error err => .unsendable err
    | .ok r => .forwarded r

/-- `send()` has begun with `first`, followed `hops` redirects and come to `last`. -/
structure Sends (lib : HttpLib) (first last : UpstreamRequest) (hops : Nat)
    (issued : List UpstreamRequest) : Prop where
  head : issued.head? = some first
  last : issued.getLast? = some last
  length : issued.length = hops + 1
  chain : issued.IsChain fun r r' => ∃ resp, lib.follow r resp = some r'

theorem sends_first (lib : HttpLib) (req : UpstreamRequest) : Sends lib req req 0 [req] :=
  ⟨rfl, rfl, rfl, List.isChain_singleton _⟩

theorem Sends.follow {lib : HttpLib} {first last next : UpstreamRequest} {hops : Nat}
    {issued : List UpstreamRequest} (h : Sends lib first last hops issued) {resp : UpstreamResponse}
    (hFollow : lib.follow last resp = some next) :
    Sends lib first next (hops + 1) (issued ++ [next]) where
  head := by rw [List.head?_append, h.head, Option.some_or]
  last := List.getLast?_concat
  length := by rw [List.length_append, h.length, List.length_singleton]
  chain := by
    refine List.isChain_append.mpr ⟨h.chain, List.isChain_singleton _, ?_⟩
    intro r hr r' hr'
    rw [h.last] at hr
    cases hr
    cases hr'
    exact ⟨resp, hFollow⟩

namespace Verdict

/-- The upstream requests that can be issued under it. -/
def Issues (lib : HttpLib) (issued : List UpstreamRequest) : Verdict → Prop
  | .forwarded first => ∃ last hops, hops ≤ maxRedirects ∧ Sends lib first last hops issued
  | _ => issued = []

/-- The responses it can be answered with. -/
def Allows (v : Verdict) (resp : HttpResponse) : Prop :=
  match v with
  | .denied d => resp = d
  | .unsendable err => resp = upstreamError err
  | .forwarded _ => ∃ r, resp = (upstreamAnswer r).1

end Verdict

section Verdict

variable {E : Env} {sc : SpokeConfig} {id : String} {req : HttpRequest}

theorem verdict_of_kind (h : sc.kind ≠ .application) : verdict E sc id req = .denied rejectedKind :=
  if_pos h

theorem verdict_of_path (hKind : sc.kind = .application) (hPath : req.path ∉ E.cfg.allowedPaths) :
    verdict E sc id req = .denied (rejectedPath req.path) := by
  simp [verdict, hKind, hPath]

theorem verdict_of_forward (hKind : sc.kind = .application) (hPath : req.path ∈ E.cfg.allowedPaths) :
    verdict E sc id req = match forward E.lib E.cfg id req with
      | .error err => .unsendable err
      | .ok r => .forwarded r := by
  simp [verdict, hKind, hPath]

theorem verdict_forwarded {r : UpstreamRequest} (h : verdict E sc id req = .forwarded r) :
    sc.kind = .application ∧ req.path ∈ E.cfg.allowedPaths ∧ forward E.lib E.cfg id req = .ok r := by
  by_cases hKind : sc.kind = .application
  · by_cases hPath : req.path ∈ E.cfg.allowedPaths
    · rw [verdict_of_forward hKind hPath] at h
      cases hBuild : forward E.lib E.cfg id req with
      | error err => simp [hBuild] at h
      | ok r' =>
        rw [hBuild] at h
        cases h
        exact ⟨hKind, hPath, rfl⟩
    · simp [verdict_of_path hKind hPath] at h
  · simp [verdict_of_kind hKind] at h

end Verdict

namespace Server

def issuedFor (s : Server) (n : Nat) : List UpstreamRequest :=
  s.issued.filterMap fun e => if e.1 = n then some e.2 else none

def answersTo (s : Server) (n : Nat) : List HttpResponse :=
  s.answered.filterMap fun e => if e.1 = n then some e.2 else none

def verdictOn (E : Env) (s : Server) (n : Nat) : Verdict :=
  verdict E (s.sc (s.task n).conn) (s.idOf (s.task n).conn) (s.task n).req

/-- How far the handling of a request with verdict `v` is, after it issued
`issued` and was answered with `answers`; `rx` says that the spoke can still be
reached. -/
def Handled (lib : HttpLib) (v : Verdict) (issued : List UpstreamRequest)
    (answers : List HttpResponse) (rx : Bool) : HttpPc → Prop
  | .absent => issued = [] ∧ answers = []
  | .inline => v = .denied rejectedKind ∧ issued = [] ∧ answers = []
  | .start => issued = [] ∧ answers = []
  | .send (.error err) => v = .unsendable err ∧ issued = [] ∧ answers = []
  | .send (.ok req) => v = .forwarded req ∧ issued = [req] ∧ answers = []
  | .following req hops => (∃ first, v = .forwarded first ∧ Sends lib first req hops issued) ∧
      hops ≤ maxRedirects ∧ answers = []
  | .reply resp => v.Allows resp ∧ v.Issues lib issued ∧ answers = []
  | .ended => v.Issues lib issued ∧
      ∃ resp, v.Allows resp ∧ (answers = [resp] ∨ answers = [] ∧ rx = false)

section Handled

variable {lib : HttpLib} {v : Verdict} {issued : List UpstreamRequest} {answers : List HttpResponse}
  {rx rx' : Bool} {pc : HttpPc}

theorem Handled.of_rx (h : Handled lib v issued answers rx pc) (hRx : rx = false → rx' = false) :
    Handled lib v issued answers rx' pc := by
  cases pc with
  | ended =>
    obtain ⟨hIssued, resp, hAllows, hAnswers⟩ := h
    exact ⟨hIssued, resp, hAllows, hAnswers.imp_right fun hNone => ⟨hNone.1, hRx hNone.2⟩⟩
  | send builder => cases builder <;> exact h
  | _ => exact h

theorem Handled.awaits (h : Handled lib v issued answers rx pc) {req : UpstreamRequest} {hops : Nat}
    (hPc : pc.awaits = some (req, hops)) : (∃ first, v = .forwarded first ∧
      Sends lib first req hops issued) ∧ hops ≤ maxRedirects ∧ answers = [] := by
  cases pc with
  | send builder =>
    cases builder with
    | error err => cases hPc
    | ok r =>
      cases hPc
      obtain ⟨hVerdict, rfl, hAnswers⟩ := h
      exact ⟨⟨_, hVerdict, sends_first lib _⟩, Nat.zero_le _, hAnswers⟩
  | following r k =>
    cases hPc
    exact h
  | _ => cases hPc

end Handled

structure RequestsOk (E : Env) (s : Server) : Prop where
  fresh : ∀ n, s.nextTask ≤ n → (s.task n).pc = .absent
  read : ∀ n < s.nextTask, (s.task n).pc ≠ .absent ∧ s.Registered (s.task n).conn
  handled : ∀ n, Handled E.lib (s.verdictOn E n) (s.issuedFor n) (s.answersTo n)
    (s.rxOpen (s.task n).conn) (s.task n).pc
  start : ∀ n, (s.task n).pc = .start → (s.sc (s.task n).conn).kind = .application
  inline : ∀ c n, s.phase c = .recv (.reject n) ↔ (s.task n).pc = .inline ∧ (s.task n).conn = c

theorem requestsOk_init (E : Env) : RequestsOk E init := by
  constructor <;> simp [init, Handled, issuedFor, answersTo]

/-- What a step leaves of a registered connection. -/
structure Keeps (s t : Server) (c : ConnId) : Prop where
  registered : t.Registered c
  spokeId : t.idOf c = s.idOf c
  sc : t.sc c = s.sc c
  rxOpen : s.rxOpen c = false → t.rxOpen c = false

theorem connMove_rxOpen {E : Env} {s t : Server} {c : ConnId} {e : ConnEv}
    (h : ConnMove E s c e t) : t.rxOpen = s.rxOpen := by
  cases h with
  | recv pc e t hPhase hMove => cases hMove <;> simp
  | _ => simp

theorem step_rxOpen {E : Env} {s t : Server} {a : ServerAct} (h : step E s a = some t) {c : ConnId}
    (hc : t.nextConn ≤ c ∨ c < s.nextConn) (hRx : s.rxOpen c = false) : t.rxOpen c = false := by
  cases a with
  | connect nonce issuedAt =>
    cases h
    have hne : c ≠ s.nextConn := by
      rintro rfl
      exact hc.elim (Nat.not_succ_le_self _) (Nat.lt_irrefl _)
    simpa [connect, hne] using hRx
  | conn d e => rw [connMove_rxOpen (connStep_move h), hRx]
  | loop d k e => cases loopStep_move h <;> simpa [loopTo] using hRx
  | up sid e => cases upStep_move h <;> simpa using hRx
  | down sid e => cases downStep_move h <;> simpa using hRx
  | http n e => cases httpStep_move h <;> simpa [taskTo, countTask] using hRx
  | env e =>
    cases envStep_move h with
    | dropRx d => by_cases hd : c = d <;> simp [hd, hRx]
    | _ => simpa using hRx

theorem connMove_sc {E : Env} {s t : Server} {c : ConnId} {e : ConnEv} (h : ConnMove E s c e t) :
    s.phase c = .recvFirst ∨ t.sc = s.sc := by
  cases h with
  | recv pc e t hPhase hMove => cases hMove <;> exact .inr (by simp)
  | welcomed r hs sc hPhase => exact .inl hPhase
  | _ => exact .inr (by simp)

theorem registered_keeps {E : Env} {s t : Server} {a : ServerAct} (hFresh : FreshConns s)
    (h : step E s a = some t) {c : ConnId} (hReg : s.Registered c) : Keeps s t c := by
  obtain ⟨hReg', hId, -⟩ := registered_step hFresh h hReg
  refine ⟨hReg', hId, ?_, ?_⟩
  · rcases step_phase h c with ⟨e, rfl, hMove⟩ | ⟨-, hSc, -⟩
    · rcases connMove_sc hMove with hPhase | hSc
      · rw [Registered, hPhase] at hReg
        cases hReg
      · rw [hSc]
    · exact hSc
  · exact step_rxOpen h (.inr (registered_lt hFresh hReg))

/-- A step moves the handling of at most one request. -/
theorem RequestsOk.update {E : Env} {s t : Server} (h : RequestsOk E s) (n : Nat)
    (hKeeps : ∀ c, s.Registered c → Keeps s t c) (hNext : t.nextTask = s.nextTask)
    (hFrame : ∀ m, (t.task m).conn = (s.task m).conn ∧ (t.task m).req = (s.task m).req)
    (hOther : ∀ m, m ≠ n → t.task m = s.task m ∧ t.issuedFor m = s.issuedFor m ∧
      t.answersTo m = s.answersTo m)
    (hPc : (s.task n).pc = .absent ↔ (t.task n).pc = .absent)
    (hStart : (t.task n).pc = .start → (s.task n).pc = .start)
    (hHandled : Handled E.lib (s.verdictOn E n) (s.issuedFor n) (s.answersTo n)
      (s.rxOpen (s.task n).conn) (s.task n).pc →
      Handled E.lib (s.verdictOn E n) (t.issuedFor n) (t.answersTo n) (t.rxOpen (s.task n).conn)
      (t.task n).pc)
    (hInline : ∀ c m, t.phase c = .recv (.reject m) ↔
      (t.task m).pc = .inline ∧ (t.task m).conn = c) : RequestsOk E t := by
  have hAt : ∀ m, (t.task m).pc ≠ .absent → m < s.nextTask ∧ Keeps s t (s.task m).conn := by
    intro m hm
    have hs : (s.task m).pc ≠ .absent := by
      by_cases hmn : m = n
      · rw [hmn] at hm ⊢
        exact mt hPc.mp hm
      · rwa [← (hOther m hmn).1]
    have hlt : m < s.nextTask := by
      by_contra hge
      exact hs (h.fresh m (Nat.not_lt.mp hge))
    exact ⟨hlt, hKeeps _ (h.read m hlt).2⟩
  constructor
  · intro m hm
    by_contra hPc'
    have := (hAt m hPc').1
    omega
  · intro m hm
    rw [hNext] at hm
    obtain ⟨hs, hReg⟩ := h.read m hm
    refine ⟨?_, (hFrame m).1 ▸ (hKeeps _ hReg).registered⟩
    by_cases hmn : m = n
    · rw [hmn] at hs ⊢
      exact mt hPc.mpr hs
    · rwa [(hOther m hmn).1]
  · intro m
    have hm := h.handled m
    by_cases hAbsent : (t.task m).pc = .absent
    · rw [hAbsent]
      by_cases hmn : m = n
      · subst hmn
        rw [hPc.mpr hAbsent] at hm hHandled
        rw [hAbsent] at hHandled
        exact hHandled hm
      · obtain ⟨hTask, hIssued, hAnswers⟩ := hOther m hmn
        rw [hIssued, hAnswers]
        rw [← hTask, hAbsent] at hm
        exact hm
    · have hKeep := (hAt m hAbsent).2
      have hVerdict : t.verdictOn E m = s.verdictOn E m := by
        simp only [verdictOn, (hFrame m).1, (hFrame m).2, hKeep.sc, hKeep.spokeId]
      rw [hVerdict, (hFrame m).1]
      by_cases hmn : m = n
      · subst hmn
        exact hHandled hm
      · obtain ⟨hTask, hIssued, hAnswers⟩ := hOther m hmn
        rw [hIssued, hAnswers, hTask]
        exact hm.of_rx hKeep.rxOpen
  · intro m hm
    have hNot : (t.task m).pc ≠ .absent := by simp [hm]
    have hBefore : (s.task m).pc = .start := by
      by_cases hmn : m = n
      · rw [hmn] at hm ⊢
        exact hStart hm
      · rwa [← (hOther m hmn).1]
    rw [(hFrame m).1, (hAt m hNot).2.sc]
    exact h.start m hBefore
  · exact hInline

theorem RequestsOk.of_same {E : Env} {s t : Server} (h : RequestsOk E s)
    (hKeeps : ∀ c, s.Registered c → Keeps s t c) (hNext : t.nextTask = s.nextTask)
    (hTask : t.task = s.task) (hIssued : t.issued = s.issued) (hAnswered : t.answered = s.answered)
    (hInline : ∀ c m, t.phase c = .recv (.reject m) ↔ s.phase c = .recv (.reject m)) :
    RequestsOk E t := by
  have hSame : ∀ m, t.issuedFor m = s.issuedFor m ∧ t.answersTo m = s.answersTo m := fun m =>
    ⟨by rw [issuedFor, hIssued, issuedFor], by rw [answersTo, hAnswered, answersTo]⟩
  refine h.update s.nextTask hKeeps hNext (fun m => by simp [hTask])
    (fun m _ => ⟨by rw [hTask], hSame m⟩) (by rw [hTask]) (by rw [hTask]; exact id) ?_ ?_
  · intro hHandled
    have hAbsent := h.fresh _ le_rfl
    rw [hTask, (hSame _).1, (hSame _).2]
    rw [hAbsent] at hHandled ⊢
    exact hHandled
  · intro c m
    rw [hInline, hTask]
    exact h.inline c m

theorem filterMap_record {α : Type} {l l' : List (Nat × α)} {n m : Nat} {new : List α}
    (h : l' = l ++ new.map (Prod.mk n)) :
    l'.filterMap (fun e => if e.1 = m then some e.2 else none) =
      l.filterMap (fun e => if e.1 = m then some e.2 else none) ++ if m = n then new else [] := by
  subst h
  rw [List.filterMap_append, List.filterMap_map]
  split
  · next hm => simp [hm]
  · next hm => simp [Ne.symm hm]

theorem RequestsOk.move {E : Env} {s t : Server} (h : RequestsOk E s) (n : Nat) (pc : HttpPc)
    (issued : List UpstreamRequest) (answers : List HttpResponse)
    (hKeeps : ∀ c, s.Registered c → Keeps s t c) (hNext : t.nextTask = s.nextTask)
    (hTask : t.task = Function.update s.task n { s.task n with pc := pc })
    (hIssued : t.issued = s.issued ++ issued.map (Prod.mk n))
    (hAnswered : t.answered = s.answered ++ answers.map (Prod.mk n))
    (hOld : (s.task n).pc ≠ .absent) (hNew : pc ≠ .absent ∧ pc ≠ .start ∧ pc ≠ .inline)
    (hHandled : Handled E.lib (s.verdictOn E n) (s.issuedFor n) (s.answersTo n)
      (s.rxOpen (s.task n).conn) (s.task n).pc →
      Handled E.lib (s.verdictOn E n) (s.issuedFor n ++ issued) (s.answersTo n ++ answers)
      (s.rxOpen (s.task n).conn) pc)
    (hInline : ∀ c m, t.phase c = .recv (.reject m) ↔ s.phase c = .recv (.reject m) ∧ m ≠ n) :
    RequestsOk E t := by
  have hIssued := fun m => filterMap_record (m := m) hIssued
  have hAnswered := fun m => filterMap_record (m := m) hAnswered
  have hRead : n < s.nextTask := by
    by_contra hge
    exact hOld (h.fresh n (Nat.not_lt.mp hge))
  refine h.update n hKeeps hNext ?_ ?_ ?_ ?_ ?_ ?_
  · intro m
    by_cases hm : m = n <;> simp [hTask, hm]
  · intro m hm
    refine ⟨by simp [hTask, hm], ?_, ?_⟩
    · rw [issuedFor, hIssued, if_neg hm, List.append_nil, issuedFor]
    · rw [answersTo, hAnswered, if_neg hm, List.append_nil, answersTo]
  · simp [hTask, hOld, hNew.1]
  · simp [hTask, hNew.2.1]
  · intro hBefore
    rw [issuedFor, hIssued, if_pos rfl, answersTo, hAnswered, if_pos rfl, hTask,
      Function.update_self]
    exact (hHandled hBefore).of_rx (hKeeps _ (h.read n hRead).2).rxOpen
  · intro c m
    rw [hInline, h.inline, hTask]
    by_cases hm : m = n
    · subst hm; simp [hNew.2.2]
    · simp [hm]

theorem RequestsOk.httpMove {E : Env} {s t : Server} {n : Nat} {e : HttpEv} (h : RequestsOk E s)
    (hKeeps : ∀ c, s.Registered c → Keeps s t c) (hMove : HttpMove E s n e t) :
    RequestsOk E t := by
  have hNot : (s.task n).pc ≠ .inline → ∀ c m, s.phase c = .recv (.reject m) ↔
      s.phase c = .recv (.reject m) ∧ m ≠ n := by
    intro hPc c m
    refine ⟨fun hPhase => ⟨hPhase, ?_⟩, And.left⟩
    rintro rfl
    exact hPc ((h.inline c m).mp hPhase).1
  have hAwaits : ∀ {req hops}, (s.task n).pc.awaits = some (req, hops) →
      (s.task n).pc ≠ .absent ∧ (s.task n).pc ≠ .inline := by
    intro req hops hPc
    constructor <;> intro hAt <;> simp [hAt, HttpPc.awaits] at hPc
  cases hMove with
  | rejected hPc hPath =>
    have hVerdict : s.verdictOn E n = .denied (rejectedPath (s.task n).req.path) :=
      verdict_of_path (h.start n hPc) hPath
    refine h.move n _ [] [] hKeeps rfl rfl (by simp [taskTo, countTask]) (by simp [taskTo, countTask])
      (by simp [hPc]) (by simp) ?_ (hNot (by simp [hPc]))
    rw [hVerdict, hPc]
    simp [Handled, Verdict.Allows, Verdict.Issues]
  | unbuilt err hPc hPath hBuild =>
    have hVerdict : s.verdictOn E n = .unsendable err := by
      rw [verdictOn, verdict_of_forward (h.start n hPc) hPath, hBuild]
    refine h.move n _ [] [] hKeeps rfl rfl (by simp [taskTo]) (by simp [taskTo])
      (by simp [hPc]) (by simp) ?_ (hNot (by simp [hPc]))
    rw [hVerdict, hPc]
    simp [Handled]
  | issue req hPc hPath hBuild =>
    have hVerdict : s.verdictOn E n = .forwarded req := by
      rw [verdictOn, verdict_of_forward (h.start n hPc) hPath, hBuild]
    refine h.move n _ [req] [] hKeeps rfl rfl rfl (by simp [taskTo]) (by simp [hPc]) (by simp) ?_
      (hNot (by simp [hPc]))
    rw [hVerdict, hPc]
    simp +contextual [Handled]
  | buildFailed err hPc =>
    refine h.move n _ [] [] hKeeps rfl rfl (by simp [taskTo, countTask]) (by simp [taskTo, countTask])
      (by simp [hPc]) (by simp) ?_ (hNot (by simp [hPc]))
    rw [hPc]
    rintro ⟨hVerdict, hIssued, hAnswers⟩
    simp [hVerdict, hIssued, hAnswers, Handled, Verdict.Allows, Verdict.Issues]
  | answered req hops r hPc =>
    obtain ⟨hOld, hInline⟩ := hAwaits hPc
    refine h.move n _ [] [] hKeeps rfl rfl (by simp [taskTo, countTask]) (by simp [taskTo, countTask])
      hOld (by simp) (fun hHandled => ?_) (hNot hInline)
    obtain ⟨⟨first, hVerdict, hSends⟩, hMost, hAnswers⟩ := hHandled.awaits hPc
    rw [hVerdict, hAnswers, List.append_nil]
    exact ⟨⟨r, rfl⟩, ⟨req, hops, hMost, hSends⟩, rfl⟩
  | redirected req next hops resp hPc hHops hFollow =>
    obtain ⟨hOld, hInline⟩ := hAwaits hPc
    refine h.move n _ [next] [] hKeeps rfl rfl rfl (by simp [taskTo]) hOld (by simp)
      (fun hHandled => ?_) (hNot hInline)
    obtain ⟨⟨first, hVerdict, hSends⟩, -, hAnswers⟩ := hHandled.awaits hPc
    exact ⟨⟨first, hVerdict, hSends.follow hFollow⟩, hHops, by rw [hAnswers]; rfl⟩
  | replied resp hPc hRx =>
    refine h.move n .ended [] [resp] hKeeps rfl rfl (by simp) (by simp) (by simp [hPc]) (by simp) ?_
      (hNot (by simp [hPc]))
    rw [hPc]
    rintro ⟨hAllows, hIssued, hAnswers⟩
    rw [hAnswers, List.append_nil]
    exact ⟨hIssued, resp, hAllows, .inl rfl⟩
  | unreplied resp hPc hRx =>
    refine h.move n .ended [] [] hKeeps rfl rfl (by simp) (by simp) (by simp [hPc]) (by simp) ?_
      (hNot (by simp [hPc]))
    rw [hPc]
    rintro ⟨hAllows, hIssued, hAnswers⟩
    rw [hAnswers, List.append_nil]
    exact ⟨hIssued, resp, hAllows, .inr ⟨rfl, hRx⟩⟩

theorem RequestsOk.added {E : Env} {s t : Server} {x : HttpTask} (h : RequestsOk E s)
    (hKeeps : ∀ c, s.Registered c → Keeps s t c) (hNext : t.nextTask = s.nextTask + 1)
    (hTask : t.task = Function.update s.task s.nextTask x) (hIssued : t.issued = s.issued)
    (hAnswered : t.answered = s.answered) (hReg : s.Registered x.conn)
    (hPc : x.pc = .start ∧ (s.sc x.conn).kind = .application ∨
      x.pc = .inline ∧ (s.sc x.conn).kind ≠ .application)
    (hInline : ∀ c m, t.phase c = .recv (.reject m) ↔ s.phase c = .recv (.reject m) ∨
      m = s.nextTask ∧ x.conn = c ∧ x.pc = .inline) : RequestsOk E t := by
  have hFresh : ∀ m, m < s.nextTask → t.task m = s.task m := fun m hm => by
    rw [hTask, Function.update_of_ne (Nat.ne_of_lt hm)]
  have hNew : t.task s.nextTask = x := by simp [hTask]
  have hNone := h.handled s.nextTask
  rw [h.fresh _ le_rfl] at hNone
  have hSplit : ∀ m, m < t.nextTask → m < s.nextTask ∨ m = s.nextTask := fun m hm => by omega
  have hIssuedFor : ∀ m, t.issuedFor m = s.issuedFor m := fun m => by simp only [issuedFor, hIssued]
  have hAnswersTo : ∀ m, t.answersTo m = s.answersTo m := fun m => by
    simp only [answersTo, hAnswered]
  constructor
  · intro m hm
    rw [hTask, Function.update_of_ne (by omega)]
    exact h.fresh m (by omega)
  · intro m hm
    rcases hSplit m hm with hOld | rfl
    · rw [hFresh m hOld]
      exact ⟨(h.read m hOld).1, (hKeeps _ (h.read m hOld).2).registered⟩
    · rw [hNew]
      exact ⟨by rcases hPc with ⟨hPc, -⟩ | ⟨hPc, -⟩ <;> simp [hPc], (hKeeps _ hReg).registered⟩
  · intro m
    rw [hIssuedFor, hAnswersTo]
    rcases Nat.lt_trichotomy m s.nextTask with hOld | rfl | hLater
    · have hKeep := hKeeps _ (h.read m hOld).2
      have hm := (h.handled m).of_rx hKeep.rxOpen
      simpa only [verdictOn, hFresh m hOld, hKeep.sc, hKeep.spokeId] using hm
    · have hKeep := hKeeps _ hReg
      rw [hNew]
      rcases hPc with ⟨hPc, hKind⟩ | ⟨hPc, hKind⟩
      · rw [hPc]
        exact hNone
      · rw [hPc, verdictOn, hNew, hKeep.sc, verdict_of_kind hKind]
        exact ⟨rfl, hNone⟩
    · have hm := h.handled m
      have hAbsent := h.fresh m (Nat.le_of_lt hLater)
      rw [hTask, Function.update_of_ne (Nat.ne_of_gt hLater)]
      rw [hAbsent] at hm ⊢
      exact hm
  · intro m hm
    by_cases hmn : m = s.nextTask
    · subst hmn
      rw [hNew] at hm ⊢
      rw [(hKeeps _ hReg).sc]
      rcases hPc with ⟨-, hKind⟩ | ⟨hPc, -⟩
      · exact hKind
      · rw [hPc] at hm
        cases hm
    · rw [hTask, Function.update_of_ne hmn] at hm ⊢
      have hOld : m < s.nextTask := by
        by_contra hge
        rw [h.fresh m (Nat.not_lt.mp hge)] at hm
        cases hm
      rw [(hKeeps _ (h.read m hOld).2).sc]
      exact h.start m hm
  · intro c m
    have hAbsent := h.fresh s.nextTask le_rfl
    rw [hInline, h.inline, hTask]
    by_cases hmn : m = s.nextTask
    · subst hmn
      simp [hAbsent, and_comm]
    · simp [hmn]

theorem RequestsOk.recvMove {E : Env} {s t : Server} {c : ConnId} {pc : RecvPc} {e : ConnEv}
    (h : RequestsOk E s) (hKeeps : ∀ d, s.Registered d → Keeps s t d) (hPhase : s.phase c = .recv pc)
    (hMove : RecvMove E s c pc e t) : RequestsOk E t := by
  have hReg : s.Registered c := by rw [Registered, hPhase]; rfl
  -- the phase before and after holds no request
  have hSame : (∀ m, pc ≠ .reject m) → ∀ p : Phase, (∀ m, p ≠ .recv (.reject m)) → ∀ d m,
      Function.update s.phase c p d = .recv (.reject m) ↔ s.phase d = .recv (.reject m) := by
    intro hPc p hp d m
    by_cases hd : d = c
    · subst hd; simp [hPhase, hPc m, hp m]
    · simp [hd]
  have hDone : ∀ n, pc = .reject n → ∀ d m, Function.update s.phase c (.recv .next) d =
      .recv (.reject m) ↔ s.phase d = .recv (.reject m) ∧ m ≠ n := by
    rintro n rfl d m
    by_cases hd : d = c
    · subst hd; simp [hPhase, eq_comm]
    · simp only [hd, ne_eq, not_false_eq_true, Function.update_of_ne, iff_self_and]
      rintro hAt rfl
      exact hd (((h.inline d m).mp hAt).2.symm.trans ((h.inline c m).mp hPhase).2)
  cases hMove with
  | unknown | ignored => exact h
  | close f half reason hKind =>
    exact h.of_same hKeeps (by simp) (by simp) (by simp) (by simp) (by simp)
  | rejectKind f req hKind hSpoke =>
    refine h.added hKeeps rfl rfl rfl rfl hReg (.inr ⟨rfl, hSpoke⟩) ?_
    intro d m
    by_cases hd : d = c
    · subst hd; simp [hPhase, eq_comm]
    · simp [hd, Ne.symm hd]
  | request f req hKind hSpoke =>
    exact h.added hKeeps rfl rfl rfl rfl hReg (.inl ⟨rfl, hSpoke⟩) (by simp)
  | rejected n hRx =>
    have hPc := ((h.inline c n).mp hPhase).1
    refine h.move n .ended [] [rejectedKind] hKeeps rfl rfl (by simp) (by simp) (by simp [hPc])
      (by simp) ?_ (hDone n rfl)
    rw [hPc]
    rintro ⟨hVerdict, hIssued, hAnswers⟩
    rw [hVerdict, hIssued, hAnswers]
    exact ⟨rfl, rejectedKind, rfl, .inl rfl⟩
  | unrejected n hRx =>
    obtain ⟨hPc, hConn⟩ := (h.inline c n).mp hPhase
    refine h.move n .ended [] [] hKeeps rfl rfl (by simp) (by simp) (by simp [hPc])
      (by simp) ?_ (hDone n rfl)
    rw [hPc]
    rintro ⟨hVerdict, hIssued, hAnswers⟩
    rw [hVerdict, hIssued, hAnswers]
    exact ⟨rfl, rejectedKind, rfl, .inr ⟨rfl, hConn ▸ hRx⟩⟩
  | undeliver sid =>
    exact h.of_same hKeeps (by simp) (by simp) (by simp) (by simp)
      (by simpa using hSame (by simp) (.recv .next) (by simp))
  | _ => exact h.of_same hKeeps rfl rfl rfl rfl (hSame (by simp) _ (by simp))

theorem RequestsOk.connMove {E : Env} {s t : Server} {c : ConnId} {e : ConnEv} (h : RequestsOk E s)
    (hKeeps : ∀ d, s.Registered d → Keeps s t d) (hMove : ConnMove E s c e t) :
    RequestsOk E t := by
  have hSame : (∀ m, s.phase c ≠ .recv (.reject m)) → ∀ p : Phase, (∀ m, p ≠ .recv (.reject m)) →
      ∀ d m, Function.update s.phase c p d = .recv (.reject m) ↔ s.phase d = .recv (.reject m) := by
    intro hPhase p hp d m
    by_cases hd : d = c
    · subst hd; simp [hPhase m, hp m]
    · simp [hd]
  cases hMove with
  | recv pc e t hPhase hMove => exact h.recvMove hKeeps hPhase hMove
  | failCleanup err hPhase =>
    exact h.of_same hKeeps (by simp) (by simp) (by simp) (by simp)
      (by simpa using hSame (by simp [hPhase]) (.returned (.error err)) (by simp))
  | cleanup hPhase =>
    exact h.of_same hKeeps (by simp) (by simp) (by simp) (by simp)
      (by simpa using hSame (by simp [hPhase]) .abort (by simp))
  | _ => exact h.of_same hKeeps rfl rfl rfl rfl (hSame (by simp [*]) _ (by simp))

theorem task_step {E : Env} {s t : Server} {a : ServerAct} (h : step E s a = some t) {n : Nat}
    (hn : n < s.nextTask) : (t.task n).conn = (s.task n).conn ∧ (t.task n).sid = (s.task n).sid ∧
      (t.task n).req = (s.task n).req := by
  have hSet : ∀ m pc, (Function.update s.task m { s.task m with pc := pc } n).conn = (s.task n).conn ∧
      (Function.update s.task m { s.task m with pc := pc } n).sid = (s.task n).sid ∧
      (Function.update s.task m { s.task m with pc := pc } n).req = (s.task n).req := by
    intro m pc
    by_cases hm : n = m <;> simp [hm]
  have hAdd : ∀ x, Function.update s.task s.nextTask x n = s.task n := fun x =>
    Function.update_of_ne (Nat.ne_of_lt hn) _ _
  cases a with
  | connect nonce issuedAt => cases h; exact ⟨rfl, rfl, rfl⟩
  | conn c e =>
    cases connStep_move h with
    | recv pc e t hPhase hMove =>
      cases hMove with
      | rejectKind | request => simp [hAdd]
      | rejected n | unrejected n => exact hSet n .ended
      | _ => simp
    | _ => simp
  | loop c k e => cases loopStep_move h <;> exact ⟨rfl, rfl, rfl⟩
  | up sid e => cases upStep_move h <;> simp
  | down sid e => cases downStep_move h <;> exact ⟨rfl, rfl, rfl⟩
  | http m e => cases httpStep_move h <;> exact hSet m _
  | env e => cases envStep_move h <;> exact ⟨rfl, rfl, rfl⟩

theorem requestsOk_step {E : Env} {s t : Server} {a : ServerAct} (hFresh : FreshConns s)
    (hOk : RequestsOk E s) (h : step E s a = some t) : RequestsOk E t := by
  have hKeeps := fun d => registered_keeps hFresh h (c := d)
  cases a with
  | connect nonce issuedAt =>
    cases h
    refine hOk.of_same hKeeps rfl rfl rfl rfl fun c m => ?_
    have hNew := hFresh s.nextConn le_rfl
    by_cases hc : c = s.nextConn
    · subst hc; simp [connect, hNew]
    · simp [connect, hc]
  | conn c e => exact hOk.connMove hKeeps (connStep_move h)
  | http n e => exact hOk.httpMove hKeeps (httpStep_move h)
  | loop c k e =>
    have hSame := loopMove_control (loopStep_move h)
    cases loopStep_move h <;>
      exact hOk.of_same hKeeps rfl rfl rfl rfl (by rw [hSame.phase]; simp)
  | up sid e =>
    cases upStep_move h <;>
      exact hOk.of_same hKeeps (by simp) (by simp) (by simp) (by simp) (by simp)
  | down sid e =>
    cases downStep_move h <;> exact hOk.of_same hKeeps rfl rfl rfl rfl (by simp)
  | env e => cases envStep_move h <;> exact hOk.of_same hKeeps rfl rfl rfl rfl (by simp)

end Server

end OpenSpoke.Tunnel
