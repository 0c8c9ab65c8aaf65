import OpenSpoke.GitHub.Progress

/-!
# Restoring files

A restore that has made a commit has put it on the head that it has read. Which files the
commit has is compared with the tree of the source and the tree of the parent.
-/

namespace OpenSpoke.GitHub.Remote

open Lts
open Python (Text strip)

variable {β : Type}

namespace World

variable {E : Host β} {w t : World β} {n m : Nat} {a : Answer}

structure Sound (E : Host β) (w : World β) : Prop where
  calls : ∀ n, w.CallOk E n (w.pc n)
  -- a commit of a call is no head before the call has written
  heads : ∀ id b k c n, (w.repo id).head b = some k → (w.repo id).commits[k]? = some c →
    c.author = some n → (w.pc n).preparing = false
  moves : ∀ m ∈ w.moves, (w.pc m.author).preparing = false ∧
    ∃ c, (w.repo m.repo).commits[m.new]? = some c ∧ c.parents = m.old.toList ∧
      c.author = some m.author
  idle : ∀ n reply, w.pc n = .done reply → reply.commit = none → reply.failure = none →
    ∀ m ∈ w.moves, m.author ≠ n

theorem Initial.sound (h : w.Initial) : w.Sound E where
  calls n := by
    rw [h.absent n]
    trivial
  heads id b k c n hHead hc hAuthor := by
    have hNone := h.authors id c (List.mem_of_getElem? hc)
    rw [hAuthor] at hNone
    cases hNone
  moves m hm := by
    rw [h.moves] at hm
    cases hm
  idle n reply hPc := by
    rw [h.absent n] at hPc
    cases hPc

/-- What the other calls do leaves a call where it is. -/
structure SameCalls (w t : World β) (n : Nat) : Prop where
  pc : ∀ m, m ≠ n → t.pc m = w.pc m
  req : ∀ m, t.req m = w.req m
  op : ∀ m, t.op m = w.op m

theorem sameCalls_goto {u : World β} {pc : Pc β} (h : u.call = w.call) :
    SameCalls w (u.goto n pc) n where
  pc m hm := by
    rw [pc_goto_of_ne hm]
    unfold World.pc
    rw [h]
  req m := by
    rw [req_goto]
    unfold World.req
    rw [h]
  op m := by
    rw [op_goto]
    unfold World.op
    rw [h]

/-- What a step keeps sound: whatever is new is the work of a call that has written. -/
theorem Sound.advance (h : w.Sound E) (hSame : SameCalls w t n) (hLater : w.Later t)
    (hCall : t.CallOk E n (t.pc n))
    (hPast : (w.pc n).preparing = false → (t.pc n).preparing = false)
    (hHeads : ∀ id b k, (t.repo id).head b = some k → (w.repo id).head b = some k ∨
      ∃ c, (t.repo id).commits[k]? = some c ∧ ∀ m, c.author = some m → (t.pc m).preparing = false)
    (hMoves : ∀ v ∈ t.moves, v ∈ w.moves ∨ (t.pc v.author).preparing = false ∧
      ∃ c, (t.repo v.repo).commits[v.new]? = some c ∧ c.parents = v.old.toList ∧
        c.author = some v.author)
    (hIdle : ∀ reply, t.pc n = .done reply → reply.commit = none → reply.failure = none →
      ∀ v ∈ t.moves, v.author ≠ n)
    (hOthers : ∀ v ∈ t.moves, v ∈ w.moves ∨ v.author = n) : t.Sound E := by
  have hPc : ∀ m, (w.pc m).preparing = false → (t.pc m).preparing = false := fun m hm => by
    by_cases hmn : m = n
    · exact hmn ▸ hPast (hmn ▸ hm)
    · rw [hSame.pc m hmn]
      exact hm
  refine ⟨fun m => ?_, fun id b k c m hHead hc hAuthor => ?_, fun v hv => ?_,
    fun m reply hDone hNone hOk v hv => ?_⟩
  · by_cases hmn : m = n
    · exact hmn ▸ hCall
    · rw [hSame.pc m hmn]
      exact (h.calls m).later hLater (hSame.req m) (hSame.op m)
  · rcases hHeads id b k hHead with hOld | ⟨d, hd, hNew⟩
    · obtain ⟨d, hd⟩ : ∃ d, (w.repo id).commits[k]? = some d :=
        ⟨_, List.getElem?_eq_getElem ((w.repo id).headKnown b k hOld)⟩
      obtain rfl : d = c := Option.some.inj (((hLater.repo id).getElem hd).symm.trans hc)
      exact hPc m (h.heads id b k d m hOld hd hAuthor)
    · obtain rfl : d = c := Option.some.inj (hd.symm.trans hc)
      exact hNew m hAuthor
  · rcases hMoves v hv with hOld | hNew
    · obtain ⟨hPrep, c, hc, hParents⟩ := h.moves v hOld
      exact ⟨hPc _ hPrep, c, (hLater.repo _).getElem hc, hParents⟩
    · exact hNew
  · by_cases hmn : m = n
    · subst hmn
      exact hIdle reply hDone hNone hOk v hv
    · rw [hSame.pc m hmn] at hDone
      rcases hOthers v hv with hOld | rfl
      · exact h.idle m reply hDone hNone hOk v hOld
      · exact fun hEq => hmn hEq.symm

theorem Sound.no_move (h : w.Sound E) (hPrep : (w.pc n).preparing = true) :
    ∀ v ∈ w.moves, v.author ≠ n := by
  rintro v hv rfl
  rw [(h.moves v hv).1] at hPrep
  cases hPrep

theorem Sound.quiet (h : w.Sound E) (hSame : SameCalls w t n) (hLater : w.Later t)
    (hCall : t.CallOk E n (t.pc n))
    (hPast : (w.pc n).preparing = false → (t.pc n).preparing = false)
    (hHeads : ∀ id, (t.repo id).head = (w.repo id).head) (hMoves : t.moves = w.moves)
    (hIdle : (w.pc n).preparing = true ∨ ∀ reply, t.pc n = .done reply →
      reply.commit = none → reply.failure = none → ∀ v ∈ w.moves, v.author ≠ n) : t.Sound E := by
  apply h.advance hSame hLater hCall hPast
  · intro id b k hHead
    exact .inl (hHeads id ▸ hHead)
  · intro v hv
    exact .inl (hMoves ▸ hv)
  · intro reply hDone hNone hOk
    rw [hMoves]
    rcases hIdle with hPrep | hIdle
    · exact h.no_move hPrep
    · exact hIdle reply hDone hNone hOk
  · intro v hv
    exact .inl (hMoves ▸ hv)

theorem callOk_done_failed {reply : Reply} (h : reply.failure ≠ none) : w.CallOk E n (.done reply) :=
  fun _ hNone => absurd hNone h

theorem callOk_begin {q : Request} {op : Op} {token : Bool} (hReq : w.req n = q) (hOp : w.op n = op)
    (hKnows : w.knows q op = true) : w.CallOk E n (begin E q op token) := by
  have hChecked : ∀ {ok : Bool} {pc : Pc β}, w.CallOk E n pc → w.CallOk E n
      (if !(q.valid && ok) then .done (.failed .required)
        else if !token then .done (.failed .token) else pc) := by
    intro ok pc hPc
    split
    · exact callOk_fail
    · split
      · exact callOk_fail
      · exact hPc
  cases op with
  | putFile | regexReplace | replaceSymbol | deleteFile =>
    apply hChecked
    rw [CallOk, hOp]
    rfl
  | copyFile =>
    simp only [begin]
    split
    · exact callOk_fail
    · apply hChecked
      rw [CallOk, hOp]
      rfl
  | restoreFromTag => exact hChecked trivial
  | restoreFromSha sha paths =>
    apply hChecked
    rw [← hReq]
    refine callOk_afterSource ⟨sha, by rw [World.asked, hOp], rfl, fun k hk => ?_⟩
    rw [knows, hk, decide_eq_true_eq, ← hReq] at hKnows
    exact hKnows

theorem Sound.created (h : w.Sound E) {p : Plan β} {tree : Files β}
    (hPc : w.pc n = .createCommit p tree)
    (hp : ∀ q ∈ [p.head], q < (w.repoOf n).commits.length) :
    ((w.setRepo (w.req n).repoId ((w.repoOf n).add ⟨tree, [p.head], some n⟩ hp)).goto n
      (if a = .answered then .updateRef p (w.repoOf n).commits.length else fail .createCommit)).Sound E := by
  have hLater : w.Later (w.setRepo (w.req n).repoId ((w.repoOf n).add ⟨tree, [p.head], some n⟩ hp)) :=
    later_setRepo Repo.grows_add
  refine h.quiet (sameCalls_goto (u := w.setRepo _ _) rfl) (hLater.trans later_goto) ?_ ?_ ?_ rfl
    (.inl (by rw [hPc]; rfl))
  · rw [pc_goto_self]
    split
    · have hBuilt : w.Built E n p tree := by
        have hCall := h.calls n
        rw [hPc] at hCall
        exact hCall
      refine ⟨tree, hBuilt.later (hLater.trans later_goto) req_goto op_goto, ?_⟩
      unfold World.repoOf
      rw [req_goto, repo_goto]
      change ((w.setRepo (w.req n).repoId _).repo (w.req n).repoId).commits[_]? = _
      rw [repo_setRepo_self]
      exact List.getElem?_concat_length
    · exact callOk_fail
  · intro hPast
    rw [hPc] at hPast
    cases hPast
  · intro id
    rw [repo_goto]
    by_cases hId : id = (w.req n).repoId
    · subst hId
      rw [repo_setRepo_self]
      rfl
    · rw [repo_setRepo_of_ne hId]

theorem Sound.head_of_update (h : w.Sound E) {p : Plan β} {commit cur : Nat}
    (hPc : w.pc n = .updateRef p commit)
    (hHead : (w.repoOf n).head (E.asRead p.branch) = some cur)
    (hAnc : (w.repoOf n).isAncestor cur commit = true) : cur = p.head := by
  have hCall : w.Committed E n p commit := by
    have hCall := h.calls n
    rw [hPc] at hCall
    exact hCall
  obtain ⟨tree, hBuilt, hCommit⟩ := hCall.built
  obtain ⟨cur', hCur, hle⟩ := hBuilt.plan.head
  obtain rfl : cur = cur' := Option.some.inj (hHead.symm.trans hCur)
  rcases Repo.isAncestor_cases hCommit hAnc with rfl | ⟨q, hq, hqle⟩
  · have hPast := h.heads _ _ cur _ n hHead hCommit rfl
    rw [hPc] at hPast
    cases hPast
  · obtain rfl := List.mem_singleton.mp hq
    omega

theorem repo_moved_self {id : RepoId} {r : Repo β} {v : Move} : (w.moved id r v).repo id = r :=
  repo_setRepo_self

theorem repo_moved_of_ne {id x : RepoId} {r : Repo β} {v : Move} (h : x ≠ id) :
    (w.moved id r v).repo x = w.repo x :=
  repo_setRepo_of_ne h

theorem Sound.loud (h : w.Sound E) {id : RepoId} {r : Repo β} {v : Move} {pc : Pc β} {c : Commit β}
    (hGrows : (w.repo id).Grows r) (hRepo : v.repo = id) (hAuthor : v.author = n)
    (hPrep : (w.pc n).preparing = true) (hPast : pc.preparing = false)
    (hNew : r.commits[v.new]? = some c) (hParents : c.parents = v.old.toList)
    (hBy : c.author = some n)
    (hHeads : ∀ b k, r.head b = some k → (w.repo id).head b = some k ∨ k = v.new)
    (hCall : ((w.moved id r v).goto n pc).CallOk E n pc)
    (hSome : ∀ reply, pc = .done reply → reply.commit = none → reply.failure ≠ none) :
    ((w.moved id r v).goto n pc).Sound E := by
  have hPc : ((w.moved id r v).goto n pc).pc n = pc := pc_goto_self
  apply h.advance (sameCalls_goto (u := w.moved id r v) rfl) ((later_moved hGrows).trans later_goto)
  · rw [hPc]
    exact hCall
  · intro hOld
    rw [hPrep] at hOld
    cases hOld
  · intro x b k hHead
    rw [repo_goto] at hHead ⊢
    by_cases hx : x = id
    · subst hx
      rw [repo_moved_self] at hHead ⊢
      rcases hHeads b k hHead with hOld | rfl
      · exact .inl hOld
      · refine .inr ⟨c, hNew, fun m hm => ?_⟩
        obtain rfl : n = m := Option.some.inj (hBy.symm.trans hm)
        rw [hPc]
        exact hPast
    · rw [repo_moved_of_ne hx] at hHead
      exact .inl hHead
  · intro u hu
    rcases List.mem_cons.mp hu with rfl | hu
    · refine .inr ⟨by rw [hAuthor, hPc]; exact hPast, c, ?_, hParents, hAuthor ▸ hBy⟩
      rw [repo_goto, hRepo, repo_moved_self]
      exact hNew
    · exact .inl hu
  · intro reply hDone hNone hOk
    rw [hPc] at hDone
    exact absurd hOk (hSome reply hDone hNone)
  · intro u hu
    rcases List.mem_cons.mp hu with rfl | hu
    · exact .inr hAuthor
    · exact .inl hu

theorem afterUpdate_past {q : Request} {op : Op} {p : Plan β} {commit : Nat} :
    (afterUpdate q op p commit n : Pc β).preparing = false := by
  unfold afterUpdate
  split <;> rfl

theorem afterPut_past {q : Request} {put : Put β} {commit : Nat} :
    (afterPut q put commit : Pc β).preparing = false := by
  unfold afterPut
  split
  · rfl
  · split <;> rfl

theorem Committed.grows {p : Plan β} {commit : Nat} (hp : w.Committed E n p commit)
    (hk : commit < (w.repoOf n).commits.length)
    (hHead : (w.repoOf n).head (E.asRead p.branch) = some p.head) :
    (w.repoOf n).Grows ((w.repoOf n).moveHead (E.asRead p.branch) commit hk) := by
  obtain ⟨tree, -, hCommit⟩ := hp.built
  apply Repo.grows_moveHead
  intro k hOld
  obtain rfl := Option.some.inj (hHead.symm.trans hOld)
  exact ((w.repoOf n).older commit _ hCommit _ List.mem_cons_self).le

theorem Sound.updated (h : w.Sound E) {p : Plan β} {commit cur : Nat}
    (hPc : w.pc n = .updateRef p commit) (hk : commit < (w.repoOf n).commits.length)
    (hHead : (w.repoOf n).head (E.asRead p.branch) = some cur)
    (hAnc : (w.repoOf n).isAncestor cur commit = true) :
    ((w.moved (w.req n).repoId ((w.repoOf n).moveHead (E.asRead p.branch) commit hk)
      ⟨(w.req n).repoId, E.asRead p.branch, p.entries.map fun e => e.file.1, some cur, commit, n⟩).goto n
      (if a = .answered then afterUpdate (w.req n) (w.op n) p commit n else fail .updateRef)).Sound E := by
  obtain rfl := h.head_of_update hPc hHead hAnc
  have hCommitted : w.Committed E n p commit := by
    have hCall := h.calls n
    rw [hPc] at hCall
    exact hCall
  obtain ⟨tree, hBuilt, hCommit⟩ := hCommitted.built
  have hGrows := hCommitted.grows hk hHead
  refine h.loud (v := ⟨_, _, _, some p.head, commit, n⟩) hGrows rfl rfl
    (by rw [hPc]; rfl) ?_ hCommit rfl rfl ?_ ?_ ?_
  · split
    · exact afterUpdate_past
    · rfl
  · intro b k hb
    by_cases hb' : b = E.asRead p.branch
    · subst hb'
      rw [Repo.head_moveHead_self] at hb
      exact .inr (Option.some.inj hb).symm
    · rw [Repo.head_moveHead_of_ne hb'] at hb
      exact .inl hb
  · split
    · have hRestored : ((w.moved (w.req n).repoId
          ((w.repoOf n).moveHead (E.asRead p.branch) commit hk) ⟨(w.req n).repoId, E.asRead p.branch,
          p.entries.map fun e => e.file.1, some p.head, commit, n⟩).goto n
          (afterUpdate (w.req n) (w.op n) p commit n)).Restored E n commit := by
        refine ⟨p, hCommitted.later ((later_moved hGrows).trans later_goto) req_goto op_goto, ?_⟩
        unfold restoreMove
        rw [req_goto, moves_goto]
        exact List.mem_cons_self
      unfold afterUpdate at hRestored ⊢
      split at hRestored
      · refine ⟨rfl, by simp [Plan.reply], fun _ _ k hk => ?_⟩
        cases hk
        exact hRestored
      · intro _ _ k hk
        cases hk
        exact hRestored
    · exact callOk_fail
  · intro reply hDone hNone
    split at hDone
    · unfold afterUpdate at hDone
      split at hDone <;> cases hDone
      cases hNone
    · cases hDone
      simp [Reply.failed]

theorem Sound.wrote (h : w.Sound E) {put : Put β} {given : Option β} {b : Text} {tree : Files β}
    (hPc : w.pc n = .putting put given)
    (hp : ∀ q ∈ ((w.repo put.repo).head b).toList, q < (w.repo put.repo).commits.length) :
    ((w.moved put.repo
      ((w.repo put.repo).commitOn b ⟨tree, ((w.repo put.repo).head b).toList, some n⟩ hp)
      ⟨put.repo, b, [segments (E.asRead put.path)], (w.repo put.repo).head b,
        (w.repo put.repo).commits.length, n⟩).goto n
      (if a = .answered then afterPut (w.req n) put (w.repo put.repo).commits.length
        else fail .write)).Sound E := by
  have hNot : isRestore (w.op n) = false := by
    have hCall := h.calls n
    rw [hPc] at hCall
    exact hCall
  refine h.loud (v := ⟨_, b, _, _, (w.repo put.repo).commits.length, n⟩) Repo.grows_commitOn rfl rfl
    (by rw [hPc]; rfl) ?_ List.getElem?_concat_length rfl rfl ?_ ?_ ?_
  · split
    · exact afterPut_past
    · rfl
  · intro x k hx
    by_cases hxb : x = b
    · subst hxb
      exact .inr (Option.some.inj (hx.symm.trans (if_pos rfl)))
    · exact .inl ((if_neg hxb).symm.trans hx)
  · split
    · unfold afterPut
      split
      · exact callOk_of_not_restore ((congrArg isRestore op_goto).trans hNot) (.inl ⟨_, rfl⟩)
      · split
        · exact callOk_of_not_restore ((congrArg isRestore op_goto).trans hNot) (.inl ⟨_, rfl⟩)
        · exact (congrArg isRestore op_goto).trans hNot
    · exact callOk_fail
  · intro reply hDone hNone
    split at hDone
    · unfold afterPut at hDone
      split at hDone
      · cases hDone
        cases hNone
      · split at hDone <;> cases hDone
        cases hNone
    · cases hDone
      simp [Reply.failed]

section Steps

variable [DecidableEq β]

theorem Sound.looked (h : w.Sound E) {pc : Pc β}
    (hLook : w.look E n a (w.pc n) = some pc) : (w.goto n pc).Sound E := by
  have hCall : (w.goto n pc).CallOk E n pc :=
    (callOk_look (h.calls n) hLook).later later_goto req_goto op_goto
  apply h.quiet (sameCalls_goto rfl) later_goto _ _ (fun _ => rfl) rfl
  · rcases look_end hLook with ⟨-, -, hSome⟩ | ⟨hPrep, -⟩
    · refine .inr fun reply hDone hNone => absurd hNone (hSome reply ?_)
      rwa [pc_goto_self] at hDone
    · exact .inl hPrep
  · rw [pc_goto_self]
    exact hCall
  · intro hPast
    rw [pc_goto_self]
    rcases look_end hLook with ⟨-, hEnd, -⟩ | ⟨hPrep, -⟩
    · exact hEnd
    · rw [hPast] at hPrep
      cases hPrep

theorem Sound.took (h : w.Sound E) (ht : Took E w n a t) : t.Sound E := by
  cases ht with
  | looked pc hLook => exact h.looked hLook
  | created p tree hA hPc hp => exact h.created hPc hp
  | updated p commit cur hA hPc hk hHead hAnc => exact h.updated hPc hk hHead hAnc
  | wrote put given base tree hA hPc hp => exact h.wrote hPc hp
  | recorded c reply hPc =>
    have hCall := h.calls n
    rw [hPc] at hCall
    obtain ⟨-, hSome, hCall⟩ := hCall
    refine h.quiet (sameCalls_goto (u := { w with index := _ }) rfl) ⟨fun _ => .refl _, fun _ hv => hv⟩
      ?_ (fun _ => ?_) (fun _ => rfl) rfl (.inr fun reply' hDone hNone => ?_)
    · rw [pc_goto_self]
      intro hRestore hOk commit hCommit
      rw [op_goto] at hRestore
      have hLater : w.Later (World.goto { w with index := if a = .refused then w.index else c :: w.index }
          n (.done reply)) := ⟨fun _ => .refl _, fun _ hv => hv⟩
      exact (hCall hRestore hOk commit hCommit).later hLater req_goto op_goto
    · rw [pc_goto_self]
      rfl
    · rw [pc_goto_self] at hDone
      cases hDone
      exact absurd hNone hSome
  | refused reply hPrep hFail =>
    refine h.quiet (sameCalls_goto rfl) later_goto ?_ (fun _ => ?_) (fun _ => rfl) rfl (.inl hPrep)
    · rw [pc_goto_self]
      exact callOk_done_failed hFail
    · rw [pc_goto_self]
      rfl

omit [DecidableEq β] in
theorem Sound.called (h : w.Sound E) (hPc : w.pc n = .absent) {q : Request} {op : Op} {token : Bool}
    (hKnows : w.knows q op = true) :
    World.Sound E { w with call := Function.update w.call n ⟨q, op, begin E q op token⟩ } := by
  have hMoves := h.no_move (n := n) (by rw [hPc]; rfl)
  refine ⟨fun m => ?_, fun id b k c m hHead hc hAuthor => ?_, fun v hv => ?_,
    fun m reply hDone hNone hOk v hv => ?_⟩
  · by_cases hmn : m = n
    · subst hmn
      simp only [World.pc, Function.update_self]
      exact callOk_begin (by simp [World.req]) (by simp [World.op]) hKnows
    · simp only [World.pc, Function.update_of_ne hmn]
      have hLater : w.Later { w with call := Function.update w.call n ⟨q, op, begin E q op token⟩ } :=
        ⟨fun _ => .refl _, fun _ hv => hv⟩
      exact (h.calls m).later hLater (by simp [World.req, hmn]) (by simp [World.op, hmn])
  · have hPast := h.heads id b k c m hHead hc hAuthor
    have hmn : m ≠ n := by
      rintro rfl
      rw [hPc] at hPast
      cases hPast
    simp only [World.pc, Function.update_of_ne hmn]
    exact hPast
  · simp only [World.pc, Function.update_of_ne (hMoves v hv)]
    exact h.moves v hv
  · by_cases hmn : m = n
    · exact hmn ▸ hMoves v hv
    · simp only [World.pc, Function.update_of_ne hmn] at hDone
      exact h.idle m reply hDone hNone hOk v hv

omit [DecidableEq β] in
theorem Sound.outside (h : w.Sound E) {id : RepoId} {b : Text} {tree : Files β} {merged : List Nat}
    (hs : w.outside id b tree merged = some t) : t.Sound E := by
  unfold World.outside at hs
  split at hs
  next k hHead =>
    split at hs
    next hm =>
      cases hs
      have hLater : w.Later (w.setRepo id ((w.repo id).commitOn b ⟨tree, k :: merged, none⟩
          fun p hp => (List.mem_cons.mp hp).elim
            (fun he => he ▸ (w.repo id).headKnown b k hHead) (hm p))) :=
        later_setRepo Repo.grows_commitOn
      refine h.advance (n := 0) ⟨fun _ _ => rfl, fun _ => rfl, fun _ => rfl⟩ hLater
        ((h.calls 0).later hLater rfl rfl) (fun hPast => hPast) ?_ (fun v hv => .inl hv) (h.idle 0) (fun v hv => .inl hv)
      intro x y j hNew
      by_cases hx : x = id
      · subst hx
        rw [repo_setRepo_self] at hNew ⊢
        by_cases hy : y = b
        · subst hy
          obtain rfl := Option.some.inj (hNew.symm.trans (if_pos rfl))
          exact .inr ⟨_, List.getElem?_concat_length, fun m hm => by cases hm⟩
        · exact .inl (hNew.symm.trans (if_neg hy)).symm
      · rw [repo_setRepo_of_ne hx] at hNew
        exact .inl hNew
    next => cases hs
  next => cases hs

theorem Sound.step (h : w.Sound E) {act : Act β} (hs : World.step E w act = some t) : t.Sound E := by
  cases act with
  | call n q op token =>
    cases hPc : w.pc n <;> simp only [World.step, hPc, reduceCtorEq] at hs
    split at hs
    next hKnows =>
      cases hs
      exact h.called hPc hKnows
    next => cases hs
  | request n a => exact h.took (request_took hs)
  | outside id b tree merged => exact h.outside hs

theorem Sound.reach {ok : World β → Act β → Prop} {w₀ : World β} (hInit : w₀.Initial)
    (h : Reach (World.step E) ok w₀ w) : w.Sound E :=
  h.invariant hInit.sound fun _ _ _ _ hSound _ hs => hSound.step hs

end Steps

end World

end OpenSpoke.GitHub.Remote
