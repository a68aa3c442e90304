import Gambit.Sched.KvCaches

/-!
# Runs of the scheduler with its KV cache manager

The scheduler as a machine, over `Caches.withKv`. What a call gives back (`Released`) and what a scheduling pass
takes (`Effect.kv`) keep `Scheduler.Kv`, so it holds in every run.
-/

namespace Gambit.Sched
open Gambit.Lib Gambit.KV

variable {η ε β : Type} [DecidableEq η] {enc : Caches ε β} {cfg : VllmConfig} {H : Hasher η}

namespace Scheduler
variable {s₀ s s' s'' : KVCacheManager η} {t t' t'' : Scheduler (KvState η ε)} {r : Request}

/-- The manager between two calls: only running requests have blocks, and these reach over the computed tokens. -/
structure Kv (H : Hasher η) (s₀ : KVCacheManager η) (t : Scheduler (KvState η ε)) (s : KVCacheManager η) : Prop where
  ok : t.caches.1 = .ok s
  inv : s.Inv H
  shape : KVCacheManager.SameShape s₀ s
  unknown : ∀ x, x ∉ t.running → s.Unknown x
  backed : ∀ x ∈ t.running, ∀ r, t.requests.get? x = some r → s.Backed x r.numComputedTokens
  plain : Pass.Plain s₀ t.requests

/-- Requests left the store and gave back their blocks, and only those. -/
structure Released (H : Hasher η) (t t' : Scheduler (KvState η ε)) (s s' : KVCacheManager η) : Prop where
  ok : t'.caches.1 = .ok s'
  inv : s'.Inv H
  shape : KVCacheManager.SameShape s s'
  blockHash : ∀ b, s'.blockPool.blockHash b = s.blockPool.blockHash b
  stored : ∀ x ∈ t'.requests, x ∈ t.requests
  unknown : ∀ x, s.Unknown x ∨ x ∈ t.requests ∧ x ∉ t'.requests → s'.Unknown x
  untouched : ∀ x ∈ t'.requests, s.Untouched x s'

/-- The same memory for the same requests. -/
lemma Released.same (hinv : s.Inv H) (hok : t'.caches.1 = .ok s) (hmem : ∀ x, x ∈ t'.requests ↔ x ∈ t.requests) :
    Released H t t' s s where
  ok := hok
  inv := hinv
  shape := .refl s
  blockHash _ := rfl
  stored x := (hmem x).1
  unknown x hx := hx.elim id fun hx => absurd ((hmem x).2 hx.1) hx.2
  untouched x _ := .refl x s

lemma Released.trans (h : Released H t t' s s') (h' : Released H t' t'' s' s'') : Released H t t'' s s'' where
  ok := h'.ok
  inv := h'.inv
  shape := h.shape.trans h'.shape
  blockHash b := (h'.blockHash b).trans (h.blockHash b)
  stored x hx := h.stored x (h'.stored x hx)
  unknown x hx := by
    rcases hx with hx | ⟨hx, hn⟩
    · exact h'.unknown x (.inl (h.unknown x (.inl hx)))
    · by_cases hm : x ∈ t'.requests
      · exact h'.unknown x (.inr ⟨hm, hn⟩)
      · exact h'.unknown x (.inl (h.unknown x (.inr ⟨hx, hm⟩)))
  untouched x hx := (h.untouched x (h'.stored x hx)).trans (h'.untouched x hx)

/-- A freed request gives its blocks back. -/
lemma Released.freeRequest (enc : Caches ε β) (hinv : s.Inv H) (hok : t.caches.1 = .ok s) (r : Request) :
    ∃ s', Released H t (t.freeRequest (enc.withKv H) r) s s' := by
  obtain ⟨s', hfree, hinv', hfr⟩ := hinv.free r.requestId
  refine ⟨s', withKv_freeBlocks (H := H) (m := (enc.withKv H).freeEncoder t.caches r) enc hok hfree, hinv', hfr.shape,
    hfr.blockHash, fun x hx => (Dict.mem_erase.1 hx).2, fun x hx => ?_,
    fun x hx => hfr.untouched (Dict.mem_erase.1 hx).1⟩
  by_cases he : x = r.requestId
  · rw [he]
    exact hfr.unknown
  · rcases hx with hx | ⟨hx, hn⟩
    · exact hx.untouched (hfr.untouched he)
    · exact absurd (Dict.mem_erase.2 ⟨he, hx⟩) hn

/-- What every step of a loop gives back, the loop gives back. -/
lemma Released.foldl {κ : Type} {σ : Type} (view : σ → Scheduler (KvState η ε)) {f : σ → κ → σ}
    (hstep : ∀ p k s, (view p).caches.1 = .ok s → s.Inv H → ∃ s', Released H (view p) (view (f p k)) s s')
    (l : List κ) (p : σ) (hok : (view p).caches.1 = .ok s) (hinv : s.Inv H) :
    ∃ s', Released H (view p) (view (l.foldl f p)) s s' := by
  induction l generalizing p s with
  | nil => exact ⟨s, .same hinv hok fun _ => Iff.rfl⟩
  | cons k l ih =>
    obtain ⟨s₁, h₁⟩ := hstep p k s hok hinv
    obtain ⟨s₂, h₂⟩ := ih (f p k) h₁.ok h₁.inv
    exact ⟨s₂, h₁.trans h₂⟩

/-- `update_from_output` gives back the blocks of the requests that stopped. -/
lemma Released.updateFromOutput (enc : Caches ε β) (cfg : VllmConfig) (so : SchedulerOutput KvBlocks)
    (mo : ModelRunnerOutput) (finals : Dict ReqId (Option ℚ)) (histories : Option (Dict ReqId (List ℚ)))
    (hinv : s.Inv H) (hok : t.caches.1 = .ok s) :
    ∃ s', Released H t (t.updateFromOutput (enc.withKv H) cfg so mo finals histories).1 s s' := by
  have hstep : ∀ (p : UpdatePass (KvState η ε)) (rid : ReqId) (s : KVCacheManager η), p.sched.caches.1 = .ok s →
      s.Inv H → ∃ s', Released H p.sched (updateRequest (enc.withKv H) cfg so mo finals histories p rid).sched s s' := by
    intro p rid s hok hinv
    unfold updateRequest
    split
    · exact ⟨s, .same hinv hok fun _ => Iff.rfl⟩
    · next r hr =>
      dsimp only
      have hmem : rid ∈ p.sched.requests := Dict.mem_of_get? hr
      have hset : ∀ r' : Request,
          Released H p.sched { p.sched with requests := p.sched.requests.set rid r' } s s :=
        fun r' => .same hinv hok fun x => Dict.mem_set.trans ⟨fun hx => hx.elim (fun he => he ▸ hmem) id, .inr⟩
      generalize (rejectDrafts so r (mo.getD rid [])).updateRequestWithOutput
        cfg.scheduler.maxModelLen (mo.getD rid []) = a
      obtain ⟨r', ts, stopped⟩ := a
      cases stopped with
      | false => exact ⟨s, hset r'⟩
      | true =>
        obtain ⟨s', hfree⟩ := Released.freeRequest enc (hset r').inv (hset r').ok r'
        simp only [if_true]
        split
        · exact ⟨s', (hset r').trans hfree⟩
        · exact ⟨s', (hset r').trans hfree⟩
  obtain ⟨s', h⟩ := Released.foldl UpdatePass.sched hstep so.numScheduledTokens.keys { sched := t } hok hinv
  exact ⟨s', h.ok, h.inv, h.shape, h.blockHash, h.stored, h.unknown, h.untouched⟩

/-- `finish_requests` gives back the blocks of the requests it finishes. -/
lemma Released.finishRequests (enc : Caches ε β) (rids : List ReqId) (status : RequestStatus) (hinv : s.Inv H)
    (hok : t.caches.1 = .ok s) : ∃ s', Released H t (t.finishRequests (enc.withKv H) rids status) s s' := by
  have hstep : ∀ (t : Scheduler (KvState η ε)) (rid : ReqId) (s : KVCacheManager η), t.caches.1 = .ok s → s.Inv H →
      ∃ s', Released H t (finishRequest (enc.withKv H) status t rid) s s' := by
    intro t rid s hok hinv
    unfold finishRequest
    split
    · exact ⟨s, .same hinv hok fun _ => Iff.rfl⟩
    · exact Released.freeRequest enc hinv hok _
  unfold Scheduler.finishRequests
  dsimp only
  generalize rids.dedup.filter _ = valid
  generalize hq : ({ t with running := _, waiting := _ } : Scheduler (KvState η ε)) = q
  have hok' : q.caches.1 = .ok s := by
    rw [← hq]
    exact hok
  obtain ⟨s', h⟩ := Released.foldl id hstep valid q hok' hinv
  refine ⟨s', h.ok, h.inv, h.shape, h.blockHash, ?_, ?_, h.untouched⟩
  · have hs := h.stored
    rw [← hq] at hs ⊢
    exact hs
  · have hu := h.unknown
    rw [← hq] at hu ⊢
    exact hu

/-- What a call gives back, the manager keeps the rest. -/
lemma Kv.released (h : t.Kv H s₀ s) (hrel : Released H t t' s s') (hwf : t.WF) (hwf' : t'.WF)
    (hreq : ∀ x r', t'.requests.get? x = some r' → ∃ r, t.requests.get? x = some r ∧ r'.status = r.status ∧
      r'.numComputedTokens ≤ r.numComputedTokens) (hplain : Pass.Plain s₀ t'.requests) : t'.Kv H s₀ s' := by
  refine ⟨hrel.ok, hrel.inv, h.shape.trans hrel.shape, fun x hx => ?_, fun x hx r' hr' => ?_, hplain⟩
  · by_cases hm : x ∈ t.running
    · refine hrel.unknown x (.inr ⟨(hwf.mem x).2 (List.mem_append_left _ hm), fun hst => hx ?_⟩)
      obtain ⟨r', hr'⟩ := Dict.mem_iff_get?.1 hst
      obtain ⟨r, hr, hs, -⟩ := hreq x r' hr'
      exact (hwf'.status x r' hr').1 (hs.trans ((hwf.status x r hr).2 hm))
    · exact hrel.unknown x (.inl (h.unknown x hm))
  · obtain ⟨r, hr, hs, hle⟩ := hreq x r' hr'
    have hm : x ∈ t.running := (hwf.status x r hr).1 (hs.symm.trans ((hwf'.status x r' hr').2 hx))
    have hpos := (h.inv.shaped.congr hrel.shape).blockSize_pos
    exact ((h.backed x hm r hr).untouched (hrel.untouched x (Dict.mem_of_get? hr')) hrel.shape).mono hpos hle

/-- Relabelling keeps the blocks. -/
lemma Kv.relabels (h : t.Kv H s₀ s) (hwf : t.WF) (hrel : t.Relabels t') (hcache : t'.caches = t.caches)
    (hplain : Pass.Plain s₀ t'.requests) : t'.Kv H s₀ s := by
  have hok : t'.caches.1 = .ok s := by
    rw [hcache]
    exact h.ok
  refine h.released (.same h.inv hok fun x => hrel.mem) hwf (hrel.wf hwf) (fun x r' hr' => ?_) hplain
  obtain ⟨r, hr, -, hs, hc⟩ := hrel.back hr'
  exact ⟨r, hr, hs, Int.le_of_eq hc⟩

/-- A request after in-place updates comes from one before. -/
lemma back_foldl_modify {κ : Type} {R : Request → Request → Prop} (hrefl : ∀ r, R r r)
    (htrans : ∀ {a b c}, R a b → R b c → R a c) (key : κ → ReqId) (f : κ → Request → Request)
    (hf : ∀ k r, R r (f k r)) (l : List κ) {d : Dict ReqId Request} {x : ReqId} {r' : Request}
    (hr' : (l.foldl (fun d k => d.modify (key k) (f k)) d).get? x = some r') : ∃ r, d.get? x = some r ∧ R r r' := by
  have hrel := rel_foldl_modify hrefl htrans key f hf l d x
  rw [hr'] at hrel
  generalize d.get? x = o at hrel
  cases hrel with
  | some h => exact ⟨_, rfl, h⟩

/-- In-place updates that leave the drafts alone. -/
lemma noDrafts_foldl {κ : Type} (key : κ → ReqId) (f : κ → Request → Request)
    (hf : ∀ k r, (f k r).specTokenIds = r.specTokenIds) (l : List κ) {d : Dict ReqId Request}
    (hnone : ∀ x r, d.get? x = some r → r.specTokenIds = []) (x : ReqId) (r' : Request)
    (hr' : (l.foldl (fun d k => d.modify (key k) (f k)) d).get? x = some r') : r'.specTokenIds = [] := by
  obtain ⟨r, hr, he⟩ := back_foldl_modify (R := fun r r' => r'.specTokenIds = r.specTokenIds) (fun _ => rfl)
    (fun hab hbc => hbc.trans hab) key f hf l hr'
  exact he.trans (hnone x r hr)

/-- A request that is added has no blocks. -/
lemma Kv.addRequest (policy : SchedulingPolicy) (h : t.Kv H s₀ s) (hwf : t.WF) (hr : r.requestId ∉ t.requests)
    (hspec : r.specTokenIds = []) : (t.addRequest policy r).Kv H s₀ s := by
  refine ⟨h.ok, h.inv, h.shape, h.unknown, fun x hx r' hr' => ?_, h.plain.imp_right fun hnone x r' hr' => ?_⟩
  · have hm : x ∈ t.requests := (hwf.mem x).2 (List.mem_append_left _ hx)
    have hne : x ≠ r.requestId := fun he => hr (he ▸ hm)
    rw [get?_addRequest, if_neg hne] at hr'
    exact h.backed x hx r' hr'
  · rw [get?_addRequest] at hr'
    split at hr'
    · cases hr'
      exact hspec
    · exact hnone x r' hr'

/-- Advancing the scheduled requests leaves the manager alone. -/
lemma foldl_advance_kv (enc : Caches ε β) (H : Hasher η) (l : List (ReqId × Int)) (t : Scheduler (KvState η ε)) :
    (l.foldl (Scheduler.advance (enc.withKv H)) t).caches.1 = t.caches.1 := by
  induction l generalizing t with
  | nil => rfl
  | cons e l ih =>
    rw [List.foldl_cons, ih]
    unfold Scheduler.advance
    split
    · rfl
    · dsimp only
      split
      · rfl
      · rfl

/-- The pass a schedule starts with. -/
lemma Kv.startPass (h : t.Kv H s₀ s) : (t.startPass (β := KvBlocks) cfg).Kv H s₀ s := by
  have hsched : (t.startPass (β := KvBlocks) cfg).sched.caches = t.caches ∧
      (t.startPass (β := KvBlocks) cfg).sched.requests = t.requests ∧
      ∀ x, x ∈ (t.startPass (β := KvBlocks) cfg).sched.running ↔ x ∈ t.running := by
    unfold Scheduler.startPass
    dsimp only
    split
    · exact ⟨rfl, rfl, fun x => (List.perm_insertionSort t.scoreLE t.running).mem_iff⟩
    · exact ⟨rfl, rfl, fun x => Iff.rfl⟩
  obtain ⟨hc, hr, hrun⟩ := hsched
  refine ⟨hc ▸ h.ok, h.inv, h.shape, fun x hx => h.unknown x ((hrun x).not.1 hx), fun x hx r hx' => ?_, hr ▸ h.plain⟩
  rw [hr] at hx'
  have hnum : (t.startPass (β := KvBlocks) cfg).numScheduledTokens = ∅ := rfl
  rw [hnum, Dict.getD_eq, Dict.get?_empty, Option.getD_none, Int.add_zero]
  exact h.backed x ((hrun x).1 hx) r hx'

/-- What `schedule` leaves of its pass: the scheduled requests are advanced. -/
structure AfterPass (p : Pass (KvState η ε) KvBlocks) (t : Scheduler (KvState η ε)) : Prop where
  caches : t.caches.1 = p.sched.caches.1
  running : t.running = p.sched.running
  requests : ∀ x r', t.requests.get? x = some r' → ∃ r, p.sched.requests.get? x = some r ∧
    r' = r.advance (p.numScheduledTokens.getD x 0)

/-- The end of `schedule`. -/
lemma WF.afterPass {ready : ReqId → Bool} {p : Pass (KvState η ε) KvBlocks} {queue : List ReqId} (hwf : t.WF)
    (hpass : t.schedulePass (enc.withKv H) cfg ready = { p with sched := { p.sched with waiting := queue } }) :
    AfterPass p (t.schedule (enc.withKv H) cfg ready).1 := by
  have hinv : (t.schedulePass (enc.withKv H) cfg ready).InvW (enc.withKv H) cfg t := hwf.schedulePass ready
  have hadv := foldl_advance (enc.withKv H) p.numScheduledTokens.entries p.numScheduledTokens.nodup hinv.wf
  unfold Scheduler.schedule
  rw [hpass] at hadv ⊢
  dsimp only at hadv ⊢
  unfold updateAfterSchedule
  obtain ⟨-, hev, hget⟩ := hadv
  refine ⟨foldl_advance_kv enc H p.numScheduledTokens.entries _,
    foldl_advance_running (enc.withKv H) p.numScheduledTokens.entries _, fun x r' hr' => ?_⟩
  obtain ⟨r, hr, -⟩ := hev.back x r' hr'
  refine ⟨r, hr, ?_⟩
  rw [Dict.getD_eq]
  rcases hget x r hr with ⟨c, hc, he⟩ | ⟨hc, he⟩
  · rw [hr'] at he
    cases he
    rw [Dict.get?_eq_some.2 hc, Option.getD_some]
  · rw [hr'] at he
    cases he
    rw [Dict.get?_eq_none.2 hc, Option.getD_none, Request.advance, Int.add_zero]

/-- The manager after `schedule`. -/
lemma AfterPass.kv {p : Pass (KvState η ε) KvBlocks} (h : AfterPass p t) (hp : p.Kv H s₀ s) :
    t.Kv H s₀ s := by
  refine ⟨h.caches.trans hp.ok, hp.inv, hp.shape, fun x hx => hp.unknown x (h.running ▸ hx), fun x hx r' hr' => ?_,
    hp.plain.imp_right fun hnone x r' hr' => ?_⟩
  · obtain ⟨r, hr, rfl⟩ := h.requests x r' hr'
    exact hp.backed x (h.running ▸ hx) r hr
  · obtain ⟨r, hr, rfl⟩ := h.requests x r' hr'
    exact hnone x r hr

/-- `schedule` keeps what the manager keeps. -/
lemma Kv.schedule {done : ReqId → Prop} (henc : enc.EncoderLowers) (inj : H.Injective) (hwin : s₀.Windowed)
    (hmax : s₀.maxModelLen = cfg.scheduler.maxModelLen) (ready : ReqId → Bool) (h : t.Kv H s₀ s) (hwf : t.WF)
    (hstart : (t.startPass (β := KvBlocks) cfg).Grants cfg done) :
    ∃ s', (t.schedule (enc.withKv H) cfg ready).1.Kv H s₀ s' := by
  obtain ⟨p, queue, ⟨s', hp⟩, -, -, hpass⟩ := hwf.schedulePass_keep (P := fun p => ∃ s, p.Kv H s₀ s)
    (Caches.withKv_laws henc H) ready hstart
    (fun hmove hg hp => by
      obtain ⟨s, hp⟩ := hp
      obtain ⟨s', hok, hinv, heff⟩ := hmove.effect henc inj hwin hmax hg hp
      exact ⟨s', heff.kv hok hinv hp⟩)
    ⟨s, h.startPass⟩
  exact ⟨s', (hwf.afterPass hpass).kv hp⟩

omit [DecidableEq η] in
/-- A request that goes on: more output, and fewer computed tokens if drafts were rejected. -/
lemma UpdateSpec.back {so : SchedulerOutput KvBlocks} {mo : ModelRunnerOutput} {P : ReqId → Prop}
    (spec : UpdateSpec cfg so mo t t') (hwf : t.WF)
    (hans : ∀ x r, t.requests.get? x = some r → Answered cfg so mo (P x) x r) {x : ReqId} {r' : Request}
    (hr' : t'.requests.get? x = some r') : ∃ r n l, t.requests.get? x = some r ∧
      r' = { r with numComputedTokens := n, outputTokenIds := r.outputTokenIds ++ l } ∧ n ≤ r.numComputedTokens ∧
      (x ∉ so.numScheduledTokens ∨ (so.scheduledSpecDecodeTokens.getD x []).length = 0 →
        n = r.numComputedTokens) := by
  rw [spec.requests] at hr'
  split at hr'
  · next hm =>
    obtain ⟨r, hr, ho⟩ := Option.bind_eq_some_iff.1 hr'
    obtain ⟨he, -⟩ := outcome_eq_some ho
    have hrej := rejectDrafts_computed so r (mo.getD x [])
    obtain ⟨n, hn⟩ := rejectDrafts_eq so r (mo.getD x [])
    have hlen := (hans x r hr).length
    rw [hwf.requestId x r hr, hn] at hrej
    rw [hn] at he
    dsimp only at hrej
    refine ⟨r, n, mo.getD x [], hr, he, ?_, fun hd => ?_⟩
    · rw [hrej]
      split
      · exact Int.le_refl _
      · omega
    · rw [hrej, if_pos (hd.resolve_left fun hn => hn hm)]
  · refine ⟨r', r'.numComputedTokens, [], hr', ?_, Int.le_refl _, fun _ => rfl⟩
    rw [List.append_nil]

end Scheduler

variable {s₀ s : KVCacheManager η} {done done' : ReqId → Prop}

/-- Every call keeps what the manager keeps. -/
lemma SchedState.kv_next (henc : enc.EncoderLowers) (inj : H.Injective) (hwin : s₀.Windowed)
    (hmax : s₀.maxModelLen = cfg.scheduler.maxModelLen) (hbatch : 0 ≤ cfg.scheduler.maxNumBatchedTokens)
    {h : List SchedEvent} {os : List SchedRecord} {x : SchedState (KvState η ε) KvBlocks} {ev : SchedEvent}
    (hs : x.sched.Sound (h.filterMap SchedEvent.added))
    (hx : Steady cfg (fun _ _ => False) (fun _ _ => False) done h os x) (hok : ev.Ok h)
    (hc : ModelAnswers cfg done' x ev)
    (hfull : (∀ m ∈ s₀.managers, m.spec = .full) ∨ ∀ drafts, ev ≠ .updateDraftTokenIds drafts)
    (hk : x.sched.Kv H s₀ s) : ∃ s', (x.next (enc.withKv H) cfg ev).1.sched.Kv H s₀ s' := by
  cases ev with
  | addRequest r =>
    obtain ⟨hnew, hid⟩ := hok
    have hfresh : r.requestId ∉ x.sched.requests := fun hm => hid (hs.added _ hm)
    exact ⟨s, hk.addRequest cfg.policy hs.wf hfresh hnew.specTokenIds⟩
  | schedule ready =>
    cases hb : x.batch with
    | some so =>
      simp only [SchedState.next, hb]
      exact ⟨s, hk⟩
    | none =>
      simp only [SchedState.next, hb]
      have hlive := hx.live
      rw [hb] at hlive
      have hstart : (x.sched.startPass (β := KvBlocks) cfg).Grants cfg done :=
        Scheduler.startPass_grants hbatch hx.length (fun rid r hr => (hlive rid r hr).1)
          fun rid r hd hr => (hlive rid r hr).2 hd
      exact hk.schedule henc inj hwin hmax ready hs.wf hstart
  | updateFromOutput mo finals histories =>
    obtain ⟨so, hb, hans⟩ := hc
    simp only [SchedState.next, hb]
    have spec : Scheduler.UpdateSpec cfg so mo x.sched
        (x.sched.updateFromOutput (enc.withKv H) cfg so mo finals histories).1 :=
      hs.wf.updateFromOutput so mo finals histories
    obtain ⟨s', hrel⟩ := Scheduler.Released.updateFromOutput (t := x.sched) enc cfg so mo finals histories hk.inv hk.ok
    refine ⟨s', hk.released hrel hs.wf spec.wf (fun rid r' hr' => ?_) (hk.plain.imp_right fun hnone rid r' hr' => ?_)⟩
    · obtain ⟨r, n, l, hr, rfl, hle, -⟩ := spec.back hs.wf hans hr'
      exact ⟨r, hr, rfl, hle⟩
    · obtain ⟨r, n, l, hr, rfl, -⟩ := spec.back hs.wf hans hr'
      exact hnone rid r hr
  | finishRequests rids status =>
    have spec := hs.wf.finishRequests (enc.withKv H) rids status
    have hback : ∀ rid r', (x.sched.finishRequests (enc.withKv H) rids status).requests.get? rid = some r' →
        x.sched.requests.get? rid = some r' := by
      intro rid r' hr'
      rw [spec.requests] at hr'
      split at hr'
      · cases hr'
      · exact hr'
    obtain ⟨s', hrel⟩ := Scheduler.Released.finishRequests (t := x.sched) enc rids status hk.inv hk.ok
    refine ⟨s', hk.released hrel hs.wf spec.wf (fun rid r' hr' => ?_) (hk.plain.imp_right fun hnone rid r' hr' => ?_)⟩
    · exact ⟨r', hback rid r' hr', rfl, Int.le_refl _⟩
    · exact hnone rid r' (hback rid r' hr')
  | markStopReason rids reason =>
    have hrel := Scheduler.relabels_markStopReason x.sched rids reason
    refine ⟨s, hk.relabels hs.wf hrel rfl (hk.plain.imp_right fun hnone => ?_)⟩
    refine Scheduler.noDrafts_foldl id
      (fun _ r => if r.status.isFinished then r else { r with stopReason := some reason }) (fun _ r => ?_) rids hnone
    split
    · rfl
    · rfl
  | updateTraceScores scores =>
    have hrel := Scheduler.relabels_updateTraceScores x.sched scores
    refine ⟨s, hk.relabels hs.wf hrel rfl (hk.plain.imp_right fun hnone => ?_)⟩
    exact Scheduler.noDrafts_foldl Prod.fst (fun e r => { r with traceAvgScore := some e.2 }) (fun _ _ => rfl)
      scores.entries hnone
  | updateDraftTokenIds drafts =>
    have hrel := Scheduler.relabels_updateDraftTokenIds x.sched drafts
    exact ⟨s, hk.relabels hs.wf hrel rfl (.inl (hfull.resolve_right fun hn => hn drafts rfl))⟩

/-- What the states of a run keep of the manager. -/
lemma kv_of_runs (henc : enc.EncoderLowers) (inj : H.Injective) (hinv : s₀.Inv H) (hwin : s₀.Windowed)
    (hfree : ∀ x, s₀.Unknown x) (hmax : s₀.maxModelLen = cfg.scheduler.maxModelLen)
    (hbatch : 0 ≤ cfg.scheduler.maxNumBatchedTokens) {e : ε} {h : List SchedEvent} {os : List SchedRecord}
    {x : SchedState (KvState η ε) KvBlocks} (run : (schedMachine (enc.withKv H) cfg (.ok s₀, e)).Runs h os x)
    (hc : (schedMachine (enc.withKv H) cfg (.ok s₀, e)).Along ModelContract h)
    (hfit : ∀ r, SchedEvent.addRequest r ∈ h → r.Fits cfg)
    (hplain : (∀ m ∈ s₀.managers, m.spec = .full) ∨ ∀ drafts, SchedEvent.updateDraftTokenIds drafts ∉ h) :
    ∃ s, x.sched.Kv H s₀ s := by
  induction run with
  | init =>
    refine ⟨s₀, rfl, hinv, .refl s₀, fun x _ => hfree x, fun x hx => absurd hx List.not_mem_nil, .inr fun x r hr => ?_⟩
    exact absurd (Dict.mem_of_get? hr) Dict.not_mem_empty
  | @step h os x ev run hok ih =>
    obtain ⟨hc1, hc2⟩ := run.along_concat hc
    have hfit1 : ∀ r, SchedEvent.addRequest r ∈ h → r.Fits cfg := fun r hr => hfit r (List.mem_append_left _ hr)
    obtain ⟨s, hk⟩ := ih hc1 hfit1
      (hplain.imp_right fun hnone drafts hm => hnone drafts (List.mem_append_left _ hm))
    have hx := steady_of_runs (Caches.withKv_laws henc H) (fun _ => ⟨id, id⟩) hbatch run hc1 hfit1
    refine SchedState.kv_next henc inj hwin hmax hbatch (sound_of_runs run) hx hok (hc2.answers (· ∈ prefilled h os)) ?_ hk
    refine hplain.imp_right fun hnone drafts he => hnone drafts (List.mem_append_right _ ?_)
    rw [he]
    exact List.mem_singleton_self _

omit [DecidableEq η] in
/-- A new manager has the groups of the configuration, and nobody holds a block. -/
lemma managers_init {maxModelLen numGpuBlocks : Nat} {useEagle enableCaching : Bool}
    {groups : List (AttentionSpec × Nat)} {m : SingleTypeManager}
    (hm : m ∈ (KVCacheManager.init maxModelLen useEagle numGpuBlocks enableCaching groups :
      KVCacheManager η).managers) :
    (∃ g ∈ groups, m.spec = g.1) ∧ ∀ rid, m.table rid = [] ∧ rid ∉ m.numCachedBlock := by
  obtain ⟨i, hi, rfl⟩ := List.mem_mapIdx.1 hm
  exact ⟨⟨groups[i], List.getElem_mem hi, rfl⟩, fun _ => ⟨rfl, Dict.not_mem_empty⟩⟩

/-- The scheduler and its KV cache manager between two calls. -/
structure KvInvariant (H : Hasher η) (t : Scheduler (KvState η ε)) (s : KVCacheManager η) : Prop where
  /-- No call raised. -/
  ok : t.caches.1 = .ok s
  /-- No look-up would. -/
  lookup : ∀ r, ∃ hit, s.getComputedBlocks H r = .ok hit
  consistent : s.Consistent
  /-- Only running requests hold blocks. -/
  holders : ∀ rid, rid ∉ t.running → ∀ m ∈ s.managers, m.table rid = []
  /-- The blocks of a running request reach over its computed tokens, in every group. -/
  reach : ∀ rid ∈ t.running, ∀ r, t.requests.get? rid = some r → ∀ m ∈ s.managers,
    r.numComputedTokens ≤ (m.table rid).length * m.blockSize
  drained : t.running = [] → s.blockPool.getNumFreeBlocks = (s.blockPool.numGpuBlocks : Int) - 1

/-- In every run of the scheduler in which the model keeps its promise and every added request fits, no call of the
KV cache manager raises, its pool stays consistent, and the running requests alone hold blocks, which reach over their
computed tokens. Under PRIORITY this is for runs in which no added request ties with a stored one; where the attention
of a group skips blocks, for runs without drafts. -/
theorem kv_backed_of_runs (henc : enc.EncoderLowers) (inj : H.Injective) {numGpuBlocks : Nat}
    {useEagle enableCaching : Bool} {groups : List (AttentionSpec × Nat)} (hpos : 0 < numGpuBlocks)
    (hshape : (KVCacheManager.init cfg.scheduler.maxModelLen useEagle numGpuBlocks enableCaching groups :
      KVCacheManager η).Shaped H)
    (hwin : ∀ g ∈ groups, ∀ w, g.1 = .slidingWindow w → 0 < w)
    (hbatch : 0 ≤ cfg.scheduler.maxNumBatchedTokens) {e : ε} {h : List SchedEvent} {os : List SchedRecord}
    {x : SchedState (KvState η ε) KvBlocks}
    (run : (schedMachine (enc.withKv H) cfg
      (.ok (.init cfg.scheduler.maxModelLen useEagle numGpuBlocks enableCaching groups), e)).Runs h os x)
    (hc : (schedMachine (enc.withKv H) cfg
      (.ok (.init cfg.scheduler.maxModelLen useEagle numGpuBlocks enableCaching groups), e)).Along ModelContract h)
    (hfit : ∀ r, SchedEvent.addRequest r ∈ h → r.Fits cfg)
    (hkeys : (schedMachine (enc.withKv H) cfg
      (.ok (.init cfg.scheduler.maxModelLen useEagle numGpuBlocks enableCaching groups), e)).Along (NewKey cfg) h)
    (hplain : (∀ g ∈ groups, g.1 = .full) ∨ ∀ drafts, SchedEvent.updateDraftTokenIds drafts ∉ h) :
    (cfg.policy = .priority → x.sched.KeysApart) ∧ ∃ s, KvInvariant H x.sched s := by
  refine ⟨fun hp => keysApart_of_runs hp run hkeys, ?_⟩
  obtain ⟨s, hk⟩ := kv_of_runs henc inj (KVCacheManager.Inv.init hpos hshape)
    (fun m hm w hw => by
      obtain ⟨⟨g, hg, he⟩, -⟩ := managers_init hm
      exact hwin g hg w (he.symm.trans hw))
    (fun rid m hm => (managers_init hm).2 rid) rfl hbatch run hc hfit
    (hplain.imp_left fun hfull m hm => by
      obtain ⟨⟨g, hg, he⟩, -⟩ := managers_init hm
      exact he.trans (hfull g hg))
  have hcons : s.Consistent := hk.inv.consistent (hk.shape.pool.numGpuBlocks ▸ hpos)
  have hnone : ∀ rid, rid ∉ x.sched.running → ∀ m ∈ s.managers, m.table rid = [] :=
    fun rid hr m hm => (hk.unknown rid hr m hm).1
  refine ⟨s, hk.ok, hk.inv.shaped.getComputedBlocks_ok, hcons, hnone, fun rid hr r hget m hm => ?_, fun he => ?_⟩
  · have hb : (0 : Int) < m.blockSize := by exact_mod_cast hk.inv.shaped.blockSize_pos m hm
    have hlen := (hk.backed rid hr r hget m hm).1
    exact (KVCacheManager.le_cdiv_mul _ hb).trans (Int.mul_le_mul_of_nonneg_right hlen hb.le)
  · refine hcons.allFree fun m hm rid => hnone rid ?_ m hm
    rw [he]
    exact List.not_mem_nil

/-- A full and a chunked local group with seven blocks under PRIORITY: the later request waits until the first chunks of
the other one are skipped, enters with their cached block, and is preempted. -/
theorem kv_backed_of_runs_preempted :
    let cfg : VllmConfig := { gambit := {}, scheduler := { policy := .priority, maxModelLen := 100 } }
    let groups : List (AttentionSpec × Nat) := [(.full, 4), (.chunkedLocal 4, 4)]
    let es : List SchedEvent :=
      [.addRequest { requestId := ['a'], promptTokenIds := [1, 1, 1, 1, 1, 1, 1, 1, 1] },
        .addRequest { requestId := ['b'], promptTokenIds := [1, 1, 1, 1, 1, 1, 1], arrivalTime := 1 },
        .schedule fun _ => true, .updateFromOutput ⟨[(['a'], [2])], by decide⟩ ∅ none,
        .schedule fun _ => true, .updateFromOutput ⟨[(['a'], [3]), (['b'], [3])], by decide⟩ ∅ none,
        .schedule fun _ => true, .updateFromOutput ⟨[(['a'], [4]), (['b'], [4])], by decide⟩ ∅ none,
        .schedule fun _ => true, .updateFromOutput ⟨[(['a'], [5]), (['b'], [5])], by decide⟩ ∅ none,
        .schedule fun _ => true]
    let run := (schedMachine (Caches.unbounded.withKv (Hasher.chain 4)) cfg
      (.ok (.init cfg.scheduler.maxModelLen false 8 true groups), ())).exec es
    run.2.sched.running = [['a']] ∧ run.2.sched.waiting = [['b']] ∧
      (cfg.policy = .priority → run.2.sched.KeysApart) ∧ ∃ s, KvInvariant (Hasher.chain 4) run.2.sched s := by
  intro cfg groups es
  refine ⟨by decide +kernel, by decide +kernel, ?_⟩
  refine kv_backed_of_runs Caches.unbounded_laws.encoder (Hasher.injective_chain 4) (by decide) shaped_chunked ?_
    (by decide) (Machine.Runs.of_exec (by decide +kernel)) (by decide +kernel) (fun r hr => ?_)
    (by decide +kernel) (.inr fun drafts hd => ?_)
  · intro g hg w hw
    simp only [groups, List.mem_cons, List.not_mem_nil, or_false] at hg
    rcases hg with rfl | rfl
    · cases hw
    · cases hw
  · simp only [es, List.mem_cons, SchedEvent.addRequest.injEq, reduceCtorEq, List.not_mem_nil, or_false] at hr
    rcases hr with rfl | rfl
    · decide
    · decide
  · simp only [es, List.mem_cons, reduceCtorEq, List.not_mem_nil, or_false] at hd

end Gambit.Sched
