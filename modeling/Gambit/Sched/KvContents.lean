import Gambit.KV.Contents
import Gambit.Sched.KvRuns

/-!
# What running requests read

The scheduler with its KV cache manager and the device memory. `executeModel` writes the tokens of a batch. As long
as nobody who is scheduled is preempted in the same pass, the blocks of a running request contain its own computed
tokens, and the prefix cache what its hashes promise (`kv_contents_of_runs`). Under PRIORITY a scheduled request may be
preempted: its blocks are in the prefix cache and were never written (`cached_not_written`).
-/

namespace Gambit.Sched
open Gambit.Lib Gambit.KV

variable {η ε β ν : Type} [DecidableEq η] {enc : Caches ε β} {cfg : VllmConfig} {H : Hasher η}
variable {kv : Request → Nat → ν} {mem₀ mem : KvMemory ν} {s₀ s s' : KVCacheManager η}

/-- The tokens of a batch, of the requests after `_update_after_schedule`. -/
def batchJobs (requests : Dict ReqId Request) (scheduled : List (ReqId × Int)) : List Job :=
  scheduled.filterMap fun e => (requests.get? e.1).map fun r =>
    ⟨r, (r.numComputedTokens - e.2).toNat, e.2.toNat⟩

/-- What the tokens of a batch leave in memory. -/
def executed (kv : Request → Nat → ν) (s : KVCacheManager η) (jobs : List Job) (mem : KvMemory ν) :
    KvMemory ν := mem.writeAll (jobs.flatMap (Job.writes kv s.managers))

lemma Request.Carries.extends {r r' : Request} (h : r.Carries r') : Extends r r' :=
  ⟨h.promptTokenIds, by rw [h.outputTokenIds], h.loraRequest, h.mmFeatures, h.cacheSalt⟩

namespace Pass
variable {p q : Pass (KvState η ε) KvBlocks} {done : ReqId → Prop} {jobs : List Job}

/-- A job is what its request was scheduled for. -/
structure JobOf (p : Pass (KvState η ε) KvBlocks) (j : Job) (e : ReqId × Int) : Prop where
  requestId : j.request.requestId = e.1
  numTokens : (j.numTokens : Int) = e.2
  le : j.start + j.numTokens ≤ j.request.numTokens
  request : ∀ r, p.sched.requests.get? e.1 = some r →
    Extends j.request r ∧ (j.start : Int) = r.numComputedTokens

/-- The memory at a point of a pass, once the tokens scheduled so far are executed. -/
structure Contents (H : Hasher η) (kv : Request → Nat → ν) (mem₀ : KvMemory ν) (p : Pass (KvState η ε) KvBlocks)
    (s : KVCacheManager η) (jobs : List Job) : Prop where
  ids : ∀ x r, p.sched.requests.get? x = some r → r.requestId = x
  noDrafts : ∀ x r, p.sched.requests.get? x = some r → r.specTokenIds = []
  scheduledRun : p.ScheduledRun
  made : List.Forall₂ p.JobOf jobs p.numScheduledTokens.entries
  cache : s.CacheFilled H kv (executed kv s jobs mem₀)
  filled : ∀ x ∈ p.sched.running, ∀ r, p.sched.requests.get? x = some r →
    s.Filled kv (executed kv s jobs mem₀) r (r.numComputedTokens + p.numScheduledTokens.getD x 0) ∧
    s.CachedTo x (r.numComputedTokens + p.numScheduledTokens.getD x 0) ∧
    r.numComputedTokens + p.numScheduledTokens.getD x 0 ≤ r.numTokens

omit [DecidableEq η] in
/-- The tables of the scheduled requests decide what is written. -/
lemma executed_congr (h : List.Forall₂ p.JobOf jobs p.numScheduledTokens.entries)
    (hu : ∀ x ∈ p.numScheduledTokens, s.Untouched x s') :
    executed kv s' jobs mem₀ = executed kv s jobs mem₀ := by
  have hmem : ∀ j ∈ jobs, j.request.requestId ∈ p.numScheduledTokens := by
    intro j hj
    obtain ⟨e, he, hje⟩ := exists_left_of_forall₂ h.flip hj
    have hid : j.request.requestId = e.1 := JobOf.requestId hje
    rw [hid]
    exact Dict.mem_of_get? (Dict.get?_eq_some.2 he)
  unfold executed
  congr 1
  exact List.flatMap_congr fun j hj => Job.writes_congr (hu _ (hmem j hj))

omit [DecidableEq η] in
/-- A job stays what it is while its request runs. -/
lemma JobOf.carried {gain : ReqId → Int} {j : Job} {e : ReqId × Int} (h : p.JobOf j e) (hc : Carried p q gain)
    (hrun : e.1 ∈ q.sched.running) (hg : gain e.1 = 0) : q.JobOf j e := by
  refine ⟨h.requestId, h.numTokens, h.le, fun r' hr' => ?_⟩
  obtain ⟨r, hr, hcar, hcomp⟩ := hc e.1 r' hr'
  obtain ⟨hext, hstart⟩ := h.request r hr
  refine ⟨hext.trans hcar.extends, ?_⟩
  rw [hcomp hrun, hg, Int.add_zero]
  exact hstart

omit [DecidableEq η] in
/-- What leaves the scheduled requests and the hashes alone keeps the contents. -/
lemma Contents.keep (laws : KvOf H kv) (h : p.Contents H kv mem₀ s jobs)
    (hnum : q.numScheduledTokens = p.numScheduledTokens) (hrun : ∀ x ∈ q.sched.running, x ∈ p.sched.running)
    (hsched : ∀ x ∈ p.numScheduledTokens, x ∈ q.sched.running) (hcar : Carried p q fun _ => 0)
    (hu : ∀ x ∈ p.numScheduledTokens, s.Untouched x s')
    (hhash : ∀ b, s'.blockPool.blockHash b = s.blockPool.blockHash b)
    (hkeep : ∀ x ∈ q.sched.running, ∀ (mem : KvMemory ν) r n, r.requestId = x →
      (s.Filled kv mem r n → s'.Filled kv mem r n) ∧ (s.CachedTo x n → s'.CachedTo x n)) :
    q.Contents H kv mem₀ s' jobs := by
  have hexec : executed kv s' jobs mem₀ = executed kv s jobs mem₀ := executed_congr h.made hu
  refine ⟨fun x r' hr' => ?_, fun x r' hr' => ?_, fun x hx => hsched x (hnum ▸ hx), ?_, ?_, fun x hx r' hr' => ?_⟩
  · obtain ⟨r, hr, hc, -⟩ := hcar x r' hr'
    exact hc.requestId.trans (h.ids x r hr)
  · obtain ⟨r, hr, hc, -⟩ := hcar x r' hr'
    exact hc.noDrafts (h.noDrafts x r hr)
  · rw [hnum]
    have hin : List.Forall₂ (fun j e => e ∈ p.numScheduledTokens.entries ∧ p.JobOf j e) jobs
        p.numScheduledTokens.entries :=
      List.forall₂_iff_zip.2 ⟨h.made.length_eq, fun hz => ⟨(List.of_mem_zip hz).2, List.forall₂_zip h.made hz⟩⟩
    refine hin.imp fun j e hje => hje.2.carried hcar (hsched e.1 ?_) rfl
    exact Dict.mem_of_get? (Dict.get?_eq_some.2 hje.1)
  · rw [hexec]
    exact h.cache.congr fun b k hb => (hhash b).symm.trans hb
  · obtain ⟨r, hr, hc, hcomp⟩ := hcar x r' hr'
    obtain ⟨h₁, h₂, h₃⟩ := h.filled x (hrun x hx) r hr
    rw [hexec, hnum, hcomp hx, Int.add_zero]
    obtain ⟨k₁, k₂⟩ := hkeep x hx (executed kv s jobs mem₀) r
      (r.numComputedTokens + p.numScheduledTokens.getD x 0) (h.ids x r hr)
    refine ⟨(k₁ h₁).extends laws hc.requestId hc.extends h₃, k₂ h₂, ?_⟩
    rw [hc.toSameTrace.numTokens]
    exact h₃

/-- Where the slots of a grant start, and what is there. -/
lemma Grant.starts {r : Request} {len : Nat} {cols : KvBlocks} {numNew : Int} {lookahead : Nat}
    (hg : Grant H p s s' r len cols numNew lookahead) (hk : p.Kv H s₀ s) (h : p.Contents H kv mem₀ s jobs) :
    List.Forall₂ (KVCacheManager.Starts H kv (executed kv s jobs mem₀) r (r.numComputedTokens + len)) s.managers
      cols := by
  rcases hg.hit with ⟨hrun, rfl, rfl⟩ | ⟨hidle, h0, hok⟩
  · obtain ⟨h₁, h₂, -⟩ := h.filled _ hrun r hg.request
    have hb := hk.backed _ hrun r hg.request
    rw [Dict.getD_eq, Dict.get?_eq_none.2 hg.fresh, Option.getD_none] at h₁ h₂ hb
    exact KVCacheManager.starts_running hk.inv.shaped hb h₁ h₂
  · rw [h0, Int.zero_add]
    exact KVCacheManager.starts_waiting hk.inv h.cache (hk.unknown _ hidle) hok

/-- A grant: the new tokens are written, and nothing that is read is overwritten. -/
lemma Contents.granted {r : Request} {len : Nat} {cols : KvBlocks} {numNew : Int} {lookahead : Nat} (laws : KvOf H kv)
    (inj : H.Injective) (hk : p.Kv H s₀ s) (hinv : s'.Inv H) (h : p.Contents H kv mem₀ s jobs)
    (h0 : 0 ≤ r.numComputedTokens) (hg : Grant H p s s' r len cols numNew lookahead)
    (hrun : ∀ x, x ∈ q.sched.running ↔ x = r.requestId ∨ x ∈ p.sched.running)
    (hnum : q.numScheduledTokens = p.numScheduledTokens.set r.requestId numNew)
    (hcar : Carried p q fun x => if x = r.requestId then len else 0) :
    ∃ jobs, q.Contents H kv mem₀ s' jobs := by
  obtain ⟨hgr⟩ := hg.granted
  have hstarts := hg.starts hk h
  have hpos := hg.pos
  have hlimit := hg.plain (h.noDrafts _ r hg.request)
  have hs0 : (0 : Int) ≤ r.numComputedTokens + len := by omega
  obtain ⟨n, hn⟩ := Int.eq_ofNat_of_zero_le (show 0 ≤ numNew by omega)
  -- the memory after the new tokens
  have hne : ∀ x ∈ p.numScheduledTokens, x ≠ r.requestId := fun x hx he => hg.fresh (he ▸ hx)
  have hold : executed kv s' jobs mem₀ = executed kv s jobs mem₀ :=
    executed_congr h.made fun x hx => hg.untouched x (hne x hx)
  have hexec : executed kv s' (jobs ++ [⟨r, (r.numComputedTokens + len).toNat, n⟩]) mem₀ =
      (executed kv s jobs mem₀).writeAll (Job.writes kv s'.managers ⟨r, (r.numComputedTokens + len).toNat, n⟩) := by
    rw [← hold]
    unfold executed
    rw [List.flatMap_append, KvMemory.writeAll_append, List.flatMap_singleton]
  have hcache : min (r.numComputedTokens + len + numNew) (r.numTokens : Int) ≤ r.numComputedTokens + len + n := by
    rw [hn]
    exact min_le_left _ _
  have hget : ∀ x, x ≠ r.requestId → q.numScheduledTokens.getD x 0 = p.numScheduledTokens.getD x 0 := by
    intro x hx
    rw [hnum, Dict.getD_eq, Dict.getD_eq, Dict.get?_set, if_neg hx]
  refine ⟨jobs ++ [⟨r, (r.numComputedTokens + len).toNat, n⟩], fun x r' hr' => ?_, fun x r' hr' => ?_, fun x hx => ?_,
    ?_, ?_, fun x hx r' hr' => ?_⟩
  · obtain ⟨r₁, hr₁, hc, -⟩ := hcar x r' hr'
    exact hc.requestId.trans (h.ids x r₁ hr₁)
  · obtain ⟨r₁, hr₁, hc, -⟩ := hcar x r' hr'
    exact hc.noDrafts (h.noDrafts x r₁ hr₁)
  · rw [hnum] at hx
    exact (hrun x).2 ((Dict.mem_set.1 hx).imp_right (h.scheduledRun x))
  · rw [hnum, Dict.entries_set_of_not_mem numNew hg.fresh]
    have hin : List.Forall₂ (fun j e => e ∈ p.numScheduledTokens.entries ∧ p.JobOf j e) jobs
        p.numScheduledTokens.entries :=
      List.forall₂_iff_zip.2 ⟨h.made.length_eq, fun hz => ⟨(List.of_mem_zip hz).2, List.forall₂_zip h.made hz⟩⟩
    refine List.rel_append (hin.imp fun j e hje => ?_) (.cons ?_ .nil)
    · have hm : e.1 ∈ p.numScheduledTokens := Dict.mem_of_get? (Dict.get?_eq_some.2 hje.1)
      exact hje.2.carried hcar ((hrun e.1).2 (.inr (h.scheduledRun e.1 hm))) (if_neg (hne e.1 hm))
    · refine ⟨rfl, hn.symm, ?_, fun r' hr' => ?_⟩
      · dsimp only
        omega
      · obtain ⟨r₁, hr₁, hc, hcomp⟩ := hcar r.requestId r' hr'
        rw [hg.request] at hr₁
        cases hr₁
        rw [hcomp ((hrun _).2 (.inl rfl))]
        dsimp only
        rw [if_pos rfl]
        exact ⟨hc.extends, Int.toNat_of_nonneg hs0⟩
  · rw [hexec]
    exact hgr.cacheFilled laws inj hs0 hstarts hk.inv.shaped hinv hcache h.cache
  · obtain ⟨r₁, hr₁, hc, hcomp⟩ := hcar x r' hr'
    rw [hexec, hcomp hx]
    dsimp only
    by_cases he : x = r.requestId
    · subst he
      rw [hg.request] at hr₁
      cases hr₁
      have hget' : q.numScheduledTokens.getD r.requestId 0 = numNew := by
        rw [hnum, Dict.getD_eq, Dict.get?_set, if_pos rfl, Option.getD_some]
      have hself := hgr.filled_self n hs0 hstarts hk.inv.shaped
      have hto := hgr.cachedTo hstarts hk.inv.shaped hcache hs0
      rw [if_pos rfl, hget', hc.toSameTrace.numTokens]
      have hn' : ((n : Nat) : Int) = numNew := hn.symm
      rw [hn'] at hself hto
      exact ⟨hself.extends laws hc.requestId hc.extends hlimit, hto, hlimit⟩
    · have hold : x ∈ p.sched.running := ((hrun x).1 hx).resolve_left he
      obtain ⟨h₁, h₂, h₃⟩ := h.filled x hold r₁ hr₁
      have hid := h.ids x r₁ hr₁
      rw [if_neg he, Int.add_zero, hget x he, hc.toSameTrace.numTokens]
      refine ⟨KVCacheManager.Filled.extends laws ?_ hc.requestId hc.extends h₃, h₂.untouched (hg.untouched x he), h₃⟩
      exact hgr.filled_other hs0 hstarts hk.inv.shaped (hid ▸ he) (hid ▸ hg.untouched x he) h₁

/-- A move keeps the contents, when nobody who is scheduled is a victim. -/
lemma Effect.contents (laws : KvOf H kv) (inj : H.Injective) (hpol : cfg.policy ≠ .priority)
    (heff : Effect cfg H p q s s') (hinv : s'.Inv H) (hg : p.Grants cfg done) (hk : p.Kv H s₀ s)
    (h : p.Contents H kv mem₀ s jobs) : ∃ jobs, q.Contents H kv mem₀ s' jobs := by
  cases heff with
  | quiet hs hrun hnum hcar =>
    subst hs
    exact ⟨jobs, h.keep laws hnum (fun x hx => hrun ▸ hx) (fun x hx => hrun.symm ▸ h.scheduledRun x hx) hcar
      (fun x _ => .refl x _) (fun _ => rfl) fun _ _ _ _ _ _ => ⟨id, id⟩⟩
  | @refused rid hfresh hsk hrun hnum hcar =>
    refine ⟨jobs, h.keep laws hnum (fun x hx => hrun ▸ hx) (fun x hx => hrun.symm ▸ h.scheduledRun x hx) hcar
      (fun x hx => hsk.untouched fun he => hfresh (he ▸ hx)) hsk.blockHash fun x _ mem r n _ => ?_⟩
    exact ⟨fun hf => hf.skipped hsk, fun hc => hc.skipped hsk⟩
  | @freed victim hmem hbatch hfr hrun hnum hcar =>
    obtain ⟨hfresh, hsame⟩ := hbatch hpol
    have hne : ∀ x ∈ p.numScheduledTokens, x ≠ victim := fun x hx he => hfresh (he ▸ hx)
    refine ⟨jobs, h.keep laws hsame (fun x hx => ((hrun x).1 hx).1)
      (fun x hx => (hrun x).2 ⟨h.scheduledRun x hx, hne x hx⟩) hcar (fun x hx => hfr.untouched (hne x hx))
      hfr.blockHash fun x hx mem r n hid => ?_⟩
    have hu := hfr.untouched ((hrun x).1 hx).2
    exact ⟨fun hf => hf.untouched (hid ▸ hu) fun _ _ _ _ _ _ => rfl, fun hc => hc.untouched hu⟩
  | @granted r len cols numNew lookahead hgr hrun hnum hcar =>
    exact h.granted laws inj hk hinv (hg.sane _ r hgr.request).nonneg hgr hrun hnum hcar

end Pass

/-- What the batch that `schedule` returned leaves in memory. -/
def executeModel (kv : Request → Nat → ν) (t : Scheduler (KvState η ε)) (so : SchedulerOutput KvBlocks)
    (mem : KvMemory ν) : KvMemory ν :=
  match t.caches.1 with
  | .error _ => mem
  | .ok s => executed kv s (batchJobs t.requests so.numScheduledTokens.entries) mem

namespace Scheduler
variable {t t' : Scheduler (KvState η ε)} {r : Request}

/-- The memory between two calls: the prefix cache is as promised, and running requests have their computed tokens. -/
structure Contents (H : Hasher η) (kv : Request → Nat → ν) (mem : KvMemory ν) (t : Scheduler (KvState η ε))
    (s : KVCacheManager η) : Prop where
  noDrafts : ∀ x r, t.requests.get? x = some r → r.specTokenIds = []
  cache : s.CacheFilled H kv mem
  filled : ∀ x ∈ t.running, ∀ r, t.requests.get? x = some r → s.Filled kv mem r r.numComputedTokens ∧
    s.CachedTo x r.numComputedTokens ∧ r.numComputedTokens ≤ r.numTokens

omit [DecidableEq η] in
lemma extends_advance (r : Request) (n : Int) : Extends r (r.advance n) := ⟨rfl, List.prefix_rfl, rfl, rfl, rfl⟩

omit [DecidableEq η] in
/-- The jobs of a batch are those of its pass. -/
lemma writes_batchJobs {p : Pass (KvState η ε) KvBlocks} {jobs : List Job} {l : List (ReqId × Int)}
    (laws : KvOf H kv) (ms : List SingleTypeManager)
    (hids : ∀ x r, p.sched.requests.get? x = some r → r.requestId = x) (hjobs : List.Forall₂ p.JobOf jobs l)
    (hreq : ∀ e ∈ l, ∃ r, p.sched.requests.get? e.1 = some r ∧ t.requests.get? e.1 = some (r.advance e.2)) :
    (batchJobs t.requests l).flatMap (Job.writes kv ms) = jobs.flatMap (Job.writes kv ms) := by
  induction hjobs with
  | nil => rfl
  | @cons j e jobs l hje _ ih =>
    obtain ⟨r, hr, hr'⟩ := hreq e List.mem_cons_self
    obtain ⟨hext, hstart⟩ := hje.request r hr
    have hnum := hje.numTokens
    have hrest := ih fun e he => hreq e (List.mem_cons_of_mem _ he)
    have hcons : batchJobs t.requests (e :: l) =
        ⟨r.advance e.2, ((r.advance e.2).numComputedTokens - e.2).toNat, e.2.toNat⟩ :: batchJobs t.requests l := by
      unfold batchJobs
      rw [List.filterMap_cons, hr', Option.map_some]
    rw [hcons, List.flatMap_cons, List.flatMap_cons, hrest]
    congr 1
    refine Job.writes_of_eq ((hids e.1 r hr).trans hje.requestId.symm) ?_ ?_ fun pos _ hlt => ?_
    · dsimp only [Request.advance]
      omega
    · dsimp only
      omega
    · exact laws.grows (hext.trans (extends_advance r e.2)) pos (hlt.trans_le hje.le)

omit [DecidableEq η] in
/-- The memory after `schedule`, once the batch is executed. -/
lemma AfterPass.contents {p : Pass (KvState η ε) KvBlocks} {jobs : List Job} {so : SchedulerOutput KvBlocks}
    (laws : KvOf H kv) (h : AfterPass p t) (hok : p.sched.caches.1 = .ok s) (hp : p.Contents H kv mem s jobs)
    (hso : so.numScheduledTokens = p.numScheduledTokens) (hstored : ∀ x ∈ t.running, x ∈ t.requests) :
    t.Contents H kv (executeModel kv t so mem) s := by
  have hexec : executeModel kv t so mem = executed kv s jobs mem := by
    unfold executeModel executed
    rw [h.caches, hok]
    dsimp only
    rw [hso, writes_batchJobs laws s.managers hp.ids hp.made fun e he => ?_]
    have hget := Dict.get?_eq_some.2 he
    have hrun : e.1 ∈ t.running := h.running ▸ hp.scheduledRun e.1 (Dict.mem_of_get? hget)
    obtain ⟨r', hr'⟩ := Dict.mem_iff_get?.1 (hstored e.1 hrun)
    obtain ⟨r, hr, rfl⟩ := h.requests e.1 r' hr'
    rw [Dict.getD_eq, hget, Option.getD_some] at hr'
    exact ⟨r, hr, hr'⟩
  rw [hexec]
  refine ⟨fun x r' hr' => ?_, hp.cache, fun x hx r' hr' => ?_⟩
  · obtain ⟨r, hr, rfl⟩ := h.requests x r' hr'
    exact hp.noDrafts x r hr
  · obtain ⟨r, hr, rfl⟩ := h.requests x r' hr'
    obtain ⟨h₁, h₂, h₃⟩ := hp.filled x (h.running ▸ hx) r hr
    exact ⟨h₁.extends laws rfl (extends_advance r _) h₃, h₂, h₃⟩

omit [DecidableEq η] in
/-- The pass a schedule starts with: nothing is scheduled. -/
lemma Contents.startPass (h : t.Contents H kv mem s) (hwf : t.WF) :
    (t.startPass (β := KvBlocks) cfg).Contents H kv mem s [] := by
  have hsched : (t.startPass (β := KvBlocks) cfg).sched.requests = t.requests ∧
      ∀ x, x ∈ (t.startPass (β := KvBlocks) cfg).sched.running ↔ x ∈ t.running := by
    unfold Scheduler.startPass
    dsimp only
    split
    · exact ⟨rfl, fun x => (List.perm_insertionSort t.scoreLE t.running).mem_iff⟩
    · exact ⟨rfl, fun x => Iff.rfl⟩
  obtain ⟨hr, hrun⟩ := hsched
  have hnum : (t.startPass (β := KvBlocks) cfg).numScheduledTokens = ∅ := rfl
  refine ⟨hr ▸ hwf.requestId, hr ▸ h.noDrafts, fun x hx => absurd hx Dict.not_mem_empty, .nil, h.cache,
    fun x hx r hx' => ?_⟩
  rw [hr] at hx'
  rw [hnum, Dict.getD_eq, Dict.get?_empty, Option.getD_none, Int.add_zero]
  exact h.filled x ((hrun x).1 hx) r hx'

/-- `schedule` and the execution of its batch keep the contents. -/
lemma Contents.schedule {done : ReqId → Prop} (laws : KvOf H kv) (henc : enc.EncoderLowers) (inj : H.Injective)
    (hwin : s₀.Windowed) (hmax : s₀.maxModelLen = cfg.scheduler.maxModelLen) (hpol : cfg.policy ≠ .priority)
    (ready : ReqId → Bool) (hk : t.Kv H s₀ s) (h : t.Contents H kv mem s) (hwf : t.WF)
    (hstart : (t.startPass (β := KvBlocks) cfg).Grants cfg done) :
    ∃ s', (t.schedule (enc.withKv H) cfg ready).1.caches.1 = .ok s' ∧
      (t.schedule (enc.withKv H) cfg ready).1.Contents H kv (executeModel kv (t.schedule (enc.withKv H) cfg ready).1
        (t.schedule (enc.withKv H) cfg ready).2 mem) s' := by
  obtain ⟨p, queue, ⟨s', jobs, hp, hcont⟩, -, -, hpass⟩ := hwf.schedulePass_keep
    (P := fun p => ∃ s jobs, p.Kv H s₀ s ∧ p.Contents H kv mem s jobs) (Caches.withKv_laws henc H) ready hstart
    (fun hmove hg hp => by
      obtain ⟨s, jobs, hp, hcont⟩ := hp
      obtain ⟨s', hok, hinv, heff⟩ := hmove.effect henc inj hwin hmax hg hp
      obtain ⟨jobs', hcont'⟩ := heff.contents laws inj hpol hinv hg hp hcont
      exact ⟨s', jobs', heff.kv hok hinv hp, hcont'⟩)
    ⟨s, [], hk.startPass, h.startPass hwf⟩
  have hafter := hwf.afterPass hpass
  have spec : ScheduleSpec (enc.withKv H) cfg t (t.schedule (enc.withKv H) cfg ready).1
      (t.schedule (enc.withKv H) cfg ready).2 := hwf.schedule ready
  have hso : (t.schedule (enc.withKv H) cfg ready).2.numScheduledTokens = p.numScheduledTokens := by
    unfold Scheduler.schedule
    rw [hpass]
    rfl
  refine ⟨s', hafter.caches.trans hp.ok, hafter.contents laws hp.ok hcont hso fun x hx => ?_⟩
  exact (spec.wf.mem x).2 (List.mem_append_left _ hx)

omit [DecidableEq η] in
lemma numTokens_le {r r' : Request} (h : Extends r r') : r.numTokens ≤ r'.numTokens := by
  have hlen := h.outputTokenIds.length_le
  rw [Request.numTokens_eq, Request.numTokens_eq, h.promptTokenIds]
  omega

/-- What a call gives back is read by nobody. -/
lemma Contents.released (laws : KvOf H kv) (h : t.Contents H kv mem s) (hrel : Released H t t' s s') (hwf : t.WF)
    (hwf' : t'.WF) (hreq : ∀ x r', t'.requests.get? x = some r' → ∃ r, t.requests.get? x = some r ∧
      r'.status = r.status ∧ r'.requestId = r.requestId ∧ r'.specTokenIds = r.specTokenIds ∧ Extends r r' ∧
      (x ∈ t.running → r'.numComputedTokens = r.numComputedTokens)) : t'.Contents H kv mem s' := by
  refine ⟨fun x r' hr' => ?_, h.cache.congr fun b k hb => (hrel.blockHash b).symm.trans hb, fun x hx r' hr' => ?_⟩
  · obtain ⟨r, hr, -, -, hsp, -⟩ := hreq x r' hr'
    exact hsp.trans (h.noDrafts x r hr)
  · obtain ⟨r, hr, hst, hid, -, hext, hcomp⟩ := hreq x r' hr'
    have hm : x ∈ t.running := (hwf.status x r hr).1 (hst.symm.trans ((hwf'.status x r' hr').2 hx))
    obtain ⟨h₁, h₂, h₃⟩ := h.filled x hm r hr
    have hu := hrel.untouched x (Dict.mem_of_get? hr')
    have hx' : r.requestId = x := hwf.requestId x r hr
    have hle := numTokens_le hext
    rw [hcomp hm]
    refine ⟨KVCacheManager.Filled.extends laws (h₁.untouched (hx' ▸ hu) fun _ _ _ _ _ _ => rfl) hid hext h₃,
      h₂.untouched hu, by omega⟩

end Scheduler

/-- The memory after a call: a batch is executed when it is there. -/
def nextMemory (kv : Request → Nat → ν) (x x' : SchedState (KvState η ε) KvBlocks) (mem : KvMemory ν) : KvMemory ν :=
  match x.batch, x'.batch with
  | none, some so => executeModel kv x'.sched so mem
  | _, _ => mem

/-- The scheduler as a machine, with the device memory behind it. -/
def execMachine (enc : Caches ε β) (H : Hasher η) (cfg : VllmConfig) (kv : Request → Nat → ν) (m : KvState η ε) :
    Machine (SchedState (KvState η ε) KvBlocks × KvMemory ν) SchedEvent SchedRecord where
  init := ({ sched := { caches := m } }, fun _ _ => none)
  next y ev :=
    let (x, o) := y.1.next (enc.withKv H) cfg ev
    ((x, nextMemory kv y.1 x y.2), o)
  ok := SchedEvent.Ok

instance (enc : Caches ε β) (H : Hasher η) (cfg : VllmConfig) (kv : Request → Nat → ν) (m : KvState η ε)
    (h : List SchedEvent) (ev : SchedEvent) : Decidable ((execMachine enc H cfg kv m).ok h ev) :=
  inferInstanceAs (Decidable (ev.Ok h))

/-- The memory does not matter to the scheduler. -/
lemma sched_of_exec {m : KvState η ε} {h : List SchedEvent} {os : List SchedRecord}
    {y : SchedState (KvState η ε) KvBlocks × KvMemory ν} (run : (execMachine enc H cfg kv m).Runs h os y) :
    (schedMachine (enc.withKv H) cfg m).Runs h os y.1 := by
  induction run with
  | init => exact .init
  | step _ hok ih => exact .step ih hok

/-- A request that is only relabelled. -/
structure Request.Relabelled (r r' : Request) : Prop extends Extends r r' where
  requestId : r'.requestId = r.requestId
  status : r'.status = r.status
  specTokenIds : r'.specTokenIds = r.specTokenIds
  numComputedTokens : r'.numComputedTokens = r.numComputedTokens

lemma Request.Relabelled.refl (r : Request) : r.Relabelled r := ⟨.refl r, rfl, rfl, rfl, rfl⟩

lemma Request.Relabelled.trans {r r' r'' : Request} (h : r.Relabelled r') (h' : r'.Relabelled r'') :
    r.Relabelled r'' :=
  ⟨h.toExtends.trans h'.toExtends, h'.requestId.trans h.requestId, h'.status.trans h.status,
    h'.specTokenIds.trans h.specTokenIds, h'.numComputedTokens.trans h.numComputedTokens⟩

variable {done done' : ReqId → Prop}

/-- Relabelling requests keeps the contents. -/
lemma Scheduler.Contents.relabels {κ : Type} {t t' : Scheduler (KvState η ε)} (laws : KvOf H kv) (hk : t.Kv H s₀ s)
    (h : t.Contents H kv mem s) (hwf : t.WF) (hrel : t.Relabels t') (hcache : t'.caches = t.caches) (key : κ → ReqId)
    (f : κ → Request → Request) (l : List κ)
    (hreq : t'.requests = l.foldl (fun d k => d.modify (key k) (f k)) t.requests)
    (hf : ∀ k (r : Request), r.Relabelled (f k r)) : t'.caches.1 = .ok s ∧ t'.Contents H kv mem s := by
  have hok : t'.caches.1 = .ok s := by
    rw [hcache]
    exact hk.ok
  refine ⟨hok, h.released laws (.same hk.inv hok fun x => hrel.mem) hwf (hrel.wf hwf) fun x r' hr' => ?_⟩
  rw [hreq] at hr'
  obtain ⟨r, hr, hlab⟩ := Scheduler.back_foldl_modify Request.Relabelled.refl Request.Relabelled.trans key f hf l hr'
  exact ⟨r, hr, hlab.status, hlab.requestId, hlab.specTokenIds, hlab.toExtends, fun _ => hlab.numComputedTokens⟩

omit [DecidableEq η] in
/-- Without a new batch the memory is left alone. -/
lemma nextMemory_quiet (kv : Request → Nat → ν) (x : SchedState (KvState η ε) KvBlocks) (t : Scheduler (KvState η ε))
    (mem : KvMemory ν) {b : Option (SchedulerOutput KvBlocks)} (hb : b = none ∨ b = x.batch) :
    nextMemory kv x { sched := t, batch := b } mem = mem := by
  unfold nextMemory
  rcases hb with rfl | rfl
  · split
    · next hb => cases hb
    · rfl
  · cases x.batch with
    | none => rfl
    | some so => rfl

omit [DecidableEq η] in
/-- A new request keeps the contents. -/
lemma Scheduler.Contents.addRequest {t : Scheduler (KvState η ε)} (h : t.Contents H kv mem s) (hwf : t.WF)
    (policy : SchedulingPolicy) {r : Request} (hnew : r.IsNew) (hfresh : r.requestId ∉ t.requests) :
    (t.addRequest policy r).Contents H kv mem s := by
  refine ⟨fun rid r' hr' => ?_, h.cache, fun rid hrun r' hr' => ?_⟩
  · rw [Scheduler.get?_addRequest] at hr'
    split at hr'
    · cases hr'
      exact hnew.specTokenIds
    · exact h.noDrafts rid r' hr'
  · have hm : rid ∈ t.requests := (hwf.mem rid).2 (List.mem_append_left _ hrun)
    have hne : rid ≠ r.requestId := fun he => hfresh (he ▸ hm)
    rw [Scheduler.get?_addRequest, if_neg hne] at hr'
    exact h.filled rid hrun r' hr'

/-- The output of a batch keeps the contents: no drafts were scheduled for a request that computed no more tokens
than it has. -/
lemma Scheduler.Contents.updateFromOutput {t : Scheduler (KvState η ε)} (laws : KvOf H kv)
    (h : t.Contents H kv mem s) (hk : t.Kv H s₀ s) (hwf : t.WF) {so : SchedulerOutput KvBlocks}
    {mo : ModelRunnerOutput} (finals : Dict ReqId (Option ℚ)) (histories : Option (Dict ReqId (List ℚ)))
    (hlive : ∀ rid r, t.requests.get? rid = some r → Scheduler.InFlight cfg so (done rid) rid r)
    (hans : ∀ rid r, t.requests.get? rid = some r → Scheduler.Answered cfg so mo (done' rid) rid r) :
    ∃ s', (t.updateFromOutput (enc.withKv H) cfg so mo finals histories).1.caches.1 = .ok s' ∧
      (t.updateFromOutput (enc.withKv H) cfg so mo finals histories).1.Contents H kv mem s' := by
  have spec : Scheduler.UpdateSpec cfg so mo t (t.updateFromOutput (enc.withKv H) cfg so mo finals histories).1 :=
    hwf.updateFromOutput so mo finals histories
  obtain ⟨s', hrel⟩ := Scheduler.Released.updateFromOutput (t := t) enc cfg so mo finals histories hk.inv hk.ok
  refine ⟨s', hrel.ok, h.released laws hrel hwf spec.wf fun rid r' hr' => ?_⟩
  obtain ⟨r, n, l, hr, rfl, -, heq⟩ := spec.back hwf hans hr'
  refine ⟨r, hr, rfl, rfl, rfl, ⟨rfl, List.prefix_append _ _, rfl, rfl, rfl⟩, fun hrun => heq ?_⟩
  cases hlive rid r hr with
  | idle hn => exact .inl hn
  | @scheduled r₀ c _ _ hgr _ ht _ _ hcomp =>
    obtain ⟨-, -, hle⟩ := h.filled rid hrun r hr
    have hd := hgr.drafts
    rw [ht.numTokens, hcomp] at hle
    right
    omega

/-- Aborts keep the contents. -/
lemma Scheduler.Contents.finishRequests {t : Scheduler (KvState η ε)} (laws : KvOf H kv)
    (h : t.Contents H kv mem s) (hk : t.Kv H s₀ s) (hwf : t.WF) (rids : List ReqId) (status : RequestStatus) :
    ∃ s', (t.finishRequests (enc.withKv H) rids status).caches.1 = .ok s' ∧
      (t.finishRequests (enc.withKv H) rids status).Contents H kv mem s' := by
  have spec := hwf.finishRequests (enc.withKv H) rids status
  obtain ⟨s', hrel⟩ := Scheduler.Released.finishRequests (t := t) enc rids status hk.inv hk.ok
  refine ⟨s', hrel.ok, h.released laws hrel hwf spec.wf fun rid r' hr' => ?_⟩
  rw [spec.requests] at hr'
  split at hr'
  · cases hr'
  · exact ⟨r', hr', rfl, rfl, rfl, .refl r', fun _ => rfl⟩

/-- Every call but new drafts keeps the contents. -/
lemma SchedState.contents_next (laws : KvOf H kv) (henc : enc.EncoderLowers) (inj : H.Injective) (hwin : s₀.Windowed)
    (hmax : s₀.maxModelLen = cfg.scheduler.maxModelLen) (hbatch : 0 ≤ cfg.scheduler.maxNumBatchedTokens)
    (hpol : cfg.policy ≠ .priority) {h : List SchedEvent} {os : List SchedRecord}
    {x : SchedState (KvState η ε) KvBlocks} {ev : SchedEvent} (hs : x.sched.Sound (h.filterMap SchedEvent.added))
    (hx : Steady cfg (fun _ _ => False) (fun _ _ => False) done h os x) (hok : ev.Ok h)
    (hc : ModelAnswers cfg done' x ev) (hnone : ∀ drafts, ev ≠ .updateDraftTokenIds drafts)
    (hk : x.sched.Kv H s₀ s) (hcont : x.sched.Contents H kv mem s) :
    ∃ s', (x.next (enc.withKv H) cfg ev).1.sched.caches.1 = .ok s' ∧
      (x.next (enc.withKv H) cfg ev).1.sched.Contents H kv
        (nextMemory kv x (x.next (enc.withKv H) cfg ev).1 mem) s' := by
  cases ev with
  | addRequest r =>
    obtain ⟨hnew, hid⟩ := hok
    simp only [SchedState.next]
    rw [nextMemory_quiet _ _ _ _ (.inr rfl)]
    exact ⟨s, hk.ok, hcont.addRequest hs.wf cfg.policy hnew fun hm => hid (hs.added _ hm)⟩
  | schedule ready =>
    cases hb : x.batch with
    | some so =>
      simp only [SchedState.next, hb]
      have he : nextMemory kv x x mem = mem := nextMemory_quiet kv x x.sched mem (.inr rfl)
      rw [he]
      exact ⟨s, hk.ok, hcont⟩
    | none =>
      simp only [SchedState.next, hb]
      have hlive := hx.live
      rw [hb] at hlive
      have hstart : (x.sched.startPass (β := KvBlocks) cfg).Grants cfg done :=
        Scheduler.startPass_grants hbatch hx.length (fun rid r hr => (hlive rid r hr).1)
          fun rid r hd hr => (hlive rid r hr).2 hd
      have hmem : nextMemory kv x ⟨(x.sched.schedule (enc.withKv H) cfg ready).1,
          some (x.sched.schedule (enc.withKv H) cfg ready).2⟩ mem =
          executeModel kv (x.sched.schedule (enc.withKv H) cfg ready).1
            (x.sched.schedule (enc.withKv H) cfg ready).2 mem := by
        unfold nextMemory
        rw [hb]
      rw [hmem]
      exact hcont.schedule laws henc inj hwin hmax hpol ready hk hs.wf hstart
  | updateFromOutput mo finals histories =>
    obtain ⟨so, hb, hans⟩ := hc
    have hlive := hx.live
    rw [hb] at hlive
    simp only [SchedState.next, hb]
    rw [nextMemory_quiet _ _ _ _ (.inl rfl)]
    exact hcont.updateFromOutput laws hk hs.wf finals histories hlive hans
  | finishRequests rids status =>
    simp only [SchedState.next]
    rw [nextMemory_quiet _ _ _ _ (.inr rfl)]
    exact hcont.finishRequests laws hk hs.wf rids status
  | markStopReason rids reason =>
    have hrel := Scheduler.relabels_markStopReason x.sched rids reason
    simp only [SchedState.next]
    rw [nextMemory_quiet _ _ _ _ (.inr rfl)]
    refine ⟨s, hcont.relabels laws hk hs.wf hrel rfl id
      (fun _ r => if r.status.isFinished then r else { r with stopReason := some reason }) rids rfl fun _ r => ?_⟩
    split
    · exact .refl r
    · exact ⟨⟨rfl, List.prefix_rfl, rfl, rfl, rfl⟩, rfl, rfl, rfl, rfl⟩
  | updateTraceScores scores =>
    have hrel := Scheduler.relabels_updateTraceScores x.sched scores
    simp only [SchedState.next]
    rw [nextMemory_quiet _ _ _ _ (.inr rfl)]
    exact ⟨s, hcont.relabels laws hk hs.wf hrel rfl Prod.fst (fun e r => { r with traceAvgScore := some e.2 })
      scores.entries rfl fun _ _ => ⟨⟨rfl, List.prefix_rfl, rfl, rfl, rfl⟩, rfl, rfl, rfl, rfl⟩⟩
  | updateDraftTokenIds drafts => exact absurd rfl (hnone drafts)

/-- What the states of a run keep of the manager and of the memory. -/
lemma contents_of_runs (laws : KvOf H kv) (henc : enc.EncoderLowers) (inj : H.Injective) (hinv : s₀.Inv H)
    (hwin : s₀.Windowed) (hfree : ∀ x, s₀.Unknown x) (hcold : ∀ b, s₀.blockPool.blockHash b = none)
    (hmax : s₀.maxModelLen = cfg.scheduler.maxModelLen) (hbatch : 0 ≤ cfg.scheduler.maxNumBatchedTokens)
    (hpol : cfg.policy ≠ .priority) {e : ε} {h : List SchedEvent} {os : List SchedRecord}
    {y : SchedState (KvState η ε) KvBlocks × KvMemory ν} (run : (execMachine enc H cfg kv (.ok s₀, e)).Runs h os y)
    (hc : (schedMachine (enc.withKv H) cfg (.ok s₀, e)).Along ModelContract h)
    (hfit : ∀ r, SchedEvent.addRequest r ∈ h → r.Fits cfg)
    (hdrafts : ∀ drafts, SchedEvent.updateDraftTokenIds drafts ∉ h) :
    ∃ s, y.1.sched.caches.1 = .ok s ∧ y.1.sched.Contents H kv y.2 s := by
  induction run with
  | init =>
    refine ⟨s₀, rfl, fun x r hr => ?_, fun b k g hb => ?_, fun x hx => absurd hx List.not_mem_nil⟩
    · exact absurd (Dict.mem_of_get? hr) Dict.not_mem_empty
    · cases (hcold b).symm.trans hb
  | @step h os y ev run hok ih =>
    have hrun := sched_of_exec run
    obtain ⟨hc1, hc2⟩ := hrun.along_concat hc
    have hfit1 : ∀ r, SchedEvent.addRequest r ∈ h → r.Fits cfg := fun r hr => hfit r (List.mem_append_left _ hr)
    have hdrafts1 : ∀ drafts, SchedEvent.updateDraftTokenIds drafts ∉ h :=
      fun drafts hm => hdrafts drafts (List.mem_append_left _ hm)
    obtain ⟨s, hs, hcont⟩ := ih hc1 hfit1 hdrafts1
    obtain ⟨s', hk⟩ := kv_of_runs henc inj hinv hwin hfree hmax hbatch hrun hc1 hfit1 (.inr hdrafts1)
    obtain rfl : s = s' := Except.ok.inj (hs.symm.trans hk.ok)
    have hx := steady_of_runs (Caches.withKv_laws henc H) (fun _ => ⟨id, id⟩) hbatch hrun hc1 hfit1
    refine SchedState.contents_next laws henc inj hwin hmax hbatch hpol (sound_of_runs hrun) hx hok
      (hc2.answers (· ∈ prefilled h os)) (fun drafts he => ?_) hk hcont
    exact hdrafts drafts (List.mem_append_right _ (by rw [he]; exact List.mem_singleton_self _))

/-- In every run without drafts, under FCFS and GAMBIT: the blocks of the running requests contain their own computed
tokens, in every group and whoever computed them, and every block of the prefix cache what its hash promises. -/
theorem kv_contents_of_runs (laws : KvOf H kv) (henc : enc.EncoderLowers) (inj : H.Injective) {numGpuBlocks : Nat}
    {useEagle enableCaching : Bool} {groups : List (AttentionSpec × Nat)} (hpos : 0 < numGpuBlocks)
    (hshape : (KVCacheManager.init cfg.scheduler.maxModelLen useEagle numGpuBlocks enableCaching groups :
      KVCacheManager η).Shaped H)
    (hwin : ∀ g ∈ groups, ∀ w, g.1 = .slidingWindow w → 0 < w)
    (hbatch : 0 ≤ cfg.scheduler.maxNumBatchedTokens) (hpol : cfg.policy ≠ .priority) {e : ε} {h : List SchedEvent}
    {os : List SchedRecord} {y : SchedState (KvState η ε) KvBlocks × KvMemory ν}
    (run : (execMachine enc H cfg kv
      (.ok (.init cfg.scheduler.maxModelLen useEagle numGpuBlocks enableCaching groups), e)).Runs h os y)
    (hc : (schedMachine (enc.withKv H) cfg
      (.ok (.init cfg.scheduler.maxModelLen useEagle numGpuBlocks enableCaching groups), e)).Along ModelContract h)
    (hfit : ∀ r, SchedEvent.addRequest r ∈ h → r.Fits cfg)
    (hdrafts : ∀ drafts, SchedEvent.updateDraftTokenIds drafts ∉ h) :
    ∃ s, y.1.sched.caches.1 = .ok s ∧ s.CacheFilled H kv y.2 ∧
      ∀ rid ∈ y.1.sched.running, ∀ r, y.1.sched.requests.get? rid = some r → s.Filled kv y.2 r r.numComputedTokens := by
  obtain ⟨s, hs, hcont⟩ := contents_of_runs laws henc inj (KVCacheManager.Inv.init hpos hshape)
    (fun m hm w hw => by
      obtain ⟨⟨g, hg, he⟩, -⟩ := managers_init hm
      exact hwin g hg w (he.symm.trans hw))
    (fun rid m hm => (managers_init hm).2 rid) (fun _ => rfl) rfl hbatch hpol run hc hfit hdrafts
  exact ⟨s, hs, hcont.cache, fun rid hrid r hr => (hcont.filled rid hrid r hr).1⟩

/-- A full and a chunked local group with seven blocks: a preempted request comes back and reads what it wrote. -/
theorem kv_contents_of_runs_preempted :
    let cfg : VllmConfig := { gambit := {}, scheduler := { maxModelLen := 100 } }
    let groups : List (AttentionSpec × Nat) := [(.full, 4), (.chunkedLocal 4, 4)]
    let kv : Request → Nat → List Token := fun r pos => r.allTokenIds.take (pos + 1)
    let es : List SchedEvent :=
      [.addRequest { requestId := ['a'], promptTokenIds := [1, 1, 1, 1, 1, 1, 1, 1, 1] },
        .addRequest { requestId := ['b'], promptTokenIds := [1, 1, 1, 1, 1, 1, 1] },
        .schedule fun _ => true, .updateFromOutput ⟨[(['a'], [2])], by decide⟩ ∅ none,
        .schedule fun _ => true, .updateFromOutput ⟨[(['a'], [3]), (['b'], [3])], by decide⟩ ∅ none,
        .schedule fun _ => true, .updateFromOutput ⟨[(['a'], [4]), (['b'], [4])], by decide⟩ ∅ none,
        .schedule fun _ => true, .updateFromOutput ⟨[(['a'], [5]), (['b'], [5])], by decide⟩ ∅ none,
        .schedule fun _ => true]
    let run := (execMachine Caches.unbounded (Hasher.chain 4) cfg kv
      (.ok (.init cfg.scheduler.maxModelLen false 8 true groups), ())).exec es
    run.2.1.sched.running = [['a']] ∧ ∃ s, run.2.1.sched.caches.1 = .ok s ∧
      s.CacheFilled (Hasher.chain 4) kv run.2.2 ∧ ∀ rid ∈ run.2.1.sched.running, ∀ r,
        run.2.1.sched.requests.get? rid = some r → s.Filled kv run.2.2 r r.numComputedTokens := by
  intro cfg groups kv es
  refine ⟨by decide +kernel, ?_⟩
  refine kv_contents_of_runs (KvOf.tokens (Hasher.injective_chain 4)) Caches.unbounded_laws.encoder
    (Hasher.injective_chain 4) (by decide) shaped_chunked ?_ (by decide) (by decide)
    (Machine.Runs.of_exec (by decide +kernel)) (by decide +kernel) (fun r hr => ?_) (fun drafts hd => ?_)
  · intro g hg w hw
    simp only [groups, List.mem_cons, List.not_mem_nil, or_false] at hg
    rcases hg with rfl | rfl
    · cases hw
    · cases hw
  · simp only [es, List.mem_cons, SchedEvent.addRequest.injEq, reduceCtorEq, List.not_mem_nil, or_false] at hr
    rcases hr with rfl | rfl
    · decide
    · decide
  · simp only [es, List.mem_cons, reduceCtorEq, List.not_mem_nil, or_false] at hd

/-- Under PRIORITY a request that was scheduled for eight tokens is preempted in the same pass: the block of the first
four stays in the prefix cache, and nothing was written to it. -/
theorem cached_not_written :
    let cfg : VllmConfig :=
      { gambit := {},
        scheduler := { policy := .priority, maxModelLen := 100, longPrefillTokenThreshold := 8 } }
    let kv : Request → Nat → List Token := fun r pos => r.allTokenIds.take (pos + 1)
    let es : List SchedEvent :=
      [.addRequest { requestId := ['a'], promptTokenIds := List.replicate 24 1, priority := 1 },
        .schedule fun _ => true, .updateFromOutput ⟨[], by decide⟩ ∅ none,
        .addRequest { requestId := ['b'], promptTokenIds := [2, 2, 2, 2] },
        .schedule fun _ => true, .updateFromOutput ⟨[(['b'], [3])], by decide⟩ ∅ none,
        .schedule fun _ => true]
    let m := execMachine Caches.unbounded (Hasher.chain 4) cfg kv
      (.ok (.init cfg.scheduler.maxModelLen false 8 true [(.full, 4)]), ())
    (m.exec es).2.1.sched.running = [['b']] ∧
      ¬ ∃ s, (m.exec es).2.1.sched.caches.1 = .ok s ∧ s.CacheFilled (Hasher.chain 4) kv (m.exec es).2.2 := by
  intro cfg kv es m
  refine ⟨by decide +kernel, ?_⟩
  rintro ⟨s, hs, hfill⟩
  have hkey : ((m.exec es).2.1.sched.caches.1.toOption.bind fun s => s.blockPool.blockHash 6) =
      ((Hasher.chain 4).blockHashes { requestId := ['a'], promptTokenIds := List.replicate 24 1 })[4]?.map
        fun h => (h, 0) := by decide +kernel
  have hsome : (((Hasher.chain 4).blockHashes
      { requestId := ['a'], promptTokenIds := List.replicate 24 1 })[4]?).isSome := by decide +kernel
  have hmem : (m.exec es).2.2 6 0 = none := by decide +kernel
  obtain ⟨h, hh⟩ := Option.isSome_iff_exists.1 hsome
  rw [hs, hh] at hkey
  have hwritten := hfill 6 h 0 hkey _ 4 hh 0 (by decide)
  rw [hmem] at hwritten
  cases hwritten

end Gambit.Sched
