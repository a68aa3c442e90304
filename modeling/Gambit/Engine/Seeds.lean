import Gambit.Engine.Forest
import Gambit.Engine.Prefix
import Gambit.Frontend.Parallel

/-!
# Seeds of samples and branches

`ParentRequest` gives sample `j` of a prompt the seed `s + j`, and `_gambit_create_child_request` gives a branch
the seed of its parent plus `branch_counter`, which counts the branches of all traces. So the seed of a request is
`s` plus a number that only depends on where the request comes from: `PathNumber` reads it off the id. Two
different paths can have the same number, and nothing in the code looks for it: the first branch of the run has
the seed of the next sample, unless it is made from the last one. The numbers grow as long as the prompt is
`BranchedInOrder`: from its last sample on, and never off an older request than before.

`AllParams` is the invariant behind it, for any property of sampling parameters that a branch inherits.
-/

namespace Gambit.Engine
open Gambit.Lib Gambit.Sched Gambit.Trace Gambit.Frontend

variable {μ β : Type} {ops : Caches μ β} {cfg : VllmConfig} {m : μ}

/-- A branch inherits the property from its parent. -/
def BranchesInherit (cfg : VllmConfig) (Q : ReqId → SamplingParams → Prop) : Prop :=
  ∀ (i : StepInput) (k : Nat) (parent : ReqId) (p : SamplingParams), Q parent p →
    Q (branchId k parent) (EngineCore.childSamplingParams cfg i p (k + 1) (branchId k parent))

namespace EngineCore

/-- The sampling parameters of every live request have the property. -/
def AllParams (e : EngineCore μ) (Q : ReqId → SamplingParams → Prop) : Prop :=
  ∀ rid r, e.scheduler.requests.get? rid = some r → Q rid r.samplingParams

variable {Q : ReqId → SamplingParams → Prop} {e e' : EngineCore μ} {added : List ReqId}
variable {so : SchedulerOutput β} {i : StepInput}

/-- Relabelled requests keep their sampling parameters. -/
lemma AllParams.relabels (h : e.AllParams Q) (hrel : e.scheduler.Relabels e'.scheduler) : e'.AllParams Q := by
  intro rid r' hr'
  obtain ⟨r, hr, ht, -⟩ := hrel.back hr'
  rw [ht.samplingParams]
  exact h rid r hr

/-- A new branch. -/
lemma AllParams.createBranch (h : e.AllParams Q) (hQ : BranchesInherit cfg Q) (parent : ReqId) :
    (e.createBranch cfg i parent).1.AllParams Q := by
  rcases createBranch_cases cfg i e parent with heq | ⟨t, -, -, heq⟩ | ⟨r, t, c, -, hr, ht, hcr, heq⟩
  · rw [heq]
    exact h
  · rw [heq]
    exact h
  · obtain ⟨ts, ss, cs, hadopt, -⟩ := adoptChild_eq cfg e t parent c r.allTokenIds
    obtain ⟨hid, -⟩ := createChildRequest_eq hcr
    have hcount : t.branchCounter = e.traceTree.branchCounter + 1 := (TraceTree.addBranch_frame ht).1
    have hparams : c.samplingParams =
        childSamplingParams cfg i r.samplingParams t.branchCounter (e.traceTree.generateBranchId parent) := by
      unfold createChildRequest at hcr
      split at hcr
      · cases hcr
      · cases hcr
        rfl
    rw [heq, hadopt]
    intro rid r' hr'
    dsimp only at hr'
    rw [Scheduler.get?_addRequest] at hr'
    split at hr'
    · next hrid =>
      cases hr'
      rw [hrid, hid, hparams, hcount]
      exact hQ i e.traceTree.branchCounter parent r.samplingParams (h parent r hr)
    · exact h rid r' hr'

/-- The phases of a step. -/
lemma phaseRules_allParams (hQ : BranchesInherit cfg Q) :
    PhaseRules (μ := μ) cfg i added so (fun e => e.AllParams Q) where
  absorb e e' reply _ hp _ habs _ := by
    obtain ⟨_, _, _, _, _, rfl, -⟩ := habs
    exact hp
  submit e e' _ hp _ hs := by
    obtain ⟨_, _, _, rfl, -⟩ := hs
    exact hp
  label e scores _ hp := hp.relabels (Scheduler.relabels_updateTraceScores e.scheduler scores)
  move e e' avgs _ hp _ _ hm := by
    cases hm with
    | count | register | pruneTested | pruneRanked | forceStop | round => exact hp
    | flush => unfold flushHistories; split <;> exact hp
    | branch parent => exact hp.createBranch hQ parent
  drop e ids _ hp := hp
  trigger e mo _ hp _ := by
    obtain ⟨tc, sl, heq, -⟩ := detectTriggers_eq cfg e mo
    rw [heq]
    exact hp
  inject e mo _ hp := by
    obtain ⟨s, low, force, mo', heq, hs, -⟩ := injectEos_eq e mo
    rw [heq]
    exact hp.relabels hs

/-- A step keeps the property. -/
lemma AllParams.step (h : e.AllParams Q) (hQ : BranchesInherit cfg Q) (hb : Base cfg added e) :
    (e.step ops cfg i).AllParams Q := by
  cases hreq : e.scheduler.hasRequests with
  | false =>
    have hs : (e.step ops cfg i).scheduler = e.scheduler := by
      rw [EngineCore.step, if_neg (by simp [hreq])]
      unfold idleCleanup
      split <;> rfl
    intro rid r hr
    rw [hs] at hr
    exact h rid r hr
  | true =>
    have hstart : (e.afterSchedule ops cfg i).1.AllParams Q := by
      intro rid r hr
      have spec : Scheduler.ScheduleSpec ops cfg e.scheduler
          (e.scheduler.schedule ops cfg i.grammarReady).1 (e.scheduler.schedule ops cfg i.grammarReady).2 :=
        hb.wf.schedule i.grammarReady
      obtain ⟨r₀, h0, hk⟩ := spec.evolves.back rid r hr
      rw [hk.samplingParams]
      exact h rid r₀ h0
    obtain ⟨e1, mo, fin, -, hmid, -, -, -, -, -, hfin, -⟩ :=
      hb.step_rule ops hreq (phaseRules_allParams hQ) hstart
    intro rid r' hr'
    rw [hfin.update.requests] at hr'
    split at hr'
    · obtain ⟨r, hr, ho⟩ := Option.bind_eq_some_iff.1 hr'
      unfold Scheduler.outcome at ho
      split at ho
      · cases ho
      · next hs =>
        cases ho
        obtain ⟨n, hn⟩ := Scheduler.accept_of_not_stopped (by simpa using hs)
        rw [hn]
        exact hmid rid r hr
    · exact hmid rid r' hr'

/-- Every event keeps the property. -/
lemma AllParams.handle (h : e.AllParams Q) (hQ : BranchesInherit cfg Q) (hb : Base cfg added e) {ev : Event}
    (hadd : ∀ r, ev = .addRequest r → Q r.requestId r.samplingParams) : (e.handle ops cfg ev).AllParams Q := by
  cases ev with
  | addRequest r =>
    have hs : (e.handle ops cfg (.addRequest r)).scheduler = e.scheduler.addRequest cfg.policy r := by
      unfold EngineCore.handle EngineCore.addRequest
      dsimp only
      split <;> rfl
    intro rid r' hr'
    rw [hs, Scheduler.get?_addRequest] at hr'
    split at hr'
    · next hrid =>
      cases hr'
      rw [hrid]
      exact hadd r rfl
    · exact h rid r' hr'
  | abortRequests rids =>
    have spec := hb.wf.finishRequests ops rids .finishedAborted
    intro rid r' hr'
    have hr : (e.scheduler.finishRequests ops rids .finishedAborted).requests.get? rid = some r' := hr'
    rw [spec.requests] at hr
    split at hr
    · cases hr
    · exact h rid r' hr
  | postStep drafts =>
    intro rid r' hr'
    obtain ⟨r, hr, ht, -⟩ := (Scheduler.relabels_updateDraftTokenIds e.scheduler drafts).back hr'
    rw [ht.samplingParams]
    exact h rid r hr
  | step i => exact h.step hQ hb

end EngineCore

/-- A property that the added requests have and that branches inherit holds in every reachable state. -/
theorem allParams_of_runs {Q : ReqId → SamplingParams → Prop} (hQ : BranchesInherit cfg Q) {h : List Event}
    {os : List StepRecord} {e : EngineCore μ} (run : (engineMachine ops cfg m).Runs h os e)
    (hadd : ∀ r, Event.addRequest r ∈ h → Q r.requestId r.samplingParams) : e.AllParams Q := by
  induction run with
  | init => exact fun rid r hr => absurd (Dict.mem_of_get? hr) Dict.not_mem_empty
  | @step h os e ev run _ ih =>
    have hall := ih fun r hr => hadd r (List.mem_append_left _ hr)
    exact hall.handle hQ (base_of_runs run) fun r hev => hadd r (by simp [hev])

/-- The request `rid` descends from a sample of the prompt `p` with `n` samples, and its path sums up to the
number: the index of the sample plus, for each branch, the place of the branch among all branches. -/
inductive PathNumber (p : ReqId) (n : Nat) : ReqId → Nat → Prop where
  | sample {j} : j < n → PathNumber p n (childId j p) j
  | branch {k parent a} : PathNumber p n parent a → PathNumber p n (branchId k parent) (a + (k + 1))

/-- A sample is not a branch. -/
lemma childId_ne_branchId (j k : Nat) (p parent : ReqId) : childId j p ≠ branchId k parent := by
  intro h
  obtain ⟨c, l, hd⟩ := List.exists_cons_of_ne_nil (Nat.toDigits_ne_nil (n := j) (b := 10))
  have hc : c.isDigit := Nat.isDigit_of_mem_toDigits (by omega) (by omega) (hd ▸ List.mem_cons_self)
  have hg : (childId j p).head? = some 'g' := by rw [h]; rfl
  rw [childId, hd, List.cons_append, List.head?_cons] at hg
  cases hg
  exact absurd hc (by decide)

/-- The number of a sample is its index. -/
lemma PathNumber.of_childId {p : ReqId} {n j a : Nat} (h : PathNumber p n (childId j p) a) : a = j := by
  generalize he : childId j p = rid at h
  cases h with
  | sample _ => exact (childId_inj he).1.symm
  | branch _ => exact absurd he (childId_ne_branchId _ _ _ _)

/-- The number of a branch. -/
lemma PathNumber.of_branchId {p parent : ReqId} {n k b : Nat} (h : PathNumber p n (branchId k parent) b) :
    ∃ a, PathNumber p n parent a ∧ b = a + (k + 1) := by
  generalize he : branchId k parent = rid at h
  cases h with
  | sample _ => exact absurd he.symm (childId_ne_branchId _ _ _ _)
  | branch ha =>
    obtain ⟨rfl, rfl⟩ := branchId_inj he
    exact ⟨_, ha, rfl⟩

/-- A request has one number. -/
lemma PathNumber.unique {p rid : ReqId} {n a b : Nat} (ha : PathNumber p n rid a) (hb : PathNumber p n rid b) :
    b = a := by
  induction ha generalizing b with
  | sample _ => exact hb.of_childId
  | branch _ ih =>
    obtain ⟨a', ha', rfl⟩ := hb.of_branchId
    rw [ih ha']

/-- The seeds that the paths of the prompt stand for. -/
def SeedOfPath (p : ReqId) (n : Nat) (s : Int) (rid : ReqId) (params : SamplingParams) : Prop :=
  ∀ a, PathNumber p n rid a → params.seed = some (s + a)

/-- A branch has the seed its path stands for. -/
lemma branchesInherit_seed (cfg : VllmConfig) (p : ReqId) (n : Nat) (s : Int) :
    BranchesInherit cfg (SeedOfPath p n s) := by
  intro i k parent params h b hb
  obtain ⟨a, ha, rfl⟩ := hb.of_branchId
  have hseed := h a ha
  show some _ = some _
  rw [hseed]
  dsimp only
  congr 1
  push_cast
  omega

/-- The request `rid` was live with these contents in some state of the run. -/
def Existed (ops : Caches μ β) (cfg : VllmConfig) (m : μ) (h : List Event) (rid : ReqId) (r : Request) : Prop :=
  ∃ h' os e, h' <+: h ∧ (engineMachine ops cfg m).Runs h' os e ∧ e.scheduler.requests.get? rid = some r

/-- Every two requests of the prompt that ever existed have different seeds. -/
def SeedsDiffer (ops : Caches μ β) (cfg : VllmConfig) (m : μ) (h : List Event) (p : ReqId) (n : Nat) : Prop :=
  ∀ x y rx ry a b, Existed ops cfg m h x rx → Existed ops cfg m h y ry → PathNumber p n x a →
    PathNumber p n y b → x ≠ y → rx.samplingParams.seed ≠ ry.samplingParams.seed

/-- Whenever the trace with the number `a` is the parent of the branch in place `k + 1`, no other request of the
prompt has the number `a + (k + 1)`. -/
def BranchesApart (ops : Caches μ β) (cfg : VllmConfig) (m : μ) (h : List Event) (p : ReqId) (n : Nat) : Prop :=
  ∀ k parent a y r ry, Existed ops cfg m h (branchId k parent) r → PathNumber p n parent a →
    Existed ops cfg m h y ry → PathNumber p n y (a + (k + 1)) → y = branchId k parent

/-- The samples of the prompt that were added are those of a `ParentRequest` with these parameters. -/
def SampledWith (h : List Event) (p : ReqId) (n : Nat) (params : SamplingParams) : Prop :=
  ∀ r, Event.addRequest r ∈ h → ∀ j < n, r.requestId = childId j p →
    r.samplingParams = ParentRequest.getChildSamplingParams params j

variable {h : List Event} {p : ReqId} {n : Nat} {params : SamplingParams} {s : Int}

/-- The seed of a request of the prompt is the given seed plus its number. -/
lemma Existed.seed {os : List StepRecord} {e : EngineCore μ} (run : (engineMachine ops cfg m).Runs h os e)
    (hparams : SampledWith h p n params) (hs : params.seed = some s) {rid : ReqId} {r : Request} {a : Nat}
    (hex : Existed ops cfg m h rid r) (ha : PathNumber p n rid a) : r.samplingParams.seed = some (s + a) := by
  obtain ⟨h', os', e', hpre, run', hr⟩ := hex
  refine allParams_of_runs (branchesInherit_seed cfg p n s) run' (fun r₀ hadd b hb => ?_) rid r hr a ha
  have hadd := hpre.subset hadd
  have hok : ¬ "gambit_".toList <+: r₀.requestId := (base_of_runs run).external _ (by
    exact List.mem_filterMap.2 ⟨_, hadd, rfl⟩)
  generalize hid : r₀.requestId = rid₀ at hb
  cases hb with
  | sample hj =>
    rw [hparams r₀ hadd b hj hid, ParentRequest.getChildSamplingParams, hs]
    rfl
  | branch _ =>
    rw [hid] at hok
    exact absurd (branchId_reserved _ _) hok

/-- The seeds are different exactly when every branch lands on a number of its own. -/
lemma seedsDiffer_iff_branchesApart {os : List StepRecord} {e : EngineCore μ} (run : (engineMachine ops cfg m).Runs h os e)
    (hparams : SampledWith h p n params) (hs : params.seed = some s) :
    SeedsDiffer ops cfg m h p n ↔ BranchesApart ops cfg m h p n := by
  constructor
  · intro hdiff k parent a y r ry hr ha hy hb
    by_contra hne
    have hbranch : PathNumber p n (branchId k parent) (a + (k + 1)) := .branch ha
    apply hdiff y (branchId k parent) ry r (a + (k + 1)) (a + (k + 1)) hy hr hb hbranch hne
    rw [hy.seed run hparams hs hb, hr.seed run hparams hs hbranch]
  · intro hapart x y rx ry a b hx hy ha hb hne heq
    rw [hx.seed run hparams hs ha, hy.seed run hparams hs hb] at heq
    have hab : a = b := by
      have := Option.some.inj heq
      omega
    subst hab
    cases ha with
    | branch ha => exact hne (hapart _ _ _ y rx ry hx ha hy hb).symm
    | sample hj =>
      generalize hid : childId a p = x at *
      cases hb with
      | branch hb => exact hne (hapart _ _ _ x ry rx hy hb hx (hid ▸ .sample hj))
      | sample _ => exact hne hid.symm

/-- A branch that is made early, off a sample that is not among the last: it has the seed of a later sample. -/
theorem early_branch_clashes {os : List StepRecord} {e : EngineCore μ}
    (run : (engineMachine ops cfg m).Runs h os e) (hparams : SampledWith h p n params) (hs : params.seed = some s)
    {j k : Nat} {r r' : Request} (hlater : j + (k + 1) < n)
    (hbranch : Existed ops cfg m h (branchId k (childId j p)) r)
    (hsample : Existed ops cfg m h (childId (j + (k + 1)) p) r') : ¬ SeedsDiffer ops cfg m h p n := by
  intro hdiff
  have hapart := (seedsDiffer_iff_branchesApart run hparams hs).1 hdiff
  have heq := hapart k (childId j p) j _ r r' hbranch (.sample (by omega)) hsample (.sample hlater)
  exact childId_ne_branchId _ _ _ _ heq

/-- The place of a request of the prompt in the order they are made: the samples first, then the branches. -/
inductive PathPlace (p : ReqId) (n : Nat) : ReqId → Nat → Prop where
  | sample {j} : j < n → PathPlace p n (childId j p) j
  | branch {k parent i} : PathPlace p n parent i → PathPlace p n (branchId k parent) (n + k)

/-- The request existed in the run, or a request that descends from it did. -/
inductive Lineage (ops : Caches μ β) (cfg : VllmConfig) (m : μ) (h : List Event) : ReqId → Prop where
  | existed {rid r} : Existed ops cfg m h rid r → Lineage ops cfg m h rid
  | parent {k parent} : Lineage ops cfg m h (branchId k parent) → Lineage ops cfg m h parent

/-- Branches are made off the last sample of the prompt or off branches, and a later one never off an older
request. -/
structure BranchedInOrder (ops : Caches μ β) (cfg : VllmConfig) (m : μ) (h : List Event) (p : ReqId) (n : Nat) :
    Prop where
  last : ∀ k parent i, Lineage ops cfg m h (branchId k parent) → PathPlace p n parent i → n ≤ i + 1
  order : ∀ k parent i k' parent' i', Lineage ops cfg m h (branchId k parent) →
    Lineage ops cfg m h (branchId k' parent') → PathPlace p n parent i → PathPlace p n parent' i' → k ≤ k' → i ≤ i'

/-- A request with a number has a place. -/
lemma PathNumber.place {rid : ReqId} {a : Nat} (h : PathNumber p n rid a) : ∃ i, PathPlace p n rid i := by
  induction h with
  | sample hj => exact ⟨_, .sample hj⟩
  | branch _ ih =>
    obtain ⟨i, hi⟩ := ih
    exact ⟨_, .branch hi⟩

/-- The place of a sample is its index. -/
lemma PathPlace.of_childId {j i : Nat} (h : PathPlace p n (childId j p) i) : i = j := by
  generalize he : childId j p = rid at h
  cases h with
  | sample _ => exact (childId_inj he).1.symm
  | branch _ => exact absurd he (childId_ne_branchId _ _ _ _)

/-- The place of a branch is behind all samples. -/
lemma PathPlace.of_branchId {parent : ReqId} {k i : Nat} (h : PathPlace p n (branchId k parent) i) : i = n + k := by
  generalize he : branchId k parent = rid at h
  cases h with
  | sample _ => exact absurd he.symm (childId_ne_branchId _ _ _ _)
  | branch _ =>
    obtain ⟨rfl, -⟩ := branchId_inj he
    rfl

/-- From the last sample on, no number is below that of the last sample. -/
lemma BranchedInOrder.le_number (hord : BranchedInOrder ops cfg m h p n) {rid : ReqId} {i a : Nat}
    (hl : Lineage ops cfg m h rid) (hi : PathPlace p n rid i) (ha : PathNumber p n rid a) (hlast : n ≤ i + 1) :
    n ≤ a + 1 := by
  induction ha generalizing i with
  | sample _ =>
    rw [hi.of_childId] at hlast
    exact hlast
  | @branch k parent a ha ih =>
    obtain ⟨i', hi'⟩ := ha.place
    have := ih (.parent hl) hi' (hord.last k parent i' hl hi')
    omega

/-- The number of a branch is that of no sample. -/
lemma BranchedInOrder.le_branch (hord : BranchedInOrder ops cfg m h p n) {parent : ReqId} {k a : Nat}
    (hl : Lineage ops cfg m h (branchId k parent)) (ha : PathNumber p n parent a) : n ≤ a + (k + 1) := by
  obtain ⟨i, hi⟩ := ha.place
  have := hord.le_number (.parent hl) hi ha (hord.last k parent i hl hi)
  omega

/-- From the last sample on, the numbers do not go down. -/
lemma BranchedInOrder.number_mono (hord : BranchedInOrder ops cfg m h p n) {x y : ReqId} {i j a b : Nat}
    (hx : Lineage ops cfg m h x) (hy : Lineage ops cfg m h y) (hi : PathPlace p n x i) (hj : PathPlace p n y j)
    (ha : PathNumber p n x a) (hb : PathNumber p n y b) (hlast : n ≤ i + 1) (hij : i ≤ j) : a ≤ b := by
  induction ha generalizing y i j b with
  | @sample a hlt =>
    obtain rfl := hi.of_childId
    cases hb with
    | sample _ => exact hij.trans_eq hj.of_childId
    | branch hb =>
      have := hord.le_branch hy hb
      omega
  | @branch k parent a ha ih =>
    obtain rfl := hi.of_branchId
    cases hb with
    | sample hlt =>
      obtain rfl := hj.of_childId
      omega
    | @branch k' parent' b hb =>
      obtain rfl := hj.of_branchId
      obtain ⟨i₀, hi₀⟩ := ha.place
      obtain ⟨j₀, hj₀⟩ := hb.place
      have hkk : k ≤ k' := by omega
      have hparents := hord.order k parent i₀ k' parent' j₀ hx hy hi₀ hj₀ hkk
      have := ih (.parent hx) (.parent hy) hi₀ hj₀ hb (hord.last k parent i₀ hx hi₀) hparents
      omega

/-- A request that is made later has a larger number. -/
lemma BranchedInOrder.number_lt (hord : BranchedInOrder ops cfg m h p n) {x y : ReqId} {i j a b : Nat}
    (hx : Lineage ops cfg m h x) (hy : Lineage ops cfg m h y) (hi : PathPlace p n x i) (hj : PathPlace p n y j)
    (ha : PathNumber p n x a) (hb : PathNumber p n y b) (hij : i < j) : a < b := by
  cases ha with
  | sample hlt =>
    obtain rfl := hi.of_childId
    cases hb with
    | sample _ => exact hij.trans_eq hj.of_childId
    | branch hb => exact hlt.trans_le (hord.le_branch hy hb)
  | @branch k parent a ha =>
    obtain rfl := hi.of_branchId
    cases hb with
    | sample hlt =>
      obtain rfl := hj.of_childId
      omega
    | @branch k' parent' b hb =>
      obtain rfl := hj.of_branchId
      obtain ⟨i₀, hi₀⟩ := ha.place
      obtain ⟨j₀, hj₀⟩ := hb.place
      have hparents := hord.order k parent i₀ k' parent' j₀ hx hy hi₀ hj₀ (by omega)
      have := hord.number_mono (.parent hx) (.parent hy) hi₀ hj₀ ha hb (hord.last k parent i₀ hx hi₀) hparents
      omega

/-- The ids of the run count its branches, so two branches with one number are one branch. -/
lemma Existed.branch_unique {os : List StepRecord} {e : EngineCore μ} (run : (engineMachine ops cfg m).Runs h os e)
    {k : Nat} {parent parent' : ReqId} {r r' : Request} (hx : Existed ops cfg m h (branchId k parent) r)
    (hy : Existed ops cfg m h (branchId k parent') r') : parent = parent' := by
  have logged : ∀ {q : ReqId} {r : Request}, Existed ops cfg m h (branchId k q) r →
      (os.flatMap StepRecord.generated)[k]? = some (branchId k q) := by
    rintro q r ⟨h', os', e', hpre, run', hr⟩
    have ht := traced_of_runs run'
    have hnum : Numbered (os'.flatMap StepRecord.generated) := by
      have := ht.numbered
      rwa [EngineCore.generatedIds, StepRecord.generated, List.filterMap_nil, List.append_nil] at this
    have hmem : branchId k q ∈ os'.flatMap StepRecord.generated := by
      rcases ht.ids.live _ (Dict.mem_of_get? hr) with hadd | hgen
      · exact absurd (branchId_reserved k q) ((base_of_runs run').external _ hadd)
      · rwa [EngineCore.generatedIds, StepRecord.generated, List.filterMap_nil, List.append_nil] at hgen
    obtain ⟨j, hj⟩ := List.getElem?_of_mem hmem
    obtain ⟨q', hq'⟩ := hnum j _ hj
    obtain ⟨rfl, -⟩ := branchId_inj hq'
    obtain ⟨t, rfl⟩ := run.outputs_prefix run' hpre
    rw [List.flatMap_append]
    rw [List.getElem?_append_left (List.getElem?_eq_some_iff.1 hj).1]
    exact hj
  exact (branchId_inj (Option.some.inj ((logged hx).symm.trans (logged hy)))).2

/-- The requests of a prompt that is branched in order have different seeds. -/
theorem seeds_differ_of_order {os : List StepRecord} {e : EngineCore μ}
    (run : (engineMachine ops cfg m).Runs h os e) (hparams : SampledWith h p n params) (hs : params.seed = some s)
    (hord : BranchedInOrder ops cfg m h p n) : SeedsDiffer ops cfg m h p n := by
  intro x y rx ry a b hx hy ha hb hne heq
  rw [hx.seed run hparams hs ha, hy.seed run hparams hs hb] at heq
  have hab : a = b := by
    have := Option.some.inj heq
    omega
  obtain ⟨i, hi⟩ := ha.place
  obtain ⟨j, hj⟩ := hb.place
  rcases Nat.lt_trichotomy i j with hij | hij | hij
  · exact absurd hab (hord.number_lt (.existed hx) (.existed hy) hi hj ha hb hij).ne
  · cases hi with
    | sample hlt =>
      cases hj with
      | sample _ => exact hne (hij ▸ rfl)
      | branch _ => omega
    | branch _ =>
      cases hj with
      | sample hlt => omega
      | branch _ =>
        obtain rfl := Nat.add_left_cancel hij
        exact hne (congrArg _ (hx.branch_unique run hy))
  · exact absurd hab (hord.number_lt (.existed hy) (.existed hx) hj hi hb ha hij).ne'

/-- A request that existed, in a computed state. -/
lemma Existed.exec {rid : ReqId} {r : Request} (hex : Existed ops cfg m h rid r) :
    ∃ h' ∈ h.inits, ((engineMachine ops cfg m).exec h').2.scheduler.requests.get? rid = some r := by
  obtain ⟨h', os, e, hpre, run, hr⟩ := hex
  refine ⟨h', (List.mem_inits _ _).2 hpre, ?_⟩
  rw [run.eq_exec]
  exact hr

/-- A prompt with two samples and seed 7; the trace `best` is ahead and is branched in the second step. -/
def siblingEvents (best : ReqId) : List Event :=
  let sample (j : Nat) : Request :=
    { requestId := childId j ['1'], promptTokenIds := [1, 2, 3],
      samplingParams := ParentRequest.getChildSamplingParams { seed := some 7 } j }
  [.addRequest (sample 0), .addRequest (sample 1),
    .step (.ofSamples (fun _ => [7]) fun rid => if rid = best then 2 else 1),
    .step (.ofSamples (fun _ => [5]) fun rid => if rid = best then 2 else 1)]

/-- The samples of the pair are those of one prompt. -/
lemma siblingEvents_sampled (best : ReqId) : SampledWith (siblingEvents best) ['1'] 2 { seed := some 7 } := by
  intro r hr j _ hid
  simp only [siblingEvents, List.mem_cons, Event.addRequest.injEq, reduceCtorEq, List.not_mem_nil, or_false] at hr
  rcases hr with rfl | rfl
  · rw [(childId_inj hid).1]
  · rw [(childId_inj hid).1]

/-- The branch off the last sample has a seed of its own. -/
theorem seeds_differ_last : SeedsDiffer .unbounded tournamentSample () (siblingEvents (childId 1 ['1'])) ['1'] 2 := by
  have hok : (engineMachine .unbounded tournamentSample ()).OkFrom [] (siblingEvents (childId 1 ['1'])) := by
    decide +kernel
  have hids : ∀ h' ∈ (siblingEvents (childId 1 ['1'])).inits,
      ∀ y ∈ ((engineMachine .unbounded tournamentSample ()).exec h').2.scheduler.requests.keys,
        y = childId 0 ['1'] ∨ y = childId 1 ['1'] ∨ y = branchId 0 (childId 1 ['1']) := by
    decide +kernel
  have hline : ∀ {y}, Lineage .unbounded tournamentSample () (siblingEvents (childId 1 ['1'])) y →
      y = childId 0 ['1'] ∨ y = childId 1 ['1'] ∨ y = branchId 0 (childId 1 ['1']) := by
    intro y hy
    induction hy with
    | existed hex =>
      obtain ⟨h', hpre, hr⟩ := hex.exec
      exact hids h' hpre _ (Dict.mem_of_get? hr)
    | parent _ ih =>
      rcases ih with he | he | he
      · exact absurd he.symm (childId_ne_branchId _ _ _ _)
      · exact absurd he.symm (childId_ne_branchId _ _ _ _)
      · exact .inr (.inl (branchId_inj he).2)
  have hbranch : ∀ {k parent},
      Lineage .unbounded tournamentSample () (siblingEvents (childId 1 ['1'])) (branchId k parent) →
        parent = childId 1 ['1'] := by
    intro k parent hl
    rcases hline hl with he | he | he
    · exact absurd he.symm (childId_ne_branchId _ _ _ _)
    · exact absurd he.symm (childId_ne_branchId _ _ _ _)
    · exact (branchId_inj he).2
  refine seeds_differ_of_order (Machine.Runs.of_exec hok) (siblingEvents_sampled _) rfl ⟨?_, ?_⟩
  · intro k parent i hl hi
    obtain rfl := hbranch hl
    rw [hi.of_childId]
  · intro k parent i k' parent' i' hl hl' hi hi' _
    obtain rfl := hbranch hl
    obtain rfl := hbranch hl'
    rw [hi.of_childId, hi'.of_childId]

/-- The branch off the first sample has the seed of the second. -/
theorem first_branch_clashes :
    (engineMachine .unbounded tournamentSample ()).OkFrom [] (siblingEvents (childId 0 ['1'])) ∧
      SampledWith (siblingEvents (childId 0 ['1'])) ['1'] 2 { seed := some 7 } ∧
      ¬ SeedsDiffer .unbounded tournamentSample () (siblingEvents (childId 0 ['1'])) ['1'] 2 := by
  have hok : (engineMachine .unbounded tournamentSample ()).OkFrom [] (siblingEvents (childId 0 ['1'])) := by
    decide +kernel
  refine ⟨hok, siblingEvents_sampled _, fun hdiff => ?_⟩
  have hlive : ∀ rid ∈ [childId 1 ['1'], branchId 0 (childId 0 ['1'])],
      ∃ r, Existed .unbounded tournamentSample () (siblingEvents (childId 0 ['1'])) rid r ∧
        r.samplingParams.seed = some 8 := by
    intro rid hrid
    have hget : ∀ rid ∈ [childId 1 ['1'], branchId 0 (childId 0 ['1'])],
        (((engineMachine .unbounded tournamentSample ()).exec
          (siblingEvents (childId 0 ['1']))).2.scheduler.requests.get? rid).map (·.samplingParams.seed) =
            some (some 8) := by
      decide +kernel
    obtain ⟨r, hr, hs⟩ := Option.map_eq_some_iff.1 (hget rid hrid)
    exact ⟨r, ⟨_, _, _, List.prefix_rfl, Machine.Runs.of_exec hok, hr⟩, hs⟩
  obtain ⟨rx, hx, hsx⟩ := hlive _ (.head _)
  obtain ⟨ry, hy, hsy⟩ := hlive _ (.tail _ (.head _))
  exact hdiff _ _ rx ry 1 1 hx hy (.sample (by decide)) (.branch (.sample (by decide)))
    (childId_ne_branchId _ _ _ _) (hsx.trans hsy.symm)

end Gambit.Engine
