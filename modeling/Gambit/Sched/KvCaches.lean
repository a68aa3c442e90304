import Gambit.KV.Backing
import Gambit.Sched.Moves
import Gambit.Sched.StateInvariant

/-!
# The scheduler with its KV cache manager

The scheduler of this development is driven against any cache managers, and the KV cache manager against any
calls. Here the two are put together: `Caches.withKv` is the KV cache manager as the scheduler calls it, beside
an encoder cache manager that stays a parameter.

`Move.effect` says what a move of a scheduling pass does to the manager: nothing, a refused allocation, a victim
freed, or slots granted. The calls are among those the manager is proved for, since the scheduler offers slots to
running requests without computed blocks, and to waiting ones, of which the manager knows nothing, with the blocks
it just found. So in every run no call raises, only running requests hold blocks, and the blocks of a request reach
over its computed tokens (`kv_backed_of_runs`).
-/

namespace Gambit.Sched
open Gambit.Lib Gambit.KV

/-- The state of the KV cache manager, unless a call raised, and that of the encoder cache manager. -/
abbrev KvState (η ε : Type) := Except Unit (KVCacheManager η) × ε

/-- The blocks of a request, one list for each group (Python `KVCacheBlocks`). -/
abbrev KvBlocks := List (List Nat)

section Instance
variable {η ε β : Type} [DecidableEq η]

/-- The KV cache manager as the scheduler calls it. A look-up that raises counts as none; it never does in a run. -/
def Caches.withKv (enc : Caches ε β) (H : Hasher η) : Caches (KvState η ε) KvBlocks where
  getComputedBlocks m r :=
    match m.1.bind fun s => s.getComputedBlocks H r with
    | .ok hit => hit
    | .error _ => ([], 0)
  allocateSlots m r numNew cached blocks lookahead encoderTokens :=
    match m.1.bind fun s => s.allocateSlots H r numNew cached (blocks.getD s.emptyBlocks) lookahead false
        encoderTokens.toNat with
    | .ok (s, new) => ((.ok s, m.2), new)
    | .error _ => ((.error (), m.2), none)
  freeBlocks m r := (m.1.bind fun s => s.free r.requestId, m.2)
  getBlocks m rid :=
    match m.1 with
    | .ok s => s.getBlocks rid
    | .error _ => []
  tryScheduleEncoderInputs m r computed n budget :=
    let (e, inputs, n, budget) := enc.tryScheduleEncoderInputs m.2 r computed n budget
    ((m.1, e), inputs, n, budget)
  allocateEncoder m r i := (m.1, enc.allocateEncoder m.2 r i)
  freeEncoder m r := (m.1, enc.freeEncoder m.2 r)
  freeEncoderInputs m r := (m.1, enc.freeEncoderInputs m.2 r)

/-- Encoder inputs lower the number of new tokens, to nothing at the least. -/
def Caches.EncoderLowers (enc : Caches ε β) : Prop := ∀ e r computed n budget, 0 ≤ n →
  0 ≤ (enc.tryScheduleEncoderInputs e r computed n budget).2.2.1 ∧
    (enc.tryScheduleEncoderInputs e r computed n budget).2.2.1 ≤ n

variable {enc : Caches ε β} {H : Hasher η} {s s' : KVCacheManager η} {m : KvState η ε} {r : Request}

/-- The coordinator finds no more tokens than it looks for. -/
lemma findLongestCacheHit_le {hashes : List η} {maxLength : Nat} {hit : KvBlocks × Nat}
    (hok : s.findLongestCacheHit hashes maxLength = .ok hit) : hit.2 ≤ maxLength := by
  have hle : ∀ {len b : Nat}, len ≤ maxLength / b → len * b ≤ maxLength :=
    fun h => (Nat.mul_le_mul_right _ h).trans (Nat.div_mul_le_self _ _)
  unfold KVCacheManager.findLongestCacheHit at hok
  split at hok
  · obtain ⟨rows, hrows, hok⟩ := bind_eq_ok.1 hok
    cases hok
    exact hle (KVCacheManager.length_findHitRows_le hrows)
  · split at hok
    · next full fulls other others hf ho =>
      unfold KVCacheManager.hybridHit at hok
      dsimp only at hok
      obtain ⟨rows, hrows, hok⟩ := bind_eq_ok.1 hok
      split at hok
      · cases hok
      · cases hok
        have hlen := (fullAttentionHit_spec s.blockPool (s.fullAttentionManagers.map SingleTypeManager.groupId)
          hashes maxLength full.blockSize s.useEagle).2
        have h₁ := hle hlen
        have h₂ := KVCacheManager.length_findHitRows_le hrows
        exact ((Nat.mul_le_mul_right _ h₂).trans (Nat.div_mul_le_self _ _)).trans h₁
    · cases hok

/-- At least one token is left to compute. -/
lemma getComputedBlocks_le {hit : KvBlocks × Nat} (hok : s.getComputedBlocks H r = .ok hit) :
    hit.2 ≤ r.numTokens - 1 := by
  unfold KVCacheManager.getComputedBlocks at hok
  split at hok
  · cases hok
    exact Nat.zero_le _
  · exact findLongestCacheHit_le hok

/-- What a pass relies on; who holds memory is said below of the manager itself. -/
lemma Caches.withKv_laws (henc : enc.EncoderLowers) (H : Hasher η) :
    (enc.withKv H).Laws (fun _ _ => False) fun _ _ => False where
  computed m r := by
    unfold Caches.withKv
    dsimp only
    split
    · next hit hok =>
      cases hm : m.1 with
      | error e =>
        rw [hm] at hok
        cases hok
      | ok s =>
        rw [hm] at hok
        exact getComputedBlocks_le hok
    · exact Nat.zero_le _
  encoder m r computed n budget hn := henc m.2 r computed n budget hn
  allocateSlots _ _ _ _ _ _ _ _ := ⟨False.elim, False.elim⟩
  tryScheduleEncoderInputs _ _ _ _ _ _ := ⟨False.elim, False.elim⟩
  allocateEncoder _ _ _ _ := ⟨False.elim, False.elim⟩
  freeBlocks _ _ _ := ⟨False.elim, False.elim⟩
  freeEncoder _ _ _ := ⟨False.elim, False.elim⟩
  freeEncoderInputs _ _ _ := ⟨False.elim, False.elim⟩

/-- The look-up of a manager that does not raise. -/
lemma withKv_getComputedBlocks {hit : KvBlocks × Nat} (enc : Caches ε β) (hm : m.1 = .ok s)
    (hok : s.getComputedBlocks H r = .ok hit) : (enc.withKv H).getComputedBlocks m r = hit := by
  unfold Caches.withKv
  dsimp only
  rw [hm]
  dsimp only [Except.bind]
  rw [hok]

/-- The slots of a manager that does not raise. -/
lemma withKv_allocateSlots {numNew encoderTokens : Int} {cached lookahead : Nat} {blocks new : Option KvBlocks}
    (enc : Caches ε β) (hm : m.1 = .ok s)
    (hok : s.allocateSlots H r numNew cached (blocks.getD s.emptyBlocks) lookahead false encoderTokens.toNat =
      .ok (s', new)) :
    (enc.withKv H).allocateSlots m r numNew cached blocks lookahead encoderTokens = ((.ok s', m.2), new) := by
  unfold Caches.withKv
  dsimp only
  rw [hm]
  dsimp only [Except.bind]
  rw [hok]

/-- The tokens of a request are freed with it. -/
lemma withKv_freeBlocks (enc : Caches ε β) (hm : m.1 = .ok s) (hok : s.free r.requestId = .ok s') :
    ((enc.withKv H).freeBlocks m r).1 = .ok s' := by
  unfold Caches.withKv
  dsimp only
  rw [hm]
  exact hok

end Instance

/-- What a pass leaves of a request: what its blocks are hashed from, and no new drafts. -/
structure Request.Carries (r r' : Request) : Prop extends r.Kept r' where
  loraRequest : r'.loraRequest = r.loraRequest
  mmFeatures : r'.mmFeatures = r.mmFeatures
  cacheSalt : r'.cacheSalt = r.cacheSalt

lemma Request.Carries.refl (r : Request) : r.Carries r := ⟨.refl r, rfl, rfl, rfl⟩

lemma Request.Carries.trans {r r' r'' : Request} (h : r.Carries r') (h' : r'.Carries r'') : r.Carries r'' :=
  ⟨h.toKept.trans h'.toKept, h'.loraRequest.trans h.loraRequest, h'.mmFeatures.trans h.mmFeatures,
    h'.cacheSalt.trans h.cacheSalt⟩

/-- A request without drafts gets none. -/
lemma Request.Carries.noDrafts {r r' : Request} (h : r.Carries r') (hr : r.specTokenIds = []) :
    r'.specTokenIds = [] := by
  rcases h.specTokenIds with he | he
  · exact he.trans hr
  · exact he

namespace Pass
variable {η ε β : Type} [DecidableEq η] {enc : Caches ε β} {cfg : VllmConfig} {H : Hasher η}
variable {s₀ s s' : KVCacheManager η} {p q : Pass (KvState η ε) KvBlocks} {done : ReqId → Prop}

/-- No drafts, or no group whose attention skips blocks. -/
def Plain (s₀ : KVCacheManager η) (requests : Dict ReqId Request) : Prop :=
  (∀ m ∈ s₀.managers, m.spec = .full) ∨ ∀ x r, requests.get? x = some r → r.specTokenIds = []

/-- The manager at a point of a pass: only running requests have blocks, and these reach over the tokens that are
computed or scheduled. -/
structure Kv (H : Hasher η) (s₀ : KVCacheManager η) (p : Pass (KvState η ε) KvBlocks) (s : KVCacheManager η) :
    Prop where
  ok : p.sched.caches.1 = .ok s
  inv : s.Inv H
  shape : KVCacheManager.SameShape s₀ s
  unknown : ∀ x, x ∉ p.sched.running → s.Unknown x
  backed : ∀ x ∈ p.sched.running, ∀ r, p.sched.requests.get? x = some r →
    s.Backed x (r.numComputedTokens + p.numScheduledTokens.getD x 0)
  plain : Plain s₀ p.sched.requests

/-- The requests after a move; `gain` is what a request is moved on by. -/
def Carried (p q : Pass (KvState η ε) KvBlocks) (gain : ReqId → Int) : Prop :=
  ∀ x r', q.sched.requests.get? x = some r' → ∃ r, p.sched.requests.get? x = some r ∧ r.Carries r' ∧
    (x ∈ q.sched.running → r'.numComputedTokens = r.numComputedTokens + gain x)

/-- Slots granted to the request `r` for `numNew` tokens behind its computed ones and `len` cached ones. -/
structure Grant (H : Hasher η) (p : Pass (KvState η ε) KvBlocks) (s s' : KVCacheManager η) (r : Request) (len : Nat)
    (cols : KvBlocks) (numNew : Int) (lookahead : Nat) : Prop where
  request : p.sched.requests.get? r.requestId = some r
  fresh : r.requestId ∉ p.numScheduledTokens
  hit : r.requestId ∈ p.sched.running ∧ len = 0 ∧ cols = s.emptyBlocks ∨
    r.requestId ∉ p.sched.running ∧ r.numComputedTokens = 0 ∧ s.getComputedBlocks H r = .ok (cols, len)
  pos : 1 ≤ numNew
  limit : r.numComputedTokens + len + numNew ≤ s.maxModelLen
  plain : r.specTokenIds = [] → r.numComputedTokens + len + numNew ≤ r.numTokens
  granted : Nonempty (KVCacheManager.Granted H r
    (min (r.numComputedTokens + len + numNew + lookahead) s.maxModelLen)
    (min (r.numComputedTokens + len + numNew) r.numTokens) cols false s s')
  untouched : ∀ x, x ≠ r.requestId → s.Untouched x s'

/-- What a move does to the manager. -/
inductive Effect (cfg : VllmConfig) (H : Hasher η) (p q : Pass (KvState η ε) KvBlocks) (s s' : KVCacheManager η) :
    Prop where
  | quiet :
    s' = s →
    q.sched.running = p.sched.running →
    q.numScheduledTokens = p.numScheduledTokens →
    Carried p q (fun _ => 0) →
    Effect cfg H p q s s'
  | refused {rid} :
    rid ∉ p.numScheduledTokens →
    KVCacheManager.Skipped rid s s' →
    q.sched.running = p.sched.running →
    q.numScheduledTokens = p.numScheduledTokens →
    Carried p q (fun _ => 0) →
    Effect cfg H p q s s'
  | freed {victim} :
    victim ∈ p.sched.running →
    (cfg.policy ≠ .priority → victim ∉ p.numScheduledTokens ∧ q.numScheduledTokens = p.numScheduledTokens) →
    KVCacheManager.Freed victim s s' →
    (∀ x, x ∈ q.sched.running ↔ x ∈ p.sched.running ∧ x ≠ victim) →
    (∀ x, x ≠ victim → q.numScheduledTokens.get? x = p.numScheduledTokens.get? x) →
    Carried p q (fun _ => 0) →
    Effect cfg H p q s s'
  | granted {r len cols numNew lookahead} :
    Grant H p s s' r len cols numNew lookahead →
    (∀ x, x ∈ q.sched.running ↔ x = r.requestId ∨ x ∈ p.sched.running) →
    q.numScheduledTokens = p.numScheduledTokens.set r.requestId numNew →
    Carried p q (fun x => if x = r.requestId then len else 0) →
    Effect cfg H p q s s'

omit [DecidableEq η] in
/-- Other caches do not matter. -/
lemma carried_setCaches (p : Pass (KvState η ε) KvBlocks) (m : KvState η ε) : Carried p (p.setCaches m) fun _ => 0 :=
  fun _ r' hx => ⟨r', hx, .refl r', fun _ => (Int.add_zero _).symm⟩

/-- Recording encoder inputs leaves the KV cache manager and the requests alone. -/
lemma scheduleEncoder_kv (enc : Caches ε β) (H : Hasher η) (p : Pass (KvState η ε) KvBlocks) (r : Request)
    (inputs : List Nat) (budget : Int) :
    (p.scheduleEncoder (enc.withKv H) r inputs budget).sched.caches.1 = p.sched.caches.1 ∧
      (p.scheduleEncoder (enc.withKv H) r inputs budget).sched.requests = p.sched.requests := by
  have fold : ∀ (l : List Nat) (m : KvState η ε),
      (l.foldl (fun m i => (enc.withKv H).allocateEncoder m r i) m).1 = m.1 := by
    intro l
    induction l with
    | nil => exact fun m => rfl
    | cons i l ih => exact fun m => ih _
  unfold Pass.scheduleEncoder
  split
  · exact ⟨rfl, rfl⟩
  · exact ⟨fold inputs p.sched.caches, rfl⟩

/-- The encoder look-up leaves the KV cache manager alone. -/
lemma tryEncoder_kv {r : Request} {computed n numNew budget : Int} {inputs : List Nat}
    (h : p.tryEncoder (enc.withKv H) r computed n = (q, inputs, numNew, budget)) :
    q.sched.caches.1 = p.sched.caches.1 := by
  unfold Pass.tryEncoder at h
  split at h
  · cases h
    rfl
  · cases h
    rfl

/-- The slots of a running request are for computed tokens that are backed. -/
lemma Kv.safe {rid : ReqId} {r : Request} (h : p.Kv H s₀ s) (hwin : s₀.Windowed) (hmem : rid ∈ p.sched.running)
    (hr : p.sched.requests.get? rid = some r) (hfresh : rid ∉ p.numScheduledTokens) (hn : 0 ≤ r.numComputedTokens) :
    s.Safe rid r.numComputedTokens := by
  have hb := h.backed rid hmem r hr
  rw [Dict.getD_eq, Dict.get?_eq_none.2 hfresh, Option.getD_none, Int.add_zero] at hb
  exact hb.safe h.inv.shaped (hwin.congr h.shape) hn

/-- The lists of computed blocks are as many as the groups. -/
lemma length_of_passed {r : Request} {len : Nat} {cols : KvBlocks} (h : s.Inv H)
    (hp : KVCacheManager.Passed H s r len cols) : s.managers.length = cols.length := by
  rcases hp with ⟨-, rfl⟩ | ⟨-, hget⟩
  · rw [KVCacheManager.emptyBlocks, List.length_map]
  · obtain ⟨cols', n, hok, hits, -⟩ := h.shaped.getComputedBlocks r
    rw [hok] at hget
    cases hget
    exact hits.length_eq

/-- An allocation with arguments the manager is proved for is refused, or granted. -/
lemma Kv.allocate {m : KvState η ε} {r : Request} {numNew encoderTokens : Int} {cached lookahead : Nat}
    (blocks : Option KvBlocks) (enc : Caches ε β) (hm : m.1 = .ok s) (hinv : s.Inv H) (inj : H.Injective)
    (hnew : numNew ≠ 0) (hpassed : KVCacheManager.Passed H s r cached (blocks.getD s.emptyBlocks))
    (hsafe : s.Safe r.requestId r.numComputedTokens) :
    (∃ s', (enc.withKv H).allocateSlots m r numNew cached blocks lookahead encoderTokens = ((.ok s', m.2), none) ∧
      s'.Inv H ∧ KVCacheManager.Skipped r.requestId s s') ∨
    ∃ s' new, (enc.withKv H).allocateSlots m r numNew cached blocks lookahead encoderTokens =
        ((.ok s', m.2), some new) ∧ s'.Inv H ∧
      Nonempty (KVCacheManager.Granted H r
        (min (r.numComputedTokens + cached + numNew + lookahead) s.maxModelLen)
        (min (r.numComputedTokens + cached + numNew) r.numTokens) (blocks.getD s.emptyBlocks) false s s') ∧
      ∀ x, x ≠ r.requestId → s.Untouched x s' := by
  have hlen := length_of_passed hinv hpassed
  rcases hinv.allocateSlots lookahead false encoderTokens.toNat inj hnew hpassed hsafe with
    ⟨s', hok, hinv', hsk⟩ | ⟨s', new, hok, hinv', hg⟩
  · exact .inl ⟨s', withKv_allocateSlots enc hm hok, hinv', hsk⟩
  · refine .inr ⟨s', new, withKv_allocateSlots enc hm hok, hinv', hg, fun x hx => ?_⟩
    exact KVCacheManager.allocateSlots_untouched hx hlen.le hok

/-- What the scheduler asks for a waiting request: the blocks found, of which the manager knows nothing yet. -/
lemma Kv.asked {r : Request} {rid : ReqId} {blocks : Option KvBlocks} {cached lookahead : Nat}
    {computed numNew budget : Int} {inputs : List Nat} (h : p.Kv H s₀ s)
    (ha : Asked (enc.withKv H) cfg p q rid r blocks cached lookahead computed numNew inputs budget)
    (h0 : r.numComputedTokens = 0) :
    ∃ cols, blocks = some cols ∧ s.getComputedBlocks H r = .ok (cols, cached) ∧ lookahead = 0 ∧
      s.Unknown r.requestId := by
  obtain ⟨⟨cols, len⟩, hok⟩ := h.inv.shaped.getComputedBlocks_ok r
  obtain ⟨hb, hc, hl⟩ := ha.found h0
  rw [withKv_getComputedBlocks enc h.ok hok] at hb hc
  refine ⟨cols, hb, by rw [hc]; exact hok, hl, ?_⟩
  rw [ha.requestId]
  exact h.unknown rid ha.idle

/-- Giving tokens to a running request leaves the manager as its allocation left it. -/
lemma runRequest_kv (enc : Caches ε β) (H : Hasher η) (p : Pass (KvState η ε) KvBlocks) (m : KvState η ε) (rid : ReqId)
    (r : Request) (numNew : Int) (blocks : KvBlocks) (inputs : List Nat) (budget : Int) :
    (p.runRequest (enc.withKv H) m rid r numNew blocks inputs budget).sched.caches.1 = m.1 := by
  unfold Pass.runRequest
  rw [(scheduleEncoder_kv ..).1]
  unfold Pass.scheduleSpec
  dsimp only
  split_ifs <;> rfl

/-- A request whose grammar is compiled is the same otherwise. -/
lemma carries_leaveFsm (r : Request) :
    r.Carries r.leaveFsm ∧ r.leaveFsm.numComputedTokens = r.numComputedTokens := by
  unfold Request.leaveFsm
  split
  · exact ⟨⟨⟨⟨rfl, rfl, rfl, rfl, rfl, rfl, rfl, rfl⟩, .inl rfl⟩, rfl, rfl, rfl⟩, rfl⟩
  · exact ⟨.refl r, rfl⟩

/-- The slots of a request that is offered tokens are for computed tokens that are backed. -/
lemma Kv.safe_offered {rid : ReqId} {r : Request} {numNew : Int} (h : p.Kv H s₀ s) (hwin : s₀.Windowed)
    (hg : p.Grants cfg done) (ho : Offered (enc.withKv H) cfg p rid r numNew) :
    s.Safe r.requestId r.numComputedTokens := by
  have hsane := hg.sane rid r ho.request
  have hsafe := h.safe hwin ho.mem ho.request ho.fresh hsane.nonneg
  rw [← ho.requestId] at hsafe
  exact hsafe

/-- Those of a request with nothing computed are always. -/
lemma Kv.safe_zero {r : Request} (h : p.Kv H s₀ s) (hwin : s₀.Windowed) (h0 : r.numComputedTokens = 0) :
    s.Safe r.requestId r.numComputedTokens := by
  rw [h0]
  exact (KVCacheManager.backed_zero s r.requestId).safe h.inv.shaped (hwin.congr h.shape) (Int.le_refl 0)

/-- A running request is refused. -/
lemma Kv.refuse {rid : ReqId} {r : Request} {numNew : Int} {m : KvState η ε} (inj : H.Injective)
    (hwin : s₀.Windowed) (hg : p.Grants cfg done) (h : p.Kv H s₀ s)
    (ho : Offered (enc.withKv H) cfg p rid r numNew)
    (hal : (enc.withKv H).allocateSlots p.sched.caches r numNew 0 none cfg.scheduler.numLookaheadTokens 0 =
      (m, none)) :
    ∃ s', m.1 = .ok s' ∧ s'.Inv H ∧ Effect cfg H p (p.setCaches m) s s' := by
  have hsafe := h.safe_offered hwin hg ho
  rcases Kv.allocate none enc h.ok h.inv inj ho.ne_zero (.inl ⟨rfl, rfl⟩) hsafe with
    ⟨s', he, hinv, hsk⟩ | ⟨s', new, he, -⟩
  · rw [he] at hal
    cases hal
    exact ⟨s', rfl, hinv, .refused (ho.requestId ▸ ho.fresh) hsk rfl rfl (carried_setCaches p _)⟩
  · rw [he] at hal
    cases hal

/-- A victim makes room. -/
lemma Kv.vacate {rid victim : ReqId} {idx idx' : Nat} (h : p.Kv H s₀ s) (hat : At idx p)
    (hc : Current cfg idx rid p) (hv : Vacates (enc.withKv H) cfg p idx victim q idx') :
    ∃ s', q.sched.caches.1 = .ok s' ∧ s'.Inv H ∧ Effect cfg H p q s s' := by
  obtain ⟨r, hvac⟩ := hv.vacated hat
  obtain ⟨s', hok, hinv, hfr⟩ := h.inv.free r.requestId
  refine ⟨s', ?_, hinv, .freed hvac.mem (hv.batch hat hc) (hvac.requestId ▸ hfr) hvac.running hvac.scheduled
    fun x r' hx => ?_⟩
  · rcases hvac.caches with he | he
    · rw [he]
      exact withKv_freeBlocks (H := H) (m := (enc.withKv H).freeEncoder p.sched.caches r) enc h.ok hok
    · rw [he]
      exact withKv_freeBlocks (H := H) enc h.ok hok
  · rcases hvac.requests x r' hx with ⟨-, hx⟩ | ⟨rfl, r₀, hr₀, rfl⟩
    · exact ⟨r', hx, .refl r', fun _ => (Int.add_zero _).symm⟩
    · refine ⟨r₀, hr₀, ⟨⟨⟨rfl, rfl, rfl, rfl, rfl, rfl, rfl, rfl⟩, .inl rfl⟩, rfl, rfl, rfl⟩, fun hrun => ?_⟩
      exact absurd rfl ((hvac.running x).1 hrun).2

/-- A running request is given tokens. -/
lemma Kv.run {rid : ReqId} {r : Request} {numNew budget : Int} {m : KvState η ε} {blocks : KvBlocks}
    {inputs : List Nat} (henc : enc.EncoderLowers) (inj : H.Injective) (hwin : s₀.Windowed)
    (hmax : s₀.maxModelLen = cfg.scheduler.maxModelLen) (hg : p.Grants cfg done) (h : p.Kv H s₀ s)
    (ho : Offered (enc.withKv H) cfg p rid r numNew)
    (hal : (enc.withKv H).allocateSlots p.sched.caches r numNew 0 none cfg.scheduler.numLookaheadTokens 0 =
      (m, some blocks)) :
    ∃ s', (p.runRequest (enc.withKv H) m rid r numNew blocks inputs budget).sched.caches.1 = .ok s' ∧ s'.Inv H ∧
      Effect cfg H p (p.runRequest (enc.withKv H) m rid r numNew blocks inputs budget) s s' := by
  have hlimit : s.maxModelLen = cfg.scheduler.maxModelLen := h.shape.maxModelLen.trans hmax
  have hsane := hg.sane rid r ho.request
  have hsafe := h.safe_offered hwin hg ho
  obtain ⟨b1, b2, b3, b4⟩ := ho.bounds (Caches.withKv_laws henc H) hsane
  rcases Kv.allocate none enc h.ok h.inv inj ho.ne_zero (.inl ⟨rfl, rfl⟩) hsafe with
    ⟨s', he, -⟩ | ⟨s', new, he, hinv, hgr, hun⟩
  · rw [he] at hal
    cases hal
  rw [he] at hal
  cases hal
  have hfr := runRequest_frame (enc.withKv H) p (.ok s', p.sched.caches.2) rid r numNew blocks inputs budget
  obtain ⟨h₁, h₂, -, -, h₅⟩ := hfr
  have hid := ho.requestId
  subst hid
  have hgrant : Grant H p s s' r 0 s.emptyBlocks numNew cfg.scheduler.numLookaheadTokens := by
    have hspec : r.numTokensWithSpec = r.numTokens + r.specTokenIds.length := rfl
    refine ⟨ho.request, ho.fresh, .inl ⟨ho.mem, rfl, rfl⟩, b1, ?_, fun hs => ?_, hgr, hun⟩
    · push_cast
      omega
    · rw [hs, List.length_nil] at hspec
      push_cast
      omega
  refine ⟨s', runRequest_kv .., hinv, .granted hgrant (fun x => ?_) h₂ fun x r' hx => ?_⟩
  · rw [h₁]
    exact ⟨.inr, fun hx => hx.elim (fun he => he ▸ ho.mem) id⟩
  · rw [h₅] at hx
    split at hx
    · obtain ⟨r₀, hr₀, rfl⟩ := Option.map_eq_some_iff.1 hx
      exact ⟨r₀, hr₀, ⟨⟨⟨rfl, rfl, rfl, rfl, rfl, rfl, rfl, rfl⟩, .inr rfl⟩, rfl, rfl, rfl⟩, fun _ => by simp⟩
    · exact ⟨r', hx, .refl r', fun _ => by simp⟩

/-- The grammar of a waiting request is compiled. -/
lemma effect_ready {rid : ReqId} {r : Request} (hr : p.sched.requests.get? rid = some r) :
    Effect cfg H p { p with sched := { p.sched with requests := p.sched.requests.set rid r.leaveFsm } } s s := by
  refine .quiet rfl rfl rfl fun x r' hx => ?_
  dsimp only at hx
  rw [Dict.get?_set] at hx
  split at hx
  · next he =>
    cases hx
    obtain ⟨hcar, hcomp⟩ := carries_leaveFsm r
    exact ⟨r, he ▸ hr, hcar, fun _ => by rw [hcomp, Int.add_zero]⟩
  · exact ⟨r', hx, .refl r', fun _ => (Int.add_zero _).symm⟩

/-- A waiting request is refused. -/
lemma Kv.decline {rid : ReqId} {r : Request} {blocks : Option KvBlocks} {cached lookahead : Nat}
    {computed numNew budget encoderTokens : Int} {inputs : List Nat} {m : KvState η ε}
    (henc : enc.EncoderLowers) (inj : H.Injective) (hwin : s₀.Windowed) (hg : p.Grants cfg done)
    (h : p.Kv H s₀ s)
    (ha : Asked (enc.withKv H) cfg p q rid r blocks cached lookahead computed numNew inputs budget)
    (hal : (enc.withKv H).allocateSlots q.sched.caches r numNew cached blocks lookahead encoderTokens =
      (m, none)) :
    ∃ s', m.1 = .ok s' ∧ s'.Inv H ∧ Effect cfg H p (q.setCaches m) s s' := by
  obtain ⟨h0, hcomp, b1, b2, b3⟩ := ha.bounds (Caches.withKv_laws henc H) (hg.sane rid r ha.request)
  have hne : numNew ≠ 0 := by omega
  obtain ⟨cols, rfl, hok, hl, hun⟩ := h.asked ha h0
  obtain ⟨⟨m₀, rfl⟩, -, -⟩ := ha.leaves
  have hm : (p.setCaches m₀).sched.caches.1 = .ok s := (tryEncoder_kv ha.encoder).trans h.ok
  rcases Kv.allocate (some cols) enc hm h.inv inj hne (.inr ⟨hun, hok⟩) (h.safe_zero hwin h0) with
    ⟨s', he, hinv, hsk⟩ | ⟨s', new, he, -⟩
  · rw [he] at hal
    cases hal
    exact ⟨s', rfl, hinv, .refused (ha.requestId ▸ ha.fresh) hsk rfl rfl (carried_setCaches p _)⟩
  · rw [he] at hal
    cases hal

/-- A waiting request is admitted. -/
lemma Kv.enter {rid : ReqId} {r : Request} {blocks : Option KvBlocks} {cached lookahead : Nat}
    {computed numNew budget encoderTokens : Int} {inputs : List Nat} {m : KvState η ε} {b : KvBlocks}
    (henc : enc.EncoderLowers) (inj : H.Injective) (hwin : s₀.Windowed)
    (hmax : s₀.maxModelLen = cfg.scheduler.maxModelLen) (hg : p.Grants cfg done) (h : p.Kv H s₀ s)
    (ha : Asked (enc.withKv H) cfg p q rid r blocks cached lookahead computed numNew inputs budget)
    (hal : (enc.withKv H).allocateSlots q.sched.caches r numNew cached blocks lookahead encoderTokens =
      (m, some b)) {p' : Pass (KvState η ε) KvBlocks}
    (hp' : p' = ((q.setCaches m).admitRequest (enc.withKv H) rid r computed numNew).scheduleEncoder (enc.withKv H) r
      inputs budget) :
    ∃ s', p'.sched.caches.1 = .ok s' ∧ s'.Inv H ∧ Effect cfg H p p' s s' := by
  subst hp'
  have hlimit : s.maxModelLen = cfg.scheduler.maxModelLen := h.shape.maxModelLen.trans hmax
  have hsane := hg.sane rid r ha.request
  obtain ⟨h0, hcomp, b1, b2, b3⟩ := ha.bounds (Caches.withKv_laws henc H) hsane
  have hne : numNew ≠ 0 := by omega
  obtain ⟨cols, rfl, hok, hl, hun⟩ := h.asked ha h0
  obtain ⟨⟨m₀, rfl⟩, -, -⟩ := ha.leaves
  have hm : (p.setCaches m₀).sched.caches.1 = .ok s := (tryEncoder_kv ha.encoder).trans h.ok
  rcases Kv.allocate (some cols) enc hm h.inv inj hne (.inr ⟨hun, hok⟩) (h.safe_zero hwin h0) with
    ⟨s', he, -⟩ | ⟨s', new, he, hinv, hgr, hfar⟩
  · rw [he] at hal
    cases hal
  rw [he] at hal
  cases hal
  have hid := ha.requestId
  subst hid
  have hgrant : Grant H p s s' r cached cols numNew lookahead := by
    have htok := hsane.tokens
    refine ⟨ha.request, ha.fresh, .inr ⟨ha.idle, h0, hok⟩, b1, ?_, fun _ => ?_, hgr, hfar⟩
    · omega
    · omega
  refine ⟨s', (scheduleEncoder_kv ..).1, hinv, .granted hgrant (fun x => ?_) ?_ fun x r' hx => ?_⟩
  · rw [(scheduleEncoder_running ..).1]
    exact List.mem_append.trans (or_comm.trans (or_congr_left List.mem_singleton))
  · rw [(scheduleEncoder_running ..).2]
    rfl
  · rw [(scheduleEncoder_kv ..).2] at hx
    dsimp only [Pass.admitRequest, Pass.setCaches] at hx
    rw [Dict.get?_set] at hx
    split at hx
    · next he =>
      cases hx
      refine ⟨r, he ▸ ha.request, ⟨⟨⟨rfl, rfl, rfl, rfl, rfl, rfl, rfl, rfl⟩, .inl rfl⟩, rfl, rfl, rfl⟩, fun _ => ?_⟩
      dsimp only
      rw [if_pos he]
      omega
    · next hne =>
      refine ⟨r', hx, .refl r', fun _ => ?_⟩
      dsimp only
      rw [if_neg hne, Int.add_zero]

/-- What a move does to the manager, and that it does not raise. -/
lemma Move.effect (henc : enc.EncoderLowers) (inj : H.Injective) (hwin : s₀.Windowed)
    (hmax : s₀.maxModelLen = cfg.scheduler.maxModelLen) (hmove : Move (enc.withKv H) cfg p q)
    (hg : p.Grants cfg done) (h : p.Kv H s₀ s) :
    ∃ s', q.sched.caches.1 = .ok s' ∧ s'.Inv H ∧ Effect cfg H p q s s' := by
  cases hmove with
  | look hr => exact ⟨s, h.ok, h.inv, .quiet rfl rfl rfl (carried_setCaches p _)⟩
  | refuse ho hal => exact h.refuse inj hwin hg ho hal
  | vacate hat hc hv => exact h.vacate hat hc hv
  | run ho hal => exact h.run henc inj hwin hmax hg ho hal
  | ready hr => exact ⟨s, h.ok, h.inv, effect_ready hr⟩
  | decline ha hal => exact h.decline henc inj hwin hg ha hal
  | enter ha hal => exact h.enter henc inj hwin hmax hg ha hal rfl

omit [DecidableEq η] in
/-- Requests without drafts get none. -/
lemma Plain.carried {gain : ReqId → Int} (h : Plain s₀ p.sched.requests) (hc : Carried p q gain) :
    Plain s₀ q.sched.requests := by
  refine h.imp_right fun hnone x r' hx => ?_
  obtain ⟨r, hr, hcar, -⟩ := hc x r' hx
  exact hcar.noDrafts (hnone x r hr)

/-- A move keeps what the manager keeps in a pass. -/
lemma Effect.kv (heff : Effect cfg H p q s s') (hok : q.sched.caches.1 = .ok s') (hinv : s'.Inv H) (h : p.Kv H s₀ s) :
    q.Kv H s₀ s' := by
  cases heff with
  | quiet hs hrun hnum hcar =>
    subst hs
    refine ⟨hok, hinv, h.shape, fun x hx => h.unknown x (hrun ▸ hx), fun x hx r' hr' => ?_, h.plain.carried hcar⟩
    obtain ⟨r, hr, -, hcomp⟩ := hcar x r' hr'
    rw [hcomp hx, hnum, Int.add_zero]
    exact h.backed x (hrun ▸ hx) r hr
  | refused hfresh hsk hrun hnum hcar =>
    refine ⟨hok, hinv, h.shape.trans hsk.shape, fun x hx => (h.unknown x (hrun ▸ hx)).skipped hsk, fun x hx r' hr' => ?_,
      h.plain.carried hcar⟩
    obtain ⟨r, hr, -, hcomp⟩ := hcar x r' hr'
    rw [hcomp hx, hnum, Int.add_zero]
    exact (h.backed x (hrun ▸ hx) r hr).skipped hsk
  | @freed victim hmem hbatch hfr hrun hnum hcar =>
    refine ⟨hok, hinv, h.shape.trans hfr.shape, fun x hx => ?_, fun x hx r' hr' => ?_, h.plain.carried hcar⟩
    · by_cases hv : x = victim
      · rw [hv]
        exact hfr.unknown
      · exact (h.unknown x fun hm => hx ((hrun x).2 ⟨hm, hv⟩)).untouched (hfr.untouched hv)
    · obtain ⟨hm, hv⟩ := (hrun x).1 hx
      obtain ⟨r, hr, -, hcomp⟩ := hcar x r' hr'
      rw [hcomp hx, Dict.getD_eq, hnum x hv, Int.add_zero]
      exact (h.backed x hm r hr).untouched (hfr.untouched hv) hfr.shape
  | @granted r len cols numNew lookahead hg hrun hnum hcar =>
    obtain ⟨hgr⟩ := hg.granted
    refine ⟨hok, hinv, h.shape.trans hgr.shape, fun x hx => ?_, fun x hx r' hr' => ?_, h.plain.carried hcar⟩
    · rw [hrun, not_or] at hx
      exact (h.unknown x hx.2).untouched (hg.untouched x hx.1)
    · obtain ⟨r₁, hr₁, -, hcomp⟩ := hcar x r' hr'
      rw [hcomp hx, hnum, Dict.getD_eq, Dict.get?_set]
      dsimp only
      by_cases he : x = r.requestId
      · subst he
        rw [hg.request] at hr₁
        cases hr₁
        rw [if_pos rfl, if_pos rfl, Option.getD_some]
        refine hgr.backed h.inv.shaped (by have := hg.limit; omega) ?_
        refine h.plain.imp (fun hfull m hm => ?_) fun hnone => ?_
        · obtain ⟨m₀, hm₀, hsame⟩ := exists_left_of_forall₂ h.shape.groups hm
          exact hsame.spec.trans (hfull m₀ hm₀)
        · have := hg.plain (hnone _ r hg.request)
          omega
      · rw [if_neg he, if_neg he, Int.add_zero]
        exact (h.backed x (((hrun x).1 hx).resolve_left he) r₁ hr₁).untouched (hg.untouched x he) hgr.shape

end Pass

end Gambit.Sched
