import Gambit.Lib.Loop
import Gambit.Layout.Configs

/-!
# The estimate of the maximal model length

When the KV cache of one request of the maximal length does not fit, `check_enough_kv_cache_memory` names the length
that would. The memory grows with the length, so the binary search of `estimate_max_model_len` ends at the greatest
length that fits, and the check accepts exactly the lengths up to it.
-/

namespace Gambit.Layout
open Gambit.Lib

variable {cfg : LayoutConfig} {specs : Dict LayerName KVCacheSpec} {available : Int}

/-- The configuration with another maximal length. -/
def LayoutConfig.withLen (cfg : LayoutConfig) (l : Nat) : LayoutConfig := { cfg with maxModelLen := l }

/-- A computation that raises for no argument or for all, and whose value grows with the argument. -/
def Grows (f : Nat → Except LayoutError Nat) : Prop :=
  ∀ l a, f l = .ok a → ∀ l', ∃ a', f l' = .ok a' ∧ (l ≤ l' → a ≤ a')

namespace Grows

variable {f g : Nat → Except LayoutError Nat}

lemma const (x : Except LayoutError Nat) : Grows fun _ => x := by
  intro l a h l'
  exact ⟨a, h, fun _ => le_refl a⟩

lemma of_monotone {g : Nat → Nat} (hg : Monotone g) : Grows fun l => .ok (g l) := by
  intro l a h l'
  cases h
  exact ⟨g l', rfl, fun hl => hg hl⟩

lemma cdiv {g : Nat → Nat} (hg : Monotone g) (b : Nat) : Grows fun l => cdiv (g l) b := by
  intro l a h l'
  unfold Layout.cdiv at h
  split at h
  · cases h
  · next hb =>
    cases h
    refine ⟨(g l' + b - 1) / b, if_neg hb, fun hl => Nat.div_le_div_right ?_⟩
    have := hg hl
    omega

/-- One computation after another. -/
lemma bind (hf : Grows f) (hg : Grows g) : Grows fun l => f l >>= g := by
  intro l b h l'
  obtain ⟨a, ha, hb⟩ := bind_eq_ok.1 h
  obtain ⟨a', ha', hle⟩ := hf l a ha l'
  obtain ⟨b', hb', hle'⟩ := hg a b hb a'
  exact ⟨b', bind_eq_ok.2 ⟨a', ha', hb'⟩, fun hl => hle' (hle hl)⟩

/-- A computation behind one that does not depend on the argument. -/
lemma after {α : Type} {f : α → Nat → Except LayoutError Nat} (x : Except LayoutError α) (hf : ∀ y, Grows (f y)) :
    Grows fun l => x >>= fun y => f y l := by
  cases x with
  | error e => exact const (.error e)
  | ok y => exact hf y

lemma congr (hf : Grows f) (h : ∀ l, g l = f l) : Grows g := funext h ▸ hf

end Grows

lemma localModelLen_grows : Grows fun l => KVCacheSpec.localModelLen (cfg.withLen l) := by
  by_cases h : 1 < cfg.decodeContextParallelSize
  · exact (Grows.cdiv monotone_id _).congr fun l => if_pos h
  · exact (Grows.of_monotone monotone_id).congr fun l => if_neg h

lemma maxBlocks_grows (s : KVCacheSpec) : Grows fun l => s.maxBlocks (cfg.withLen l) := by
  cases s with
  | fullAttention a w c => exact localModelLen_grows.bind (Grows.cdiv monotone_id _)
  | mlaAttention a w c d => exact localModelLen_grows.bind (Grows.cdiv monotone_id _)
  | chunkedLocalAttention a c =>
    exact Grows.cdiv (g := fun l => min (c + cfg.maxNumBatchedTokens) l) (fun l l' hl => min_le_min_left _ hl) a.blockSize
  | slidingWindow a w =>
    apply Grows.after (require (cfg.decodeContextParallelSize = 1) "DCP not support sliding window.")
    intro _
    apply Grows.bind (Grows.cdiv (g := fun l => min (w + cfg.maxNumBatchedTokens - 1) l)
      (fun l l' hl => min_le_min_left _ hl) a.blockSize)
    exact Grows.of_monotone fun n n' hn => Nat.succ_le_succ hn
  | mamba m => exact Grows.cdiv monotone_id _
  | encoderOnlyAttention a => exact Grows.const _
  | crossAttention a => exact Grows.const (Layout.cdiv cfg.maxNumEncoderInputTokens a.blockSize)

lemma specBytes_grows (s : KVCacheSpec) : Grows fun l => s.maxMemoryUsageBytes (cfg.withLen l) := by
  apply (maxBlocks_grows s).bind
  intro n a h n'
  obtain ⟨p, hp, ha⟩ := bind_eq_ok.1 h
  cases ha
  refine ⟨n' * p, bind_eq_ok.2 ⟨p, hp, rfl⟩, ?_⟩
  intro hn
  exact Nat.mul_le_mul_right p hn

/-- A sum over a list grows if each of its terms does. -/
lemma sum_grows {α : Type} {f : Nat → α → Except LayoutError Nat} (hf : ∀ x, Grows fun l => f l x) (xs : List α) :
    Grows fun l => do return (← xs.mapM (f l)).sum := by
  intro l a h l'
  obtain ⟨as, has, ha⟩ := bind_eq_ok.1 h
  cases ha
  suffices ∃ as', xs.mapM (f l') = .ok as' ∧ (l ≤ l' → as.sum ≤ as'.sum) by
    obtain ⟨as', has', hle⟩ := this
    exact ⟨as'.sum, bind_eq_ok.2 ⟨as', has', rfl⟩, hle⟩
  rw [mapM_ok_iff] at has
  induction has with
  | nil => exact ⟨[], rfl, fun _ => le_refl _⟩
  | @cons x a xs as hx _ ih =>
    obtain ⟨as', has', hle'⟩ := ih (bind_eq_ok.2 ⟨as, mapM_ok_iff.2 ‹_›, rfl⟩)
    obtain ⟨a', ha', hle⟩ := hf x l a hx l'
    refine ⟨a' :: as', mapM_ok_iff.2 (.cons ha' (mapM_ok_iff.1 has')), ?_⟩
    intro hl
    rw [List.sum_cons, List.sum_cons]
    exact Nat.add_le_add (hle hl) (hle' hl)

/-- The memory of all layers. -/
lemma maxMemoryUsageBytes_grows (specs : Dict LayerName KVCacheSpec) :
    Grows fun l => maxMemoryUsageBytes (cfg.withLen l) specs := sum_grows specBytes_grows specs.values

/-- What the search knows of a test that holds up to some number: the greatest number found, and that nothing beyond
`right` passes. At the start the found number is the first of the interval. -/
structure Searched (p : Nat → Prop) (last left right result : Nat) : Prop where
  pos : 1 ≤ left
  le : left ≤ right + 1
  passes : p result
  found : left = result + 1 ∨ left = 1 ∧ result = 1
  beyond : ∀ l, right < l → l ≤ last → ¬ p l

variable {p : Nat → Prop} {last left right result : Nat}

/-- At the end of the search the result is the greatest number. -/
lemma Searched.greatest (h : Searched p last left right result) (hp : ∀ l l', l ≤ l' → p l' → p l)
    (hend : right < left) {l : Nat} (h1 : 1 ≤ l) (hl : l ≤ last) : p l ↔ l ≤ result := by
  constructor
  · intro hpl
    by_contra hlt
    rcases h.found with hleft | ⟨hleft, hresult⟩
    · exact h.beyond l (by omega) hl hpl
    · -- the first number passes, so the interval cannot be empty at once
      exact h.beyond 1 (by omega) (h1.trans hl) (hp 1 l h1 hpl)
  · intro hle
    exact hp l result hle h.passes

/-- The middle passes: the search goes on above it. -/
lemma Searched.above {mid : Nat} (h : Searched p last left right result) (hr : mid ≤ right) (hpm : p mid) :
    Searched p last (mid + 1) right mid where
  pos := Nat.succ_le_succ (Nat.zero_le mid)
  le := Nat.succ_le_succ hr
  passes := hpm
  found := .inl rfl
  beyond := h.beyond

/-- The middle does not pass: the search goes on below it. -/
lemma Searched.below {mid : Nat} (h : Searched p last left right result) (hp : ∀ l l', l ≤ l' → p l' → p l)
    (hm : left ≤ mid) (hpm : ¬ p mid) : Searched p last left (mid - 1) result where
  pos := h.pos
  le := by
    have := h.pos
    omega
  passes := h.passes
  found := h.found
  beyond := by
    intro l hl _ hpl
    exact hpm (hp mid l (by omega) hpl)

/-- The binary search ends at the greatest number that passes. -/
lemma estimateLoop_spec {fits : Nat → Except LayoutError Bool} [DecidablePred p]
    (hfits : ∀ l, fits l = .ok (decide (p l))) (hp : ∀ l l', l ≤ l' → p l' → p l) {fuel : Nat}
    (hfuel : right < left + fuel) (h : Searched p last left right result) :
    ∃ m, estimateLoop fits fuel left right result = .ok m ∧ ∀ l, 1 ≤ l → l ≤ last → (p l ↔ l ≤ m) := by
  induction fuel generalizing left right result with
  | zero => exact ⟨result, rfl, fun l h1 hl => h.greatest hp hfuel h1 hl⟩
  | succ fuel ih =>
    unfold estimateLoop
    by_cases hend : right < left
    · rw [if_pos hend]
      exact ⟨result, rfl, fun l h1 hl => h.greatest hp hend h1 hl⟩
    · have hm : left ≤ (left + right) / 2 := by omega
      have hr : (left + right) / 2 ≤ right := by omega
      rw [if_neg hend]
      simp only [hfits]
      by_cases hpm : p ((left + right) / 2)
      · obtain ⟨m, hloop, hgreatest⟩ := ih (by omega) (h.above hr hpm)
        refine ⟨m, ?_, hgreatest⟩
        rw [← hloop, decide_eq_true hpm]
        rfl
      · have hpos := h.pos
        obtain ⟨m, hloop, hgreatest⟩ := ih (by omega) (h.below hp hm hpm)
        refine ⟨m, ?_, hgreatest⟩
        rw [← hloop, decide_eq_false hpm]
        rfl

/-- The lengths for which the memory is enough. -/
def Enough (cfg : LayoutConfig) (specs : Dict LayerName KVCacheSpec) (available : Int) (l : Nat) : Prop :=
  ∃ needed, maxMemoryUsageBytes (cfg.withLen l) specs = .ok needed ∧ (needed : Int) ≤ available

lemma enough_of_le {l l' : Nat} (hle : l ≤ l') (h : Enough cfg specs available l') : Enough cfg specs available l := by
  obtain ⟨needed', h', hfits⟩ := h
  obtain ⟨needed, h, -⟩ := maxMemoryUsageBytes_grows specs l' needed' h' l
  obtain ⟨_, h'', hgrow⟩ := maxMemoryUsageBytes_grows specs l needed h l'
  cases h'.symm.trans h''
  exact ⟨needed, h, le_trans (Int.ofNat_le.2 (hgrow hle)) hfits⟩

/-- The test of the search, where the memory can be computed. -/
lemma fitsInMemory_eq (available : Int) {needed : Nat} (h : maxMemoryUsageBytes cfg specs = .ok needed) (l : Nat) :
    ∃ b, fitsInMemory cfg specs available l = .ok b ∧ (b = true ↔ Enough cfg specs available l) := by
  obtain ⟨needed', h', -⟩ := maxMemoryUsageBytes_grows specs cfg.maxModelLen needed h l
  refine ⟨decide ((needed' : Int) ≤ available), bind_eq_ok.2 ⟨needed', h', rfl⟩, ?_⟩
  rw [decide_eq_true_eq]
  constructor
  · intro hfits
    exact ⟨needed', h', hfits⟩
  · rintro ⟨needed'', h'', hfits⟩
    cases h'.symm.trans h''
    exact hfits

/-- Where the memory is not enough for the maximal length, the estimate is the greatest length for which it is. -/
lemma estimateMaxModelLen_spec {needed : Nat} (h : maxMemoryUsageBytes cfg specs = .ok needed) (hlt : available < needed) :
    ∃ m, estimateMaxModelLen cfg specs available = .ok m ∧ ∀ l, 1 ≤ l → (Enough cfg specs available l ↔ l ≤ m) := by
  classical
  have hmax : ¬ Enough cfg specs available cfg.maxModelLen := by
    rintro ⟨needed', h', hfits⟩
    cases h.symm.trans h'
    exact not_lt.2 hfits hlt
  have hfits : ∀ l, fitsInMemory cfg specs available l = .ok (decide (Enough cfg specs available l)) := by
    intro l
    obtain ⟨b, hb, hiff⟩ := fitsInMemory_eq available h l
    rw [hb, ← Bool.decide_congr hiff, Bool.decide_eq_true]
  unfold estimateMaxModelLen
  rw [hfits]
  by_cases h1 : Enough cfg specs available 1
  · have hpos : 1 ≤ cfg.maxModelLen := by
      by_contra hzero
      exact hmax (enough_of_le (by omega) h1)
    have hstart : Searched (Enough cfg specs available) cfg.maxModelLen 1 cfg.maxModelLen 1 :=
      ⟨le_refl 1, by omega, h1, .inr ⟨rfl, rfl⟩, fun l hl hle => absurd hle (not_le.2 hl)⟩
    have hfuel : cfg.maxModelLen < 1 + cfg.maxModelLen := by omega
    obtain ⟨m, hm, hgreatest⟩ := estimateLoop_spec hfits (fun _ _ => enough_of_le) hfuel hstart
    rw [decide_eq_true h1]
    refine ⟨m, hm, ?_⟩
    intro l hl
    by_cases hle : l ≤ cfg.maxModelLen
    · exact hgreatest l hl hle
    · have hmle := (hgreatest cfg.maxModelLen hpos (le_refl _)).not.1 hmax
      constructor
      · intro hl
        exact absurd (enough_of_le (by omega) hl) hmax
      · intro hl
        omega
  · rw [decide_eq_false h1]
    refine ⟨0, rfl, ?_⟩
    intro l hl
    constructor
    · intro h
      exact absurd (enough_of_le hl h) h1
    · intro h
      omega

/-- The check for a length, with memory to check. -/
lemma check_eq_ok (hspecs : specs.values ≠ []) (hpos : 0 < available) {l : Nat} :
    checkEnoughKvCacheMemory (cfg.withLen l) specs available = .ok () ↔ Enough cfg specs available l := by
  unfold checkEnoughKvCacheMemory
  rw [if_neg hspecs, if_neg (not_le.2 hpos), bind_eq_ok]
  apply exists_congr
  intro needed
  apply and_congr_right
  intro _
  split
  · next hlt =>
    constructor
    · intro h
      obtain ⟨_, _, h⟩ := bind_eq_ok.1 h
      cases h
    · intro h
      exact absurd hlt (not_lt.2 h)
  · next hlt => exact ⟨fun _ => not_lt.1 hlt, fun _ => rfl⟩

/-- The length that the error names is exact: the check accepts the lengths up to it and no others. -/
theorem estimate_exact {needed : Nat} (hspecs : specs.values ≠ []) (hpos : 0 < available)
    (hneeded : maxMemoryUsageBytes cfg specs = .ok needed) (hlt : available < needed) :
    ∃ m, checkEnoughKvCacheMemory cfg specs available = .error (.memory cfg.maxModelLen needed available m) ∧
      ∀ l, 1 ≤ l → (checkEnoughKvCacheMemory (cfg.withLen l) specs available = .ok () ↔ l ≤ m) := by
  obtain ⟨m, hm, hgreatest⟩ := estimateMaxModelLen_spec hneeded hlt
  refine ⟨m, ?_, ?_⟩
  · unfold checkEnoughKvCacheMemory
    rw [if_neg hspecs, if_neg (not_le.2 hpos), hneeded]
    change (if available < needed then _ else _) = _
    rw [if_pos hlt, hm]
    rfl
  · intro l hl
    rw [check_eq_ok hspecs hpos]
    exact hgreatest l hl

theorem estimate_exact_twoLayers : ∃ m,
    checkEnoughKvCacheMemory { maxModelLen := 8, maxNumBatchedTokens := 4 }
      ⟨[(['f'], .fullAttention ⟨2, 1, 1, ⟨"half", 2⟩⟩ none none), (['s'], .slidingWindow ⟨2, 1, 1, ⟨"half", 2⟩⟩ 2)],
        by decide⟩ 50 = .error (.memory 8 64 50 m) ∧
    ∀ l, 1 ≤ l → (checkEnoughKvCacheMemory { maxModelLen := l, maxNumBatchedTokens := 4 }
      ⟨[(['f'], .fullAttention ⟨2, 1, 1, ⟨"half", 2⟩⟩ none none), (['s'], .slidingWindow ⟨2, 1, 1, ⟨"half", 2⟩⟩ 2)],
        by decide⟩ 50 = .ok () ↔ l ≤ m) :=
  estimate_exact (by decide) (by decide) rfl (by decide)

end Gambit.Layout
