import Gambit.Layout.Sound

/-!
# When the layout is accepted

For a model whose layers are full, sliding-window and chunked-local attention over blocks of one shape, the memory
check is the only one that can fail: once every worker has passed it, the specs can be merged and grouped, every worker
gets at least one block, and no size is divided by zero.

A worker without layers is left out, and so are layers of different shapes: there the number of blocks of a worker may
be zero, and the shrinking raises.
-/

namespace Gambit.Layout
open Gambit.Lib

/-- A layer of a hybrid model: its blocks have the shape `a`. -/
inductive HybridSpec (a : AttentionSpec) : KVCacheSpec → Prop where
  | full : HybridSpec a (.fullAttention a none none)
  | sliding (w : Nat) : HybridSpec a (.slidingWindow a w)
  | chunked (c : Nat) : HybridSpec a (.chunkedLocalAttention a c)

/-- A hybrid model on its workers, and a configuration for it. -/
structure HybridModel (cfg : LayoutConfig) (a : AttentionSpec) (workers : List (Dict LayerName KVCacheSpec × Int)) :
    Prop where
  page : 0 < a.pageSizeBytes
  len : 0 < cfg.maxModelLen
  budget : 0 < cfg.maxNumBatchedTokens
  override : ∀ n, cfg.numGpuBlocksOverride = some n → 0 < n
  enabled : cfg.disableHybridKvCacheManager = false
  stages : workers ≠ []
  layers : ∀ w ∈ workers, w.1.values ≠ []
  specs : ∀ w ∈ workers, ∀ s ∈ w.1.values, HybridSpec a s
  /-- A layer on two workers has the same spec on both. -/
  same : ∀ w ∈ workers, ∀ w' ∈ workers, ∀ e ∈ w.1.entries, ∀ e' ∈ w'.1.entries, e.1 = e'.1 → e.2 = e'.2

variable {cfg : LayoutConfig} {a : AttentionSpec} {specs merged : Dict LayerName KVCacheSpec} {s : KVCacheSpec}
  {groups : List KVCacheGroupSpec} {available : Int} {c c' : KVCacheConfig}

lemma exists_bind_eq_ok {α β ε : Type} {x : Except ε α} {f : α → Except ε β} {y : α} (hx : x = .ok y)
    (hf : ∃ z, f y = .ok z) : ∃ z, x >>= f = .ok z := by
  obtain ⟨z, hz⟩ := hf
  exact ⟨z, bind_eq_ok.2 ⟨y, hx, hz⟩⟩

namespace HybridSpec

lemma pageSizeBytes_eq (h : HybridSpec a s) : s.pageSizeBytes = .ok a.pageSizeBytes := by
  cases h <;> rfl

/-- Layers of one type have one spec. -/
lemma eq_of_sameType {s' : KVCacheSpec} (h : HybridSpec a s) (h' : HybridSpec a s') (hs : s.sameType s') : s' = s := by
  cases h with
  | full =>
    cases h' with
    | full => rfl
    | sliding w => cases hs
    | chunked c => cases hs
  | sliding w =>
    cases h' with
    | full => cases hs
    | sliding w' => rw [of_decide_eq_true hs]
    | chunked c => cases hs
  | chunked c =>
    cases h' with
    | full => cases hs
    | sliding w => cases hs
    | chunked c' => rw [of_decide_eq_true hs]

end HybridSpec

lemma cdiv_ok {m b n : Nat} (h : cdiv m b = .ok n) : b ≠ 0 ∧ n = (m + b - 1) / b := by
  unfold cdiv at h
  split at h
  · cases h
  · next hb =>
    cases h
    exact ⟨hb, rfl⟩

lemma cdiv_eq_ok {m b : Nat} (hb : b ≠ 0) : cdiv m b = .ok ((m + b - 1) / b) := if_neg hb

lemma cdiv_pos {m b n : Nat} (hm : 0 < m) (h : cdiv m b = .ok n) : 0 < n := by
  obtain ⟨hb, rfl⟩ := cdiv_ok h
  apply Nat.div_pos _ (Nat.pos_of_ne_zero hb)
  omega

lemma localModelLen_pos {n : Nat} (hl : 0 < cfg.maxModelLen) (h : KVCacheSpec.localModelLen cfg = .ok n) : 0 < n := by
  unfold KVCacheSpec.localModelLen at h
  split at h
  · exact cdiv_pos hl h
  · cases h
    exact hl

/-- Every layer needs a block. -/
lemma maxBlocks_pos {n : Nat} (hs : HybridSpec a s) (hl : 0 < cfg.maxModelLen) (hb : 0 < cfg.maxNumBatchedTokens)
    (h : s.maxBlocks cfg = .ok n) : 0 < n := by
  cases hs with
  | full =>
    obtain ⟨m, hm, h⟩ := bind_eq_ok.1 h
    exact cdiv_pos (localModelLen_pos hl hm) h
  | sliding w =>
    obtain ⟨_, -, h⟩ := bind_eq_ok.1 h
    obtain ⟨m, -, h⟩ := bind_eq_ok.1 h
    cases h
    exact Nat.succ_pos m
  | chunked c => exact cdiv_pos (lt_min (by omega) hl) h

/-- Every layer needs a page. -/
lemma pageSizeBytes_le_usage {n : Nat} (hs : HybridSpec a s) (hl : 0 < cfg.maxModelLen) (hb : 0 < cfg.maxNumBatchedTokens)
    (h : s.maxMemoryUsageBytes cfg = .ok n) : a.pageSizeBytes ≤ n := by
  obtain ⟨m, hm, h⟩ := bind_eq_ok.1 h
  obtain ⟨p, hp, h⟩ := bind_eq_ok.1 h
  cases h
  cases hp.symm.trans hs.pageSizeBytes_eq
  exact Nat.le_mul_of_pos_left _ (maxBlocks_pos hs hl hb hm)

/-- Full attention layers without window are merged. -/
lemma mergeFull_ok {specs : List KVCacheSpec} (hall : ∀ s ∈ specs, s = .fullAttention a none none) :
    KVCacheSpec.mergeFull a specs = .ok (.fullAttention a none none) := by
  have hfull : ∀ s ∈ specs, s.isFullAttention = true := by
    intro s hs
    rw [hall s hs]
    rfl
  have hmla : ∀ s ∈ specs, s.isMla = false := by
    intro s hs
    rw [hall s hs]
    rfl
  have hspec : ∀ s ∈ specs, s.attention? = some a := by
    intro s hs
    rw [hall s hs]
    rfl
  have hwindow : specs.filterMap KVCacheSpec.fullWindow? = [] := by
    apply List.filterMap_eq_nil_iff.2
    intro s hs
    rw [hall s hs]
    rfl
  have hchunk : specs.filterMap KVCacheSpec.fullChunk? = [] := by
    apply List.filterMap_eq_nil_iff.2
    intro s hs
    rw [hall s hs]
    rfl
  unfold KVCacheSpec.mergeFull
  rw [require_true hfull, require_true hmla, hwindow, hchunk, require_true hspec]
  rfl

lemma mergeSame_ok {rest : List KVCacheSpec} (hall : ∀ s' ∈ rest, s' = s) : KVCacheSpec.mergeSame s rest = .ok s := by
  unfold KVCacheSpec.mergeSame
  rw [require_true hall]
  rfl

lemma mergeSame_ne {rest : List KVCacheSpec} (hne : ¬ ∀ s' ∈ rest, s' = s) :
    ∃ text, KVCacheSpec.mergeSame s rest = .error (.assertion text) := by
  refine ⟨"All layers in the same KV cache group must be the same.", ?_⟩
  unfold KVCacheSpec.mergeSame
  rw [require_false hne]
  rfl

/-- Equal layers are merged. -/
lemma merge_eq (hs : HybridSpec a s) {rest : List KVCacheSpec} (hall : ∀ s' ∈ rest, s' = s) :
    KVCacheSpec.merge (s :: rest) = .ok s := by
  cases hs with
  | full => exact mergeFull_ok (List.forall_mem_cons.2 ⟨rfl, hall⟩)
  | sliding w => exact mergeSame_ok hall
  | chunked c => exact mergeSame_ok hall

/-- Layers that are not equal fail an assertion of the merge. -/
lemma merge_ne (hs : HybridSpec a s) {rest : List KVCacheSpec} (hrest : ∀ s ∈ rest, HybridSpec a s)
    (hne : ¬ ∀ s' ∈ rest, s' = s) : ∃ text, KVCacheSpec.merge (s :: rest) = .error (.assertion text) := by
  cases hs with
  | full =>
    have hfull : ¬ ∀ s ∈ KVCacheSpec.fullAttention a none none :: rest, s.isFullAttention = true := by
      intro hall
      apply hne
      intro s' hs'
      have hfull := hall s' (List.mem_cons_of_mem _ hs')
      cases hrest s' hs' with
      | full => rfl
      | sliding w => cases hfull
      | chunked c => cases hfull
    refine ⟨"All attention layers in the same KV cache group must be FullAttentionSpec.", ?_⟩
    change KVCacheSpec.mergeFull a _ = _
    unfold KVCacheSpec.mergeFull
    rw [require_false hfull]
    rfl
  | sliding w => exact mergeSame_ne hne
  | chunked c => exact mergeSame_ne hne

/-- Whether the specs are uniform: whether they are all the first one. -/
lemma isKvCacheSpecUniform_eq {rest : List KVCacheSpec} (hvalues : specs.values = s :: rest)
    (hall : ∀ s ∈ specs.values, HybridSpec a s) :
    isKvCacheSpecUniform specs = .ok (decide (∀ s' ∈ rest, s' = s)) := by
  rw [hvalues, List.forall_mem_cons] at hall
  unfold isKvCacheSpecUniform
  rw [hvalues, if_neg (List.cons_ne_nil s rest)]
  by_cases heq : ∀ s' ∈ rest, s' = s
  · rw [merge_eq hall.1 heq, decide_eq_true heq]
  · obtain ⟨text, hm⟩ := merge_ne hall.1 hall.2 heq
    rw [hm, decide_eq_false heq]

/-- Layers that are not all the first one are of several types. -/
lemma isUniformType_eq {rest : List KVCacheSpec} (hvalues : specs.values = s :: rest)
    (hall : ∀ s ∈ specs.values, HybridSpec a s) (hne : ¬ ∀ s' ∈ rest, s' = s) : isUniformType specs = .ok false := by
  rw [hvalues, List.forall_mem_cons] at hall
  have htypes : (s :: rest).all s.sameType = false := by
    rw [Bool.eq_false_iff]
    intro hsame
    apply hne
    intro s' hs'
    exact hall.1.eq_of_sameType (hall.2 s' hs') (List.all_eq_true.1 hsame s' (List.mem_cons_of_mem _ hs'))
  unfold isUniformType
  split
  · rfl
  · rw [hvalues]
    cases hall.1 <;> exact congrArg Except.ok htypes

/-- The layers have one page size. -/
lemma pageSizes_eq (hne : specs.values ≠ []) (hall : ∀ s ∈ specs.values, HybridSpec a s) :
    pageSizes specs = .ok [a.pageSizeBytes] := by
  have hmap : specs.values.mapM KVCacheSpec.pageSizeBytes = .ok (specs.values.map fun _ => a.pageSizeBytes) := by
    apply mapM_ok_iff.2
    apply List.forall₂_map_right_iff.2
    apply List.forall₂_same.2
    intro s hs
    exact (hall s hs).pageSizeBytes_eq
  unfold pageSizes
  rw [hmap, List.map_const']
  apply congrArg Except.ok
  apply List.replicate_dedup
  rwa [ne_eq, List.length_eq_zero_iff]

lemma getUniformPageSize_eq (hne : specs.values ≠ []) (hall : ∀ s ∈ specs.values, HybridSpec a s) :
    getUniformPageSize specs = .ok a.pageSizeBytes :=
  bind_eq_ok.2 ⟨[a.pageSizeBytes], pageSizes_eq hne hall, rfl⟩

/-- The groups have a spec of their own each, that of their layers. -/
def LayerGroups (specs : Dict LayerName KVCacheSpec) (groups : List KVCacheGroupSpec) : Prop :=
  ∀ g ∈ groups, ∃ s ∈ specs.values, g.kvCacheSpec = .merged s

lemma mem_values_of_get? {α β : Type} [DecidableEq α] {d : Dict α β} {k : α} {v : β} (h : d.get? k = some v) :
    v ∈ d.values := List.mem_map.2 ⟨(k, v), Dict.get?_eq_some.1 h, rfl⟩

/-- Layers of one spec make a group. -/
lemma createKvCacheGroupSpec_eq (hs : HybridSpec a s) {names : List LayerName} (hne : names ≠ [])
    (hall : ∀ name ∈ names, specs.get? name = some s) :
    createKvCacheGroupSpec specs names = .ok { layerNames := names, kvCacheSpec := .merged s } := by
  have hlayers : ∀ l : List LayerName, (∀ name ∈ l, specs.get? name = some s) →
      l.filterMap specs.get? = List.replicate l.length s := by
    intro l hl
    induction l with
    | nil => rfl
    | cons name l ih =>
      rw [List.forall_mem_cons] at hl
      rw [List.filterMap_cons_some hl.1, ih hl.2, List.length_cons, List.replicate_succ]
  unfold createKvCacheGroupSpec
  rw [hlayers names hall]
  cases names with
  | nil => exact absurd rfl hne
  | cons name names =>
    rw [List.length_cons, List.replicate_succ, merge_eq hs fun s' hs' => List.eq_of_mem_replicate hs']
    rfl

lemma createKvCacheGroupSpecs_layers {grouped : List (List LayerName)}
    (h : ∀ names ∈ grouped, names ≠ [] ∧ ∃ s, HybridSpec a s ∧ ∀ name ∈ names, specs.get? name = some s) :
    ∃ groups, createKvCacheGroupSpecs specs grouped = .ok groups ∧ LayerGroups specs groups := by
  induction grouped with
  | nil => exact ⟨[], rfl, by simp [LayerGroups]⟩
  | cons names grouped ih =>
    rw [List.forall_mem_cons] at h
    obtain ⟨⟨hne, s, hs, hall⟩, h⟩ := h
    obtain ⟨groups, hgroups, hlayers⟩ := ih h
    refine ⟨{ layerNames := names, kvCacheSpec := .merged s } :: groups, ?_, ?_⟩
    · apply mapM_ok_iff.2
      exact .cons (createKvCacheGroupSpec_eq hs hne hall) (mapM_ok_iff.1 hgroups)
    · intro g hg
      rcases List.mem_cons.1 hg with rfl | hg
      · obtain ⟨name, hname⟩ := List.exists_mem_of_ne_nil names hne
        exact ⟨s, mem_values_of_get? (hall name hname), rfl⟩
      · exact hlayers g hg

/-- The layers of one spec, split. -/
lemma mem_splitLayers {size : Nat} (hsize : 0 < size) {layers names : List LayerName} (hne : layers ≠ [])
    (h : names ∈ splitLayers size layers) : names ≠ [] ∧ ∀ name ∈ names, name ∈ layers := by
  unfold splitLayers at h
  obtain ⟨i, hi, rfl⟩ := List.mem_map.1 h
  rw [List.mem_range] at hi
  refine ⟨stride_ne_nil hi (hi.trans_le ?_), fun _ hname => mem_of_mem_stride hname⟩
  have hpos := List.length_pos_of_ne_nil hne
  apply Nat.div_le_of_le_mul
  obtain ⟨n, hn⟩ := Nat.exists_eq_succ_of_ne_zero hpos.ne'
  obtain ⟨m, rfl⟩ := Nat.exists_eq_succ_of_ne_zero hsize.ne'
  have hmul : m.succ * n.succ = m * n + m + n + 1 := by
    rw [Nat.succ_mul_succ]
  rw [hn, hmul]
  omega

lemma groupsUniformPageSize_layers (hne : specs.values ≠ []) (hall : ∀ s ∈ specs.values, HybridSpec a s) :
    ∃ groups, groupsUniformPageSize specs = .ok groups ∧ LayerGroups specs groups := by
  unfold groupsUniformPageSize
  split
  · next hnone =>
    -- the first layer is one of its spec
    obtain ⟨s, hs⟩ := List.exists_mem_of_ne_nil _ hne
    obtain ⟨e, he, rfl⟩ := List.mem_map.1 hs
    obtain ⟨layers, hlayers⟩ := Dict.mem_iff_get?.1 (mem_gather.2 ⟨e, he, rfl⟩)
    rw [List.min?_eq_none_iff, List.map_eq_nil_iff] at hnone
    have hmem := mem_values_of_get? hlayers
    exact absurd hnone (List.ne_nil_of_mem hmem)
  · next size hsize =>
    obtain ⟨shortest, hshortest, hlen⟩ := List.mem_map.1 (List.min?_mem hsize)
    have hpos : 0 < size := hlen ▸ List.length_pos_of_ne_nil (sameTypeLayers_ne_nil hshortest)
    apply createKvCacheGroupSpecs_layers (a := a)
    intro names hnames
    obtain ⟨layers, hlayers, hsplit⟩ := List.mem_flatMap.1 hnames
    obtain ⟨hne, hsub⟩ := mem_splitLayers hpos (sameTypeLayers_ne_nil hlayers) hsplit
    obtain ⟨⟨s, _⟩, he, rfl⟩ := List.mem_map.1 hlayers
    have hget : ∀ name ∈ names, specs.get? name = some s := by
      intro name hname
      have hmem := hsub name hname
      rw [get?_gather_eq_some (Dict.get?_eq_some.2 he)] at hmem
      obtain ⟨⟨name', s'⟩, hf, rfl⟩ := List.mem_map.1 hmem
      rw [List.mem_filter, decide_eq_true_eq] at hf
      obtain ⟨he', rfl⟩ := hf
      exact Dict.get?_eq_some.2 he'
    obtain ⟨name, hname⟩ := List.exists_mem_of_ne_nil names hne
    exact ⟨hne, s, hall s (mem_values_of_get? (hget name hname)), hget⟩

/-- The layers of a hybrid model can be grouped. -/
lemma getKvCacheGroups_layers (hcfg : cfg.disableHybridKvCacheManager = false) (hne : specs.values ≠ [])
    (hall : ∀ s ∈ specs.values, HybridSpec a s) :
    ∃ groups, getKvCacheGroups cfg specs = .ok groups ∧ LayerGroups specs groups := by
  cases hvalues : specs.values with
  | nil => exact absurd hvalues hne
  | cons s rest =>
    have hspecs : specsToGroup cfg specs = .ok specs := by
      unfold specsToGroup
      rw [hcfg]
      rfl
    unfold getKvCacheGroups
    rw [hspecs]
    change ∃ groups, (if specs.values = [] then _ else _) = _ ∧ _
    rw [if_neg hne, isKvCacheSpecUniform_eq hvalues hall]
    by_cases heq : ∀ s' ∈ rest, s' = s
    · rw [decide_eq_true heq]
      apply createKvCacheGroupSpecs_layers (a := a)
      intro names hnames
      cases List.mem_singleton.1 hnames
      have hkeys : specs.keys ≠ [] := by
        intro hnil
        apply hne
        unfold Dict.values
        rw [List.map_eq_nil_iff.1 hnil, List.map_nil]
      refine ⟨hkeys, s, hall s (hvalues ▸ List.mem_cons_self), ?_⟩
      intro name hname
      obtain ⟨s', hs'⟩ := Dict.mem_iff_get?.1 (Dict.mem_def.2 hname)
      have hmem := hvalues ▸ mem_values_of_get? hs'
      rcases List.mem_cons.1 hmem with rfl | hmem
      · exact hs'
      · rw [hs', heq s' hmem]
    · rw [decide_eq_false heq, isUniformType_eq hvalues hall heq]
      have hpages : isKvCachePageSizeUniform specs = .ok true := by
        unfold isKvCachePageSizeUniform
        rw [pageSizes_eq hne hall]
        rfl
      rw [hpages]
      exact groupsUniformPageSize_layers hne hall

/-- The memory of some layers is at least a page for each. -/
lemma pages_le_sum (hl : 0 < cfg.maxModelLen) (hb : 0 < cfg.maxNumBatchedTokens) {l : List KVCacheSpec}
    {usage : List Nat} (hall : ∀ s ∈ l, HybridSpec a s)
    (h : List.Forall₂ (fun s n => s.maxMemoryUsageBytes cfg = .ok n) l usage) :
    l.length * a.pageSizeBytes ≤ usage.sum := by
  induction h with
  | nil => simp
  | cons hs _ ih =>
    rw [List.forall_mem_cons] at hall
    rw [List.length_cons, List.sum_cons, Nat.succ_mul, Nat.add_comm]
    exact Nat.add_le_add (pageSizeBytes_le_usage hall.1 hl hb hs) (ih hall.2)

lemma pages_le_usage {needed : Nat} (hl : 0 < cfg.maxModelLen) (hb : 0 < cfg.maxNumBatchedTokens)
    (hall : ∀ s ∈ specs.values, HybridSpec a s) (h : maxMemoryUsageBytes cfg specs = .ok needed) :
    specs.size * a.pageSizeBytes ≤ needed := by
  obtain ⟨usage, husage, h⟩ := bind_eq_ok.1 h
  cases h
  have hlen : specs.values.length = specs.size := List.length_map _
  rw [← hlen]
  exact pages_le_sum hl hb hall (mapM_ok_iff.1 husage)

/-- A group of a worker has no more layers than the worker. -/
lemma groupSize_le {own : List KVCacheGroupSpec} (hp : (own.flatMap (·.layerNames)).Perm specs.keys) :
    groupSize own ≤ specs.size := by
  by_contra hlt
  obtain ⟨g, hg, hlen⟩ := exists_lt_of_lt_groupSize (not_le.1 hlt)
  have hsub : g.layerNames.length ≤ (own.flatMap (·.layerNames)).length := by
    rw [List.flatMap_def]
    exact (List.sublist_flatten_of_mem (List.mem_map_of_mem hg)).length_le
  rw [hp.length_eq] at hsub
  have hsize : specs.keys.length = specs.size := List.length_map _
  omega

/-- A worker with a layer has a group with one. -/
lemma groupSize_pos {own : List KVCacheGroupSpec} (hp : (own.flatMap (·.layerNames)).Perm specs.keys)
    (hne : specs.values ≠ []) : 0 < groupSize own := by
  obtain ⟨s, hs⟩ := List.exists_mem_of_ne_nil _ hne
  obtain ⟨e, he, rfl⟩ := List.mem_map.1 hs
  obtain ⟨g, hg, hname⟩ := List.mem_flatMap.1 (hp.mem_iff.2 (List.mem_map_of_mem (f := Prod.fst) he))
  exact (List.length_pos_of_mem hname).trans_le (length_le_groupSize hg)

/-- The worker gets a block. -/
lemma getNumBlocks_pos {size page : Nat} (hover : ∀ n, cfg.numGpuBlocksOverride = some n → 0 < n) (hs : 0 < size)
    (hp : 0 < page) (hfits : ((size * page : Nat) : Int) ≤ available) :
    ∃ n, getNumBlocks cfg size available page = .ok n ∧ 0 < n := by
  have hblocks : 0 < available / page / size := by
    apply Int.lt_of_add_one_le
    apply (Int.le_ediv_iff_mul_le (Int.natCast_pos.2 hs)).2
    apply (Int.le_ediv_iff_mul_le (Int.natCast_pos.2 hp)).2
    rw [zero_add, one_mul]
    exact_mod_cast hfits
  refine ⟨mayOverrideNumBlocks cfg (max (available / page / size) 0), ?_, ?_⟩
  · exact bind_eq_ok.2 ⟨available / page, if_neg hp.ne', bind_eq_ok.2 ⟨available / page / size, if_neg hs.ne', rfl⟩⟩
  · unfold mayOverrideNumBlocks
    cases ho : cfg.numGpuBlocksOverride with
    | none => exact lt_max_of_lt_left hblocks
    | some n => exact hover n ho

/-- A worker with enough memory gets its configuration, with a block. -/
lemma workerConfig_hybrid {needed : Nat} (hpage : 0 < a.pageSizeBytes) (hl : 0 < cfg.maxModelLen)
    (hb : 0 < cfg.maxNumBatchedTokens) (hover : ∀ n, cfg.numGpuBlocksOverride = some n → 0 < n)
    (hg : Grouping merged groups) (hlayers : LayerGroups merged groups) (hsub : ∀ name ∈ specs, name ∈ merged)
    (hne : specs.values ≠ []) (hall : ∀ s ∈ specs.values, HybridSpec a s)
    (hneeded : maxMemoryUsageBytes cfg specs = .ok needed) (hfits : (needed : Int) ≤ available) :
    ∃ c, workerConfig cfg groups specs available = .ok c ∧ 0 < c.numBlocks := by
  have hp := restrict_perm hg hsub
  have hlen : ((groups.map (·.restrict specs)).map fun g => g.layerNames.length).sum = specs.size := by
    rw [← List.length_flatMap, hp.length_eq]
    exact List.length_map _
  have hpos := groupSize_pos hp hne
  have hmerged : ∀ g ∈ groups.map (·.restrict specs), ∃ s, g.kvCacheSpec = .merged s := by
    intro g hg'
    obtain ⟨g', hmem, rfl⟩ := List.mem_map.1 hg'
    obtain ⟨s, -, hs⟩ := hlayers g' hmem
    exact ⟨s, hs⟩
  have hsmall : ((groupSize (groups.map (·.restrict specs)) * a.pageSizeBytes : Nat) : Int) ≤ available := by
    apply le_trans _ hfits
    apply Int.ofNat_le.2
    exact (Nat.mul_le_mul_right _ (groupSize_le hp)).trans (pages_le_usage hl hb hall hneeded)
  obtain ⟨n, hn, hnpos⟩ := getNumBlocks_pos hover hpos hpage hsmall
  unfold workerConfig getKvCacheConfigFromGroups
  simp only
  rw [require_true hlen]
  split
  · next hnil =>
    rw [hnil] at hpos
    exact absurd hpos (lt_irrefl 0)
  · next names all hone =>
    obtain ⟨s, hs⟩ := hmerged ⟨names, .uniformType all⟩ (hone ▸ List.mem_cons_self)
    cases hs
  · have hown : sharedConfig cfg (groups.map (·.restrict specs)) specs available = .ok {
        numBlocks := n
        kvCacheTensors := (List.range (groupSize (groups.map (·.restrict specs)))).map fun i =>
          { size := a.pageSizeBytes * n, sharedBy := sharing (groups.map (·.restrict specs)) i }
        kvCacheGroups := groups.map (·.restrict specs) } :=
      bind_eq_ok.2 ⟨a.pageSizeBytes, getUniformPageSize_eq hne hall,
        bind_eq_ok.2 ⟨(), require_true hpos _, bind_eq_ok.2 ⟨n, hn, rfl⟩⟩⟩
    exact ⟨_, hown, hnpos⟩

/-- A group whose spec can be measured. -/
def Measured (cfg : LayoutConfig) (g : KVCacheGroupSpec) : Prop :=
  ∃ p n, g.kvCacheSpec.pageSizeBytes = .ok p ∧ 0 < p ∧ g.kvCacheSpec.maxMemoryUsageBytes cfg = .ok n ∧ 0 < n

/-- The memory of all groups. -/
lemma usage_ok {l : List KVCacheGroupSpec} (hm : ∀ g ∈ l, Measured cfg g) :
    ∃ usage, l.mapM (fun g => g.kvCacheSpec.maxMemoryUsageBytes cfg) = .ok usage ∧ l.length ≤ usage.sum := by
  induction l with
  | nil => exact ⟨[], rfl, le_refl 0⟩
  | cons g l ih =>
    rw [List.forall_mem_cons] at hm
    obtain ⟨⟨_, n, -, -, hn, hpos⟩, hm⟩ := hm
    obtain ⟨usage, husage, hle⟩ := ih hm
    refine ⟨n :: usage, mapM_ok_iff.2 (.cons hn (mapM_ok_iff.1 husage)), ?_⟩
    rw [List.length_cons, List.sum_cons]
    omega

/-- The concurrency can be reported. -/
lemma getMaxConcurrency_ok (hm : ∀ g ∈ c.kvCacheGroups, Measured cfg g) (hpos : 0 < groupSize c.kvCacheGroups) :
    ∃ q, getMaxConcurrency cfg c = .ok q := by
  obtain ⟨usage, husage, hle⟩ := usage_ok hm
  unfold getMaxConcurrency
  cases hgroups : c.kvCacheGroups with
  | nil =>
    rw [hgroups] at hpos
    exact absurd hpos (lt_irrefl 0)
  | cons g rest =>
    rw [hgroups] at hm hpos husage hle
    obtain ⟨p, n, hp, hppos, -, -⟩ := hm g List.mem_cons_self
    have hblock : p * groupSize (g :: rest) ≠ 0 := (Nat.mul_pos hppos hpos).ne'
    have hrequest : 0 < groupSize (g :: rest) * usage.sum := Nat.mul_pos hpos ((Nat.succ_pos _).trans_le hle)
    have hcdiv := cdiv_eq_ok (m := groupSize (g :: rest) * usage.sum) hblock
    apply exists_bind_eq_ok husage
    apply exists_bind_eq_ok hp
    apply exists_bind_eq_ok hcdiv
    exact ⟨_, if_neg (cdiv_pos hrequest hcdiv).ne'⟩

/-- A worker with a block can be shrunk to the common number of blocks. -/
lemma shrinkConfig_hybrid {w : Dict LayerName KVCacheSpec × Int} {n : Int} (hw : WorkerLayout cfg groups c.numBlocks w c)
    (hblocks : 0 < c.numBlocks) (hm : ∀ g ∈ c.kvCacheGroups, Measured cfg g) (hpos : 0 < groupSize c.kvCacheGroups) : ∃ c', shrinkConfig cfg n c = .ok c' := by
  have htensor : ∀ t ∈ c.kvCacheTensors, shrinkTensor c.numBlocks n t = .ok { t with size := t.size / c.numBlocks * n } := by
    intro t ht
    obtain ⟨p, hp, -⟩ := hw.size t ht
    have hdvd : t.size % c.numBlocks = 0 := by
      rw [hp]
      exact Int.mul_emod_left _ _
    unfold shrinkTensor
    rw [if_neg hblocks.ne', require_true hdvd]
    rfl
  have htensors : c.kvCacheTensors.mapM (shrinkTensor c.numBlocks n) =
      .ok (c.kvCacheTensors.map fun t => { t with size := t.size / c.numBlocks * n }) := by
    apply mapM_ok_iff.2
    apply List.forall₂_map_right_iff.2
    exact List.forall₂_same.2 htensor
  obtain ⟨q, hq⟩ := getMaxConcurrency_ok (c := { c with
    numBlocks := n
    kvCacheTensors := c.kvCacheTensors.map fun t => { t with size := t.size / c.numBlocks * n } }) hm hpos
  unfold shrinkConfig
  rw [htensors]
  change ∃ c', (if c.kvCacheGroups.isEmpty then _ else _) = _
  split
  · exact ⟨_, rfl⟩
  · exact exists_bind_eq_ok hq ⟨_, rfl⟩

/-- Specs that agree can be merged. -/
lemma mergeSpecs_agree {all : List (Dict LayerName KVCacheSpec)}
    (hsame : ∀ d ∈ all, ∀ d' ∈ all, ∀ e ∈ d.entries, ∀ e' ∈ d'.entries, e.1 = e'.1 → e.2 = e'.2) :
    ∃ merged, mergeSpecs all = .ok merged := by
  have hent : ∀ e ∈ all.flatMap Dict.entries, ∀ e' ∈ all.flatMap Dict.entries, e.1 = e'.1 → e.2 = e'.2 := by
    intro e he e' he'
    obtain ⟨d, hd, he⟩ := List.mem_flatMap.1 he
    obtain ⟨d', hd', he'⟩ := List.mem_flatMap.1 he'
    exact hsame d hd d' hd' e he e' he'
  have hok := foldlM_ok (f := mergeLayer)
    (fun done d => ∀ name s, Dict.get? d name = some s → (name, s) ∈ done) (all.flatMap Dict.entries) (a := ∅)
    (by simp) ?_
  · obtain ⟨merged, hm, -⟩ := hok
    exact ⟨merged, hm⟩
  · intro done e rest d hl hd
    unfold mergeLayer
    cases he : d.get? e.1 with
    | none =>
      refine ⟨_, rfl, ?_⟩
      intro name s hs
      rw [Dict.get?_set] at hs
      split at hs
      · next hname =>
        cases hs
        rw [hname]
        exact List.mem_append_right _ List.mem_cons_self
      · exact List.mem_append_left _ (hd name s hs)
    | some s' =>
      have hmem : (e.1, s') ∈ all.flatMap Dict.entries := hl ▸ List.mem_append_left _ (hd e.1 s' he)
      have hmem' : e ∈ all.flatMap Dict.entries := hl ▸ List.mem_append_right _ List.mem_cons_self
      refine ⟨d, bind_eq_ok.2 ⟨(), require_true (hent _ hmem _ hmem' rfl) _, rfl⟩, ?_⟩
      intro name s hs
      exact List.mem_append_left _ (hd name s hs)

lemma exists_get?_of_mem_values (hs : s ∈ specs.values) : ∃ name, specs.get? name = some s := by
  obtain ⟨e, he, rfl⟩ := List.mem_map.1 hs
  exact ⟨e.1, Dict.get?_eq_some.2 he⟩

/-- What a passed check says about the memory. -/
lemma needed_of_check (hne : specs.values ≠ []) (h : checkEnoughKvCacheMemory cfg specs available = .ok ()) :
    ∃ needed, maxMemoryUsageBytes cfg specs = .ok needed ∧ (needed : Int) ≤ available := by
  unfold checkEnoughKvCacheMemory at h
  rw [if_neg hne] at h
  split at h
  · cases h
  · obtain ⟨needed, hneeded, h⟩ := bind_eq_ok.1 h
    refine ⟨needed, hneeded, ?_⟩
    split at h
    · obtain ⟨_, -, h⟩ := bind_eq_ok.1 h
      cases h
    · next hlt => exact not_lt.1 hlt

/-- A group of a layer whose memory is known can be measured. -/
lemma measured_of_layer {g : KVCacheGroupSpec} {needed : Nat} (hpage : 0 < a.pageSizeBytes) (hl : 0 < cfg.maxModelLen)
    (hb : 0 < cfg.maxNumBatchedTokens) (hs : HybridSpec a s) (hmem : s ∈ specs.values)
    (hneeded : maxMemoryUsageBytes cfg specs = .ok needed) (hg : g.kvCacheSpec = .merged s) : Measured cfg g := by
  obtain ⟨usage, husage, -⟩ := bind_eq_ok.1 hneeded
  obtain ⟨n, -, hn⟩ := exists_of_mem_right (mapM_ok_iff.1 husage).flip hmem
  unfold Measured
  rw [hg]
  exact ⟨a.pageSizeBytes, n, hs.pageSizeBytes_eq, hpage, hn, hpage.trans_le (pageSizeBytes_le_usage hs hl hb hn)⟩

variable {workers : List (Dict LayerName KVCacheSpec × Int)}

/-- The specs of the model: the ones of the workers. -/
lemma HybridModel.exists_merged (h : HybridModel cfg a workers) :
    ∃ merged, mergeSpecs (workers.map Prod.fst) = .ok merged ∧
      ∀ name s, merged.get? name = some s ↔ ∃ w ∈ workers, w.1.get? name = some s := by
  have hsame : ∀ d ∈ workers.map Prod.fst, ∀ d' ∈ workers.map Prod.fst,
      ∀ e ∈ d.entries, ∀ e' ∈ d'.entries, e.1 = e'.1 → e.2 = e'.2 := by
    intro d hd d' hd'
    obtain ⟨w, hw, rfl⟩ := List.mem_map.1 hd
    obtain ⟨w', hw', rfl⟩ := List.mem_map.1 hd'
    exact h.same w hw w' hw'
  obtain ⟨merged, hm⟩ := mergeSpecs_agree hsame
  refine ⟨merged, hm, ?_⟩
  intro name s
  rw [mergeSpecs_ok hm, List.flatMap_map, List.mem_flatMap]
  simp only [Dict.get?_eq_some]

/-- A layer of the model is one of a worker. -/
lemma exists_worker (hmem : ∀ name s, merged.get? name = some s ↔ ∃ w ∈ workers, w.1.get? name = some s)
    (hs : s ∈ merged.values) : ∃ w ∈ workers, s ∈ w.1.values := by
  obtain ⟨name, hname⟩ := exists_get?_of_mem_values hs
  obtain ⟨w, hw, hsw⟩ := (hmem name s).1 hname
  exact ⟨w, hw, mem_values_of_get? hsw⟩

lemma HybridModel.values_ne_nil (h : HybridModel cfg a workers)
    (hmem : ∀ name s, merged.get? name = some s ↔ ∃ w ∈ workers, w.1.get? name = some s) : merged.values ≠ [] := by
  obtain ⟨w, hw⟩ := List.exists_mem_of_ne_nil _ h.stages
  obtain ⟨s, hs⟩ := List.exists_mem_of_ne_nil _ (h.layers w hw)
  obtain ⟨name, hname⟩ := exists_get?_of_mem_values hs
  exact List.ne_nil_of_mem (mem_values_of_get? ((hmem name s).2 ⟨w, hw, hname⟩))

/-- The groups of the model. -/
lemma HybridModel.exists_groups (h : HybridModel cfg a workers)
    (hneeded : ∀ w ∈ workers, ∃ needed, maxMemoryUsageBytes cfg w.1 = .ok needed ∧ (needed : Int) ≤ w.2)
    (hmem : ∀ name s, merged.get? name = some s ↔ ∃ w ∈ workers, w.1.get? name = some s) :
    ∃ groups, getKvCacheGroups cfg merged = .ok groups ∧ LayerGroups merged groups ∧ ∀ g ∈ groups, Measured cfg g := by
  have hall : ∀ s ∈ merged.values, HybridSpec a s := by
    intro s hs
    obtain ⟨w, hw, hsw⟩ := exists_worker hmem hs
    exact h.specs w hw s hsw
  obtain ⟨groups, hgroups, hlayers⟩ := getKvCacheGroups_layers h.enabled (h.values_ne_nil hmem) hall
  refine ⟨groups, hgroups, hlayers, ?_⟩
  intro g hg
  obtain ⟨s, hs, hspec⟩ := hlayers g hg
  obtain ⟨w, hw, hsw⟩ := exists_worker hmem hs
  obtain ⟨needed, hn, -⟩ := hneeded w hw
  exact measured_of_layer h.page h.len h.budget (hall s hs) hsw hn hspec

/-- The workers' configurations, before the number of blocks is made equal. -/
lemma HybridModel.exists_own (h : HybridModel cfg a workers)
    (hneeded : ∀ w ∈ workers, ∃ needed, maxMemoryUsageBytes cfg w.1 = .ok needed ∧ (needed : Int) ≤ w.2)
    (hmem : ∀ name s, merged.get? name = some s ↔ ∃ w ∈ workers, w.1.get? name = some s) (hg : Grouping merged groups)
    (hlayers : LayerGroups merged groups) :
    ∃ own, List.Forall₂ (fun w c => workerConfig cfg groups w.1 w.2 = .ok c ∧ 0 < c.numBlocks) workers own := by
  apply exists_forall₂
  intro w hw
  obtain ⟨needed, hn, hfits⟩ := hneeded w hw
  apply workerConfig_hybrid h.page h.len h.budget h.override hg hlayers _ (h.layers w hw) (h.specs w hw) hn hfits
  intro name hname
  obtain ⟨s, hs⟩ := Dict.mem_iff_get?.1 hname
  exact Dict.mem_of_get? ((hmem name s).2 ⟨w, hw, hs⟩)

/-- For a hybrid model the memory check of the workers decides, and then all have a block. -/
theorem hybrid_accepted_iff (h : HybridModel cfg a workers) :
    (∃ configs, getKvCacheConfigs cfg workers = .ok configs ∧ ∀ c ∈ configs, 0 < c.numBlocks) ↔
      ∀ w ∈ workers, checkEnoughKvCacheMemory cfg w.1 w.2 = .ok () := by
  constructor
  · rintro ⟨configs, hok, -⟩
    obtain ⟨_, hchecks, -⟩ := bind_eq_ok.1 hok
    exact forM_ok_iff.1 hchecks
  · intro hchecks
    have hneeded : ∀ w ∈ workers, ∃ needed, maxMemoryUsageBytes cfg w.1 = .ok needed ∧ (needed : Int) ≤ w.2 :=
      fun w hw => needed_of_check (h.layers w hw) (hchecks w hw)
    obtain ⟨merged, hm, hmem⟩ := h.exists_merged
    obtain ⟨groups, hgroups, hlayers, hmeasured⟩ := h.exists_groups hneeded hmem
    have hg := getKvCacheGroups_ok hgroups
    obtain ⟨own, hown⟩ := h.exists_own hneeded hmem hg hlayers
    have hshrink : ∀ n, ∀ c ∈ own, ∃ c', shrinkConfig cfg n c = .ok c' := by
      intro n c hc
      obtain ⟨w, hw, hcw, hblocks⟩ := exists_of_mem_right hown hc
      have hl := workerConfig_ok hg (fun name s hs => (hmem name s).2 ⟨w, hw, hs⟩) hcw
      apply shrinkConfig_hybrid hl hblocks
      · intro g hmg
        rw [hl.groups] at hmg
        obtain ⟨g', hg', rfl⟩ := List.mem_map.1 hmg
        exact hmeasured g' hg'
      · exact groupSize_pos hl.grouped (h.layers w hw)
    cases hmin : (own.map KVCacheConfig.numBlocks).min? with
    | none =>
      rw [List.min?_eq_none_iff, List.map_eq_nil_iff] at hmin
      subst hmin
      exact absurd (List.forall₂_nil_right_iff.1 hown) h.stages
    | some n =>
      obtain ⟨configs, hconfigs⟩ := exists_forall₂ (hshrink n)
      refine ⟨configs, ?_, ?_⟩
      · apply bind_eq_ok.2 ⟨(), forM_ok_iff.2 hchecks, _⟩
        apply bind_eq_ok.2 ⟨merged, hm, _⟩
        apply bind_eq_ok.2 ⟨groups, hgroups, _⟩
        apply bind_eq_ok.2 ⟨own, mapM_ok_iff.2 (hown.imp fun _ _ hc => hc.1), _⟩
        rw [hmin]
        exact mapM_ok_iff.2 hconfigs
      · intro c' hc'
        obtain ⟨c, -, hcc⟩ := exists_of_mem_right hconfigs hc'
        obtain ⟨c₀, hc₀, rfl⟩ := List.mem_map.1 (List.min?_mem hmin)
        obtain ⟨_, -, -, hpos⟩ := exists_of_mem_right hown hc₀
        rw [(shrinkConfig_ok hcc).1]
        exact hpos

theorem hybrid_accepted_iff_twoStages :
    (∃ configs, getKvCacheConfigs { maxModelLen := 8, maxNumBatchedTokens := 4 } twoStages = .ok configs ∧
      ∀ c ∈ configs, 0 < c.numBlocks) ↔
      ∀ w ∈ twoStages, checkEnoughKvCacheMemory { maxModelLen := 8, maxNumBatchedTokens := 4 } w.1 w.2 = .ok () := by
  refine hybrid_accepted_iff (a := ⟨2, 1, 1, ⟨"half", 2⟩⟩)
    ⟨by decide, by decide, by decide, by simp, rfl, by decide, by decide, ?_, by decide⟩
  intro w hw s hs
  rcases List.mem_cons.1 hw with rfl | hw
  · fin_cases hs
    · exact .full
    · exact .sliding 2
    · exact .sliding 2
  · cases List.mem_singleton.1 hw
    fin_cases hs
    · exact .full
    · exact .sliding 2

end Gambit.Layout
