import Gambit.Lib.DictMap
import Gambit.Lib.Loop
import Gambit.Layout.Configs

/-!
# The layout is consistent over the workers

What `get_kv_cache_configs` returns, whenever it returns: all workers have the same number of blocks and the same groups
up to the layers they lack, every layer of a worker is in one group and in one tensor, the layers of one tensor are in
different groups, and a tensor has a page of its layers for every block.

The groups are decided on the specs of the whole model, so the results go from the groups of the model to the part of a
worker, then to its tensors, and last to the common number of blocks.
-/

namespace Gambit.Layout
open Gambit.Lib

/-- The page size of a layer. -/
def pageOf? (specs : Dict LayerName KVCacheSpec) (name : LayerName) : Option Nat :=
  (specs.get? name).bind fun s => s.pageSizeBytes.toOption

/-- What the configuration `c` of the worker `w` has to be, for the groups of the whole model and a number of blocks. -/
structure WorkerLayout (cfg : LayoutConfig) (groups : List KVCacheGroupSpec) (n : Int)
    (w : Dict LayerName KVCacheSpec × Int) (c : KVCacheConfig) : Prop where
  numBlocks : c.numBlocks = n
  groups : c.kvCacheGroups = groups.map (·.restrict w.1)
  /-- Every layer is in one group. -/
  grouped : (c.kvCacheGroups.flatMap (·.layerNames)).Perm w.1.keys
  /-- Every layer is in one tensor. -/
  placed : (c.kvCacheTensors.flatMap (·.sharedBy)).Perm w.1.keys
  used : ∀ t ∈ c.kvCacheTensors, t.sharedBy ≠ []
  apart : ∀ t ∈ c.kvCacheTensors, t.sharedBy.Pairwise fun a b =>
    ∀ g ∈ c.kvCacheGroups, ¬ (a ∈ g.layerNames ∧ b ∈ g.layerNames)
  size : ∀ t ∈ c.kvCacheTensors, ∃ page : Nat,
    t.size = page * n ∧ ∀ name ∈ t.sharedBy, pageOf? w.1 name = some page
  fits : cfg.numGpuBlocksOverride = none → (c.kvCacheTensors.map KVCacheTensor.size).sum ≤ max w.2 0

variable {cfg : LayoutConfig} {specs specs' merged : Dict LayerName KVCacheSpec} {groups : List KVCacheGroupSpec}
  {available : Int} {c c' : KVCacheConfig}

/-- An element of the second list is related to one of the first. -/
lemma exists_of_mem_right {α β : Type} {R : α → β → Prop} {l : List α} {l' : List β} (h : List.Forall₂ R l l') {b : β}
    (hb : b ∈ l') : ∃ a ∈ l, R a b := by
  induction h with
  | nil => cases hb
  | @cons a₁ b₁ _ _ hr _ ih =>
    rcases List.mem_cons.1 hb with rfl | hb
    · exact ⟨a₁, List.mem_cons_self, hr⟩
    · obtain ⟨a, ha, hr⟩ := ih hb
      exact ⟨a, List.mem_cons_of_mem a₁ ha, hr⟩

lemma exists_forall₂ {α β : Type} {R : α → β → Prop} {l : List α} (h : ∀ a ∈ l, ∃ b, R a b) :
    ∃ l', List.Forall₂ R l l' := by
  induction l with
  | nil => exact ⟨[], .nil⟩
  | cons a l ih =>
    rw [List.forall_mem_cons] at h
    obtain ⟨b, hb⟩ := h.1
    obtain ⟨l', hl'⟩ := ih h.2
    exact ⟨b :: l', .cons hb hl'⟩

lemma require_true {p : Prop} [Decidable p] (hp : p) (text : String) : require p text = .ok () := if_pos hp

lemma require_false {p : Prop} [Decidable p] (hp : ¬ p) (text : String) : require p text = .error (.assertion text) :=
  if_neg hp

lemma require_eq_ok {p : Prop} [Decidable p] {text : String} {u : Unit} : require p text = .ok u ↔ p := by
  unfold require
  split
  · next hp => exact ⟨fun _ => hp, fun _ => rfl⟩
  · next hp =>
    constructor
    · intro h
      cases h
    · intro h
      exact absurd h hp

lemma pageOf?_eq_some {name : LayerName} {page : Nat} :
    pageOf? specs name = some page ↔ ∃ s, specs.get? name = some s ∧ s.pageSizeBytes = .ok page := by
  unfold pageOf?
  rw [Option.bind_eq_some_iff]
  apply exists_congr
  intro s
  cases s.pageSizeBytes with
  | error e => simp [Except.toOption]
  | ok p => simp [Except.toOption]

/-- The pages of a list of layers, where all of them have one. -/
lemma pageOf?_entries {l : List (LayerName × KVCacheSpec)} (hl : ∀ e ∈ l, e ∈ specs.entries) {pages : List Nat}
    (h : (l.map Prod.snd).mapM KVCacheSpec.pageSizeBytes = .ok pages) :
    (l.map Prod.fst).map (pageOf? specs) = pages.map some := by
  rw [mapM_ok_iff, List.forall₂_map_left_iff] at h
  induction h with
  | nil => rfl
  | @cons e page l pages he _ ih =>
    rw [List.forall_mem_cons] at hl
    have hpage : pageOf? specs e.1 = some page := pageOf?_eq_some.2 ⟨e.2, Dict.get?_eq_some.2 hl.1, he⟩
    rw [List.map_cons, List.map_cons, List.map_cons, hpage, ih hl.2]

lemma map_pageOf? {pages : List Nat} (h : specs.values.mapM KVCacheSpec.pageSizeBytes = .ok pages) :
    specs.keys.map (pageOf? specs) = pages.map some := pageOf?_entries (fun _ he => he) h

/-- All layers have the one page size. -/
lemma pageOf?_of_uniform {page : Nat} (h : getUniformPageSize specs = .ok page) {name : LayerName} (hn : name ∈ specs) :
    pageOf? specs name = some page := by
  unfold getUniformPageSize pageSizes at h
  rw [bind_eq_ok] at h
  obtain ⟨sizes, hsizes, h⟩ := h
  rw [bind_eq_ok] at hsizes
  obtain ⟨pages, hpages, hsizes⟩ := hsizes
  cases hsizes
  have hmem : pageOf? specs name ∈ pages.map some := map_pageOf? hpages ▸ List.mem_map_of_mem hn
  obtain ⟨p, hp, hpage⟩ := List.mem_map.1 hmem
  split at h
  · next p' hsizes =>
    cases h
    have hp' := hsizes ▸ List.mem_dedup.2 hp
    rw [← hpage, List.mem_singleton.1 hp']
  · cases h

/-- A spec turned into one of full attention keeps its page size. -/
lemma pageSizeBytes_toFullAttention (s : KVCacheSpec) : s.toFullAttention.pageSizeBytes = s.pageSizeBytes := by
  cases s <;> rfl

/-- The groups hold every layer once; they have a spec of their own each, or there is one for layers of one type. -/
structure Grouping (specs : Dict LayerName KVCacheSpec) (groups : List KVCacheGroupSpec) : Prop where
  perm : (groups.flatMap (·.layerNames)).Perm specs.keys
  shape : (∀ g ∈ groups, ∃ s, g.kvCacheSpec = .merged s) ∨
    ∃ all, groups = [⟨all.keys, .uniformType all⟩] ∧ all.values ≠ [] ∧ pageOf? all = pageOf? specs

/-- The specs are of the same layers, with the same page sizes. -/
structure SamePages (specs specs' : Dict LayerName KVCacheSpec) : Prop where
  keys : specs.keys = specs'.keys
  pages : pageOf? specs = pageOf? specs'

lemma samePages_toFullAttention : SamePages (specs.mapVal fun _ s => s.toFullAttention) specs where
  keys := Dict.keys_mapVal _ _
  pages := by
    funext name
    unfold pageOf?
    rw [Dict.get?_mapVal, Option.bind_map]
    apply congrArg
    funext s
    exact congrArg Except.toOption (pageSizeBytes_toFullAttention s)

lemma unify_samePages (h : unifyHybridKvCacheSpecs specs = .ok specs') : SamePages specs' specs := by
  unfold unifyHybridKvCacheSpecs at h
  rw [bind_eq_ok] at h
  obtain ⟨unified, -, h⟩ := h
  cases unified with
  | true =>
    cases h
    exact ⟨rfl, rfl⟩
  | false =>
    rw [if_neg (by simp)] at h
    simp only at h
    rw [bind_eq_ok] at h
    obtain ⟨unified', -, h⟩ := h
    cases unified' with
    | false => cases h
    | true =>
      cases h
      split
      · exact samePages_toFullAttention
      · exact ⟨rfl, rfl⟩

lemma createKvCacheGroupSpecs_ok {grouped : List (List LayerName)}
    (h : createKvCacheGroupSpecs specs grouped = .ok groups) :
    groups.map KVCacheGroupSpec.layerNames = grouped ∧ ∀ g ∈ groups, ∃ s, g.kvCacheSpec = .merged s := by
  unfold createKvCacheGroupSpecs at h
  rw [mapM_ok_iff] at h
  induction h with
  | nil =>
    refine ⟨rfl, ?_⟩
    intro g hg
    cases hg
  | cons hg _ ih =>
    unfold createKvCacheGroupSpec at hg
    rw [bind_eq_ok] at hg
    obtain ⟨s, -, hg⟩ := hg
    cases hg
    refine ⟨congrArg _ ih.1, ?_⟩
    rw [List.forall_mem_cons]
    exact ⟨⟨s, rfl⟩, ih.2⟩

lemma grouping_of_create {grouped : List (List LayerName)} (h : createKvCacheGroupSpecs specs grouped = .ok groups)
    (hp : grouped.flatten.Perm specs.keys) : Grouping specs groups where
  perm := by rwa [List.flatMap_def, (createKvCacheGroupSpecs_ok h).1]
  shape := .inl (createKvCacheGroupSpecs_ok h).2

lemma splitLayers_perm {size : Nat} (hs : 0 < size) (layers : List LayerName) :
    (splitLayers size layers).flatten.Perm layers := by
  unfold splitLayers
  rw [← List.flatMap_def]
  by_cases hl : layers = []
  · subst hl
    have hzero : ([] : List LayerName).length + size - 1 < size := by
      rw [List.length_nil]
      omega
    rw [Nat.div_eq_of_lt hzero]
    exact .nil
  · apply stride_perm
    apply Nat.div_pos _ hs
    have := List.length_pos_of_ne_nil hl
    omega

/-- The layers of a spec are not none. -/
lemma sameTypeLayers_ne_nil {layers : List LayerName} (h : layers ∈ (sameTypeLayers specs).values) : layers ≠ [] := by
  obtain ⟨⟨s, l⟩, he, rfl⟩ := List.mem_map.1 h
  have hget := Dict.get?_eq_some.2 he
  obtain ⟨e, hmem, hs⟩ := mem_gather.1 (Dict.mem_of_get? hget)
  rw [get?_gather_eq_some hget]
  apply List.ne_nil_of_mem (a := e.1)
  apply List.mem_map_of_mem
  rw [List.mem_filter, decide_eq_true_eq]
  exact ⟨hmem, hs⟩

lemma flatMap_splitLayers_perm {size : Nat} (hs : 0 < size) :
    ((sameTypeLayers specs).values.flatMap (splitLayers size)).flatten.Perm specs.keys := by
  have hall : ∀ lists : List (List LayerName), (lists.flatMap (splitLayers size)).flatten.Perm lists.flatten := by
    intro lists
    induction lists with
    | nil => exact .nil
    | cons l lists ih =>
      rw [List.flatMap_cons, List.flatten_append, List.flatten_cons]
      exact (splitLayers_perm hs l).append ih
  exact (hall _).trans (gather_perm specs.entries)

lemma groupsUniformPageSize_ok (h : groupsUniformPageSize specs = .ok groups) : Grouping specs groups := by
  unfold groupsUniformPageSize at h
  split at h
  · cases h
  · next size hsize =>
    apply grouping_of_create h
    apply flatMap_splitLayers_perm
    obtain ⟨layers, hl, rfl⟩ := List.mem_map.1 (List.min?_mem hsize)
    exact List.length_pos_of_ne_nil (sameTypeLayers_ne_nil hl)

lemma grouping_congr (h : Grouping specs groups) (hs : SamePages specs specs') : Grouping specs' groups where
  perm := hs.keys ▸ h.perm
  shape := hs.pages ▸ h.shape

/-- The groups of the model, after the specs may have been unified. -/
lemma getKvCacheGroups_ok (h : getKvCacheGroups cfg specs = .ok groups) : Grouping specs groups := by
  unfold getKvCacheGroups at h
  rw [bind_eq_ok] at h
  obtain ⟨unified, hu, h⟩ := h
  have hsame : SamePages unified specs := by
    unfold specsToGroup at hu
    split at hu
    · exact unify_samePages hu
    · cases hu
      exact ⟨rfl, rfl⟩
  suffices Grouping unified groups from grouping_congr this hsame
  split at h
  · next hnil =>
    cases h
    refine ⟨?_, .inl (by simp)⟩
    have hkeys : unified.keys = [] := by
      unfold Dict.values at hnil
      unfold Dict.keys
      rw [List.map_eq_nil_iff.1 hnil, List.map_nil]
    rw [hkeys, List.flatMap_nil]
  · next hne =>
    rw [bind_eq_ok] at h
    obtain ⟨uniform, -, h⟩ := h
    split at h
    · apply grouping_of_create h
      rw [List.flatten_singleton]
    · rw [bind_eq_ok] at h
      obtain ⟨oneType, -, h⟩ := h
      split at h
      · cases h
        refine ⟨?_, .inr ⟨unified, rfl, hne, rfl⟩⟩
        rw [List.flatMap_singleton]
      · rw [bind_eq_ok] at h
        obtain ⟨onePage, -, h⟩ := h
        split at h
        · exact groupsUniformPageSize_ok h
        · cases h

lemma flatMap_restrict (groups : List KVCacheGroupSpec) (specs : Dict LayerName KVCacheSpec) :
    (groups.map (·.restrict specs)).flatMap (·.layerNames) = (groups.flatMap (·.layerNames)).filter (· ∈ specs) := by
  induction groups with
  | nil => rfl
  | cons g groups ih =>
    rw [List.map_cons, List.flatMap_cons, List.flatMap_cons, List.filter_append, ih]
    rfl

/-- The groups of a worker hold its layers. -/
lemma restrict_perm (hg : Grouping merged groups) (hsub : ∀ name ∈ specs, name ∈ merged) :
    ((groups.map (·.restrict specs)).flatMap (·.layerNames)).Perm specs.keys := by
  rw [flatMap_restrict]
  apply (hg.perm.filter _).trans
  apply (List.perm_ext_iff_of_nodup (merged.keys_nodup.filter _) specs.keys_nodup).2
  intro name
  rw [List.mem_filter, decide_eq_true_eq]
  exact ⟨fun h => h.2, fun h => ⟨hsub name h, h⟩⟩

lemma length_le_groupSize {g : KVCacheGroupSpec} (hg : g ∈ groups) : g.layerNames.length ≤ groupSize groups := by
  unfold groupSize
  rw [List.foldl_max, Nat.zero_max]
  apply List.le_max?_getD_of_mem
  exact List.mem_map.2 ⟨g, hg, rfl⟩

/-- Some group is as long as the longest one. -/
lemma exists_lt_of_lt_groupSize {i : Nat} (hi : i < groupSize groups) : ∃ g ∈ groups, i < g.layerNames.length := by
  unfold groupSize at hi
  rw [List.foldl_max, Nat.zero_max] at hi
  cases hm : (groups.map fun g => g.layerNames.length).max? with
  | none =>
    rw [hm] at hi
    exact absurd hi (Nat.not_lt_zero i)
  | some m =>
    obtain ⟨g, hg, rfl⟩ := List.mem_map.1 (List.max?_mem hm)
    rw [hm] at hi
    exact ⟨g, hg, hi⟩

lemma sharing_ne_nil {i : Nat} (hi : i < groupSize groups) : sharing groups i ≠ [] := by
  obtain ⟨g, hg, hlt⟩ := exists_lt_of_lt_groupSize hi
  apply List.ne_nil_of_mem (a := g.layerNames[i])
  exact mem_column.2 ⟨g.layerNames, List.mem_map_of_mem hg, List.getElem?_eq_getElem hlt⟩

lemma sharing_perm (groups : List KVCacheGroupSpec) :
    ((List.range (groupSize groups)).flatMap (sharing groups)).Perm (groups.flatMap (·.layerNames)) := by
  rw [List.flatMap_def (l := groups)]
  apply columns_perm
  intro names hn
  obtain ⟨g, hg, rfl⟩ := List.mem_map.1 hn
  exact length_le_groupSize hg

lemma sharing_pairwise (hnd : (groups.flatMap (·.layerNames)).Nodup) (i : Nat) :
    (sharing groups i).Pairwise fun a b => ∀ g ∈ groups, ¬ (a ∈ g.layerNames ∧ b ∈ g.layerNames) := by
  rw [List.flatMap_def] at hnd
  apply (column_pairwise hnd i).imp
  intro a b h g hg
  exact h g.layerNames (List.mem_map_of_mem hg)

/-- The blocks of all tensors together fit. -/
lemma pages_fit {size page : Nat} (hs : size ≠ 0) (hp : page ≠ 0) (available : Int) :
    (size : Int) * (page * max (available / page / size) 0) ≤ max available 0 := by
  rcases le_total (available / page / size) 0 with h | h
  · rw [max_eq_right h, mul_zero, mul_zero]
    exact le_max_right _ _
  · rw [max_eq_left h]
    calc (size : Int) * (page * (available / page / size))
        = page * (available / page / size * size) := by ring
      _ ≤ page * (available / page) := 
          Int.mul_le_mul_of_nonneg_left (Int.ediv_mul_le _ (Int.natCast_ne_zero.2 hs)) (Int.natCast_nonneg _)
      _ ≤ available := Int.mul_ediv_self_le (Int.natCast_ne_zero.2 hp)
      _ ≤ max available 0 := le_max_left _ _

lemma floorDiv_ok {a q : Int} {b : Nat} (h : floorDiv a b = .ok q) : b ≠ 0 ∧ q = a / b := by
  unfold floorDiv at h
  split at h
  · cases h
  · next hb =>
    cases h
    exact ⟨hb, rfl⟩

lemma getNumBlocks_ok {size page : Nat} {n : Int} (hover : cfg.numGpuBlocksOverride = none)
    (h : getNumBlocks cfg size available page = .ok n) :
    size ≠ 0 ∧ page ≠ 0 ∧ n = max (available / page / size) 0 := by
  unfold getNumBlocks mayOverrideNumBlocks at h
  rw [bind_eq_ok] at h
  obtain ⟨perPage, hpage, h⟩ := h
  rw [bind_eq_ok] at h
  obtain ⟨blocks, hsize, h⟩ := h
  rw [hover] at h
  cases h
  obtain ⟨hs, rfl⟩ := floorDiv_ok hsize
  obtain ⟨hp, rfl⟩ := floorDiv_ok hpage
  exact ⟨hs, hp, rfl⟩

lemma sharedConfig_ok {own : List KVCacheGroupSpec} (h : sharedConfig cfg own specs available = .ok c)
    (hown : own = groups.map (·.restrict specs)) (hp : (own.flatMap (·.layerNames)).Perm specs.keys) :
    WorkerLayout cfg groups c.numBlocks (specs, available) c := by
  unfold sharedConfig at h
  rw [bind_eq_ok] at h
  obtain ⟨page, hpage, h⟩ := h
  rw [bind_eq_ok] at h
  obtain ⟨_, -, h⟩ := h
  rw [bind_eq_ok] at h
  obtain ⟨n, hn, h⟩ := h
  cases h
  have hnd : (own.flatMap (·.layerNames)).Nodup := hp.nodup_iff.2 specs.keys_nodup
  have hplaced := (sharing_perm own).trans hp
  refine ⟨rfl, hown, hp, ?_, ?_, ?_, ?_, ?_⟩
  · rwa [List.flatMap_map]
  · intro t ht
    obtain ⟨i, hi, rfl⟩ := List.mem_map.1 ht
    exact sharing_ne_nil (List.mem_range.1 hi)
  · intro t ht
    obtain ⟨i, -, rfl⟩ := List.mem_map.1 ht
    exact sharing_pairwise hnd i
  · intro t ht
    obtain ⟨i, hi, rfl⟩ := List.mem_map.1 ht
    refine ⟨page, rfl, ?_⟩
    intro name hname
    apply pageOf?_of_uniform hpage
    exact hplaced.mem_iff.1 (List.mem_flatMap.2 ⟨i, hi, hname⟩)
  · intro hover
    obtain ⟨hs, hp, hn'⟩ := getNumBlocks_ok hover hn
    have hsum : ((List.range (groupSize own)).map fun i => (page : Int) * n).sum = groupSize own * (page * n) := by
      rw [List.map_const', List.sum_replicate, List.length_range, nsmul_eq_mul]
    rw [List.map_map]
    exact hsum.trans_le (hn' ▸ pages_fit hs hp available)

/-- The page size of a layer that has one. -/
def page (specs : Dict LayerName KVCacheSpec) (name : LayerName) : Nat := (pageOf? specs name).getD 0

/-- The tensors of a group whose layers have a tensor each. -/
lemma ownTensors_ok {all : Dict LayerName KVCacheSpec} {n : Int} {names : List LayerName} {tensors : List KVCacheTensor}
    (h : names.mapM (ownTensor all n) = .ok tensors) :
    tensors = (names.map fun name => { size := page all name * n, sharedBy := [name] }) ∧
      ∀ name ∈ names, pageOf? all name = some (page all name) := by
  rw [mapM_ok_iff] at h
  induction h with
  | nil => exact ⟨rfl, by simp⟩
  | @cons name t names tensors ht _ ih =>
    obtain ⟨rfl, hall⟩ := ih
    unfold ownTensor at ht
    split at ht
    · cases ht
    · next s hs =>
      rw [bind_eq_ok] at ht
      obtain ⟨p, hp, ht⟩ := ht
      cases ht
      have hname : pageOf? all name = some p := pageOf?_eq_some.2 ⟨s, hs, hp⟩
      have hpage : page all name = p := by rw [page, hname, Option.getD_some]
      rw [List.map_cons, List.forall_mem_cons, hpage]
      exact ⟨rfl, hname, hall⟩

/-- The page of the group is the sum of its layers' pages. -/
lemma pageSizeBytes_uniformType {all : Dict LayerName KVCacheSpec} {p : Nat}
    (h : (GroupSpec.uniformType all).pageSizeBytes = .ok p) : p = (all.keys.map (page all)).sum := by
  unfold GroupSpec.pageSizeBytes at h
  rw [bind_eq_ok] at h
  obtain ⟨pages, hpages, h⟩ := h
  cases h
  have hmap := congrArg (List.map fun p : Option Nat => p.getD 0) (map_pageOf? hpages)
  rw [List.map_map, List.map_map] at hmap
  exact (congrArg List.sum (hmap.trans (List.map_id pages))).symm

/-- The pages of some of the layers are at most the page of all, for every block. -/
lemma own_pages_fit {part p : Nat} (hpart : part ≤ p) (hp : p ≠ 0) (available : Int) :
    (part : Int) * (available / p) ≤ max available 0 := by
  rcases le_total (available / p) 0 with h | h
  · exact (mul_nonpos_of_nonneg_of_nonpos (Int.natCast_nonneg part) h).trans (le_max_right _ _)
  · calc (part : Int) * (available / p)
        ≤ p * (available / p) := Int.mul_le_mul_of_nonneg_right (Int.ofNat_le.2 hpart) h
      _ ≤ available := Int.mul_ediv_self_le (Int.natCast_ne_zero.2 hp)
      _ ≤ max available 0 := le_max_left _ _

lemma ownConfig_ok {all : Dict LayerName KVCacheSpec}
    (h : ownConfig cfg ⟨all.keys.filter (· ∈ specs), .uniformType all⟩ all available = .ok c)
    (hgroups : groups = [⟨all.keys, .uniformType all⟩]) (hpage : ∀ name ∈ specs, pageOf? all name = pageOf? specs name)
    (hp : (all.keys.filter (· ∈ specs)).Perm specs.keys) :
    WorkerLayout cfg groups c.numBlocks (specs, available) c := by
  unfold ownConfig at h
  rw [bind_eq_ok] at h
  obtain ⟨p, hsum, h⟩ := h
  rw [bind_eq_ok] at h
  obtain ⟨n, hn, h⟩ := h
  simp only at h
  rw [bind_eq_ok] at h
  obtain ⟨tensors, ht, h⟩ := h
  cases h
  obtain ⟨rfl, hall⟩ := ownTensors_ok ht
  refine ⟨rfl, ?_, ?_, ?_, ?_, ?_, ?_, ?_⟩
  · rw [hgroups]
    rfl
  · rwa [List.flatMap_singleton]
  · rw [List.flatMap_map, List.flatMap_singleton']
    exact hp
  · intro t ht
    obtain ⟨name, -, rfl⟩ := List.mem_map.1 ht
    exact List.cons_ne_nil _ _
  · intro t ht
    obtain ⟨name, -, rfl⟩ := List.mem_map.1 ht
    exact List.pairwise_singleton _ _
  · intro t ht
    obtain ⟨name, hname, rfl⟩ := List.mem_map.1 ht
    refine ⟨page all name, rfl, ?_⟩
    intro name' hname'
    cases List.mem_singleton.1 hname'
    rw [← hpage name (hp.mem_iff.1 hname), hall name hname]
  · intro hover
    obtain ⟨hp0, rfl⟩ := floorDiv_ok hn
    have hle : ((all.keys.filter (· ∈ specs)).map (page all)).sum ≤ p := by
      rw [pageSizeBytes_uniformType hsum]
      exact (List.filter_sublist.map _).sum_le_sum (by simp)
    have hblocks : mayOverrideNumBlocks cfg (available / p) = available / p := by
      unfold mayOverrideNumBlocks
      rw [hover, Option.getD_none]
    rw [List.map_map, hblocks]
    calc ((all.keys.filter (· ∈ specs)).map fun name => (page all name : Int) * (available / p)).sum
        = (((all.keys.filter (· ∈ specs)).map (page all)).sum : Nat) * (available / p) := by
          rw [List.sum_map_mul_right, Nat.cast_list_sum, List.map_map]
          rfl
      _ ≤ max available 0 := own_pages_fit hle hp0 available

/-- The configuration of a worker, before the number of blocks is made equal. -/
lemma workerConfig_ok (hg : Grouping merged groups) (hsub : ∀ name s, specs.get? name = some s → merged.get? name = some s)
    (h : workerConfig cfg groups specs available = .ok c) : WorkerLayout cfg groups c.numBlocks (specs, available) c := by
  unfold workerConfig at h
  simp only at h
  rw [bind_eq_ok] at h
  obtain ⟨_, -, h⟩ := h
  have hp : ((groups.map (·.restrict specs)).flatMap (·.layerNames)).Perm specs.keys := by
    apply restrict_perm hg
    intro name hname
    obtain ⟨s, hs⟩ := Dict.mem_iff_get?.1 hname
    exact Dict.mem_of_get? (hsub name s hs)
  unfold getKvCacheConfigFromGroups at h
  split at h
  · next hnil =>
    cases h
    rw [hnil, List.flatMap_nil] at hp
    refine ⟨rfl, hnil.symm, hp, hp, by simp, by simp, by simp, ?_⟩
    intro _
    exact le_max_right _ _
  · next names all hone =>
    rcases hg.shape with hmerged | ⟨all', rfl, -, hpages⟩
    · obtain ⟨g, rfl, hrest⟩ := List.map_eq_singleton_iff.1 hone
      obtain ⟨s, hs⟩ := hmerged g List.mem_cons_self
      have hspec := congrArg KVCacheGroupSpec.kvCacheSpec hrest
      rw [KVCacheGroupSpec.restrict, hs] at hspec
      cases hspec
    · cases hone
      apply ownConfig_ok h rfl
      · intro name hname
        obtain ⟨s, hs⟩ := Dict.mem_iff_get?.1 hname
        rw [hpages, pageOf?, pageOf?, hs, hsub name s hs]
      · rwa [List.map_singleton, List.flatMap_singleton] at hp
  · exact sharedConfig_ok h rfl hp

/-- A tensor that could be shrunk keeps its layers and has the same page for every block. -/
lemma shrinkTensor_ok {old new : Int} {p : Nat} {t t' : KVCacheTensor} (h : shrinkTensor old new t = .ok t')
    (hp : t.size = p * old) : t' = { size := p * new, sharedBy := t.sharedBy } := by
  unfold shrinkTensor at h
  split at h
  · cases h
  · next hold =>
    rw [bind_eq_ok] at h
    obtain ⟨_, -, h⟩ := h
    cases h
    rw [hp, Int.mul_ediv_cancel _ hold]

/-- The tensors with their sizes for another number of blocks. -/
structure Resized (old new : Int) (t t' : KVCacheTensor) : Prop where
  sharedBy : t'.sharedBy = t.sharedBy
  size : ∀ p : Nat, t.size = p * old → t'.size = p * new

lemma shrinkConfig_ok {n : Int} (h : shrinkConfig cfg n c = .ok c') :
    c'.numBlocks = n ∧ c'.kvCacheGroups = c.kvCacheGroups ∧
      List.Forall₂ (Resized c.numBlocks n) c.kvCacheTensors c'.kvCacheTensors := by
  unfold shrinkConfig at h
  rw [bind_eq_ok] at h
  obtain ⟨tensors, ht, h⟩ := h
  have hresized : List.Forall₂ (Resized c.numBlocks n) c.kvCacheTensors tensors := by
    apply (mapM_ok_iff.1 ht).imp
    intro t t' htt
    refine ⟨?_, fun p hp => congrArg KVCacheTensor.size (shrinkTensor_ok htt hp)⟩
    unfold shrinkTensor at htt
    split at htt
    · cases htt
    · rw [bind_eq_ok] at htt
      obtain ⟨_, -, htt⟩ := htt
      cases htt
      rfl
  simp only at h
  split at h
  · cases h
    exact ⟨rfl, rfl, hresized⟩
  · rw [bind_eq_ok] at h
    obtain ⟨_, -, h⟩ := h
    cases h
    exact ⟨rfl, rfl, hresized⟩

lemma resized_sharedBy {old new : Int} {ts ts' : List KVCacheTensor} (h : List.Forall₂ (Resized old new) ts ts') :
    ts'.map KVCacheTensor.sharedBy = ts.map KVCacheTensor.sharedBy := by
  induction h with
  | nil => rfl
  | cons ht _ ih => rw [List.map_cons, List.map_cons, ht.sharedBy, ih]

/-- Fewer blocks do not take more memory. -/
lemma resized_sum {old new : Int} (hle : new ≤ old) {ts ts' : List KVCacheTensor}
    (h : List.Forall₂ (Resized old new) ts ts') (hsize : ∀ t ∈ ts, ∃ p : Nat, t.size = p * old) :
    (ts'.map KVCacheTensor.size).sum ≤ (ts.map KVCacheTensor.size).sum := by
  induction h with
  | nil => exact le_refl _
  | cons ht _ ih =>
    rw [List.forall_mem_cons] at hsize
    obtain ⟨⟨p, hp⟩, hsize⟩ := hsize
    rw [List.map_cons, List.map_cons, List.sum_cons, List.sum_cons]
    apply add_le_add _ (ih hsize)
    rw [hp, ht.size p hp]
    exact Int.mul_le_mul_of_nonneg_left hle (Int.natCast_nonneg p)

/-- What the configuration of a worker has to be is kept when the number of blocks is lowered. -/
lemma WorkerLayout.shrink {w : Dict LayerName KVCacheSpec × Int} {n : Int} (hw : WorkerLayout cfg groups c.numBlocks w c)
    (hle : n ≤ c.numBlocks) (h : shrinkConfig cfg n c = .ok c') : WorkerLayout cfg groups n w c' := by
  obtain ⟨hn, hgroups, hts⟩ := shrinkConfig_ok h
  have hshared := resized_sharedBy hts
  have hof : ∀ t' ∈ c'.kvCacheTensors, ∃ t ∈ c.kvCacheTensors, Resized c.numBlocks n t t' :=
    fun _ ht' => exists_of_mem_right hts ht'
  refine ⟨hn, hgroups.trans hw.groups, hgroups ▸ hw.grouped, ?_, ?_, ?_, ?_, ?_⟩
  · rw [List.flatMap_def, hshared, ← List.flatMap_def]
    exact hw.placed
  · intro t' ht'
    obtain ⟨t, ht, hr⟩ := hof t' ht'
    exact hr.sharedBy ▸ hw.used t ht
  · intro t' ht'
    obtain ⟨t, ht, hr⟩ := hof t' ht'
    rw [hr.sharedBy, hgroups]
    exact hw.apart t ht
  · intro t' ht'
    obtain ⟨t, ht, hr⟩ := hof t' ht'
    obtain ⟨p, hp, hpages⟩ := hw.size t ht
    exact ⟨p, hr.size p hp, hr.sharedBy ▸ hpages⟩
  · intro hover
    apply (resized_sum hle hts _).trans (hw.fits hover)
    intro t ht
    obtain ⟨p, hp, -⟩ := hw.size t ht
    exact ⟨p, hp⟩

/-- The specs of the model are the ones of the workers. -/
lemma mergeSpecs_ok {all : List (Dict LayerName KVCacheSpec)} (h : mergeSpecs all = .ok merged) (name : LayerName)
    (s : KVCacheSpec) : merged.get? name = some s ↔ (name, s) ∈ all.flatMap Dict.entries := by
  revert name s
  apply foldlM_keeps (fun done d => ∀ name s, Dict.get? d name = some s ↔ (name, s) ∈ done) h
  · intro name s
    simp
  · intro done e d d' hd hstep name s
    unfold mergeLayer at hstep
    rw [List.mem_append, List.mem_singleton, ← hd]
    cases he : d.get? e.1 with
    | none =>
      rw [he] at hstep
      cases hstep
      rw [Dict.get?_set]
      split
      · next hname =>
        rw [hname, he]
        constructor
        · intro hs
          cases hs
          exact .inr rfl
        · rintro (hs | hs)
          · cases hs
          · exact congrArg (fun e => some e.2) hs.symm
      · next hname =>
        constructor
        · exact .inl
        · rintro (hs | rfl)
          · exact hs
          · exact absurd rfl hname
    | some s' =>
      rw [he] at hstep
      simp only at hstep
      rw [bind_eq_ok] at hstep
      obtain ⟨_, hsame, hstep⟩ := hstep
      cases hstep
      rw [require_eq_ok] at hsame
      constructor
      · exact .inl
      · rintro (hs | rfl)
        · exact hs
        · rw [he, hsame]

/-- The configurations of all workers, from those with a number of blocks of their own. -/
lemma layouts_ok {workers : List (Dict LayerName KVCacheSpec × Int)} {own configs : List KVCacheConfig} {n : Int}
    (hg : Grouping merged groups)
    (hsub : ∀ w ∈ workers, ∀ name s, w.1.get? name = some s → merged.get? name = some s)
    (hown : List.Forall₂ (fun w c => workerConfig cfg groups w.1 w.2 = .ok c) workers own)
    (hle : ∀ c ∈ own, n ≤ c.numBlocks) (h : List.Forall₂ (fun c c' => shrinkConfig cfg n c = .ok c') own configs) :
    List.Forall₂ (WorkerLayout cfg groups n) workers configs := by
  induction hown generalizing configs with
  | nil =>
    cases h
    exact .nil
  | cons hw _ ih =>
    cases h with
    | cons hc hrest =>
      rw [List.forall_mem_cons] at hsub hle
      exact .cons ((workerConfig_ok hg hsub.1 hw).shrink hle.1 hc) (ih hsub.2 hle.2 hrest)

/-- What `get_kv_cache_configs` returns, for the groups of the model. -/
lemma getKvCacheConfigs_ok {workers : List (Dict LayerName KVCacheSpec × Int)} {configs : List KVCacheConfig}
    (h : getKvCacheConfigs cfg workers = .ok configs) :
    ∃ merged groups n, Grouping merged groups ∧ List.Forall₂ (WorkerLayout cfg groups n) workers configs := by
  unfold getKvCacheConfigs at h
  rw [bind_eq_ok] at h
  obtain ⟨_, -, h⟩ := h
  rw [bind_eq_ok] at h
  obtain ⟨merged, hm, h⟩ := h
  rw [bind_eq_ok] at h
  obtain ⟨groups, hg, h⟩ := h
  rw [bind_eq_ok] at h
  obtain ⟨own, hown, h⟩ := h
  split at h
  · cases h
  · next n hn =>
    refine ⟨merged, groups, n, getKvCacheGroups_ok hg, ?_⟩
    apply layouts_ok (getKvCacheGroups_ok hg) _ (mapM_ok_iff.1 hown) _ (mapM_ok_iff.1 h)
    · intro w hw name s hs
      apply (mergeSpecs_ok hm name s).2
      exact List.mem_flatMap.2 ⟨w.1, List.mem_map_of_mem hw, Dict.get?_eq_some.1 hs⟩
    · intro c hc
      exact (List.min?_eq_some_iff.1 hn).2 _ (List.mem_map_of_mem hc)

/-- What `get_kv_cache_configs` returns is consistent. -/
theorem layout_consistent {workers : List (Dict LayerName KVCacheSpec × Int)} {configs : List KVCacheConfig}
    (h : getKvCacheConfigs cfg workers = .ok configs) :
    ∃ groups n, List.Forall₂ (WorkerLayout cfg groups n) workers configs := by
  obtain ⟨_, groups, n, -, hl⟩ := getKvCacheConfigs_ok h
  exact ⟨groups, n, hl⟩

/-- The specs of a model in two pipeline stages, the second with no third window layer, and the memory of each stage. -/
def twoStages : List (Dict LayerName KVCacheSpec × Int) :=
  let a : AttentionSpec := { blockSize := 2, numKvHeads := 1, headSize := 1, dtype := { name := "half", itemsize := 2 } }
  [(⟨[(['f', '0'], .fullAttention a none none), (['s', '0'], .slidingWindow a 2), (['s', '1'], .slidingWindow a 2)],
      by decide⟩, 200),
    (⟨[(['f', '1'], .fullAttention a none none), (['s', '2'], .slidingWindow a 2)], by decide⟩, 150)]

theorem layout_consistent_twoStages :
    ∃ configs groups n, getKvCacheConfigs { maxModelLen := 8, maxNumBatchedTokens := 4 } twoStages = .ok configs ∧
      List.Forall₂ (WorkerLayout { maxModelLen := 8, maxNumBatchedTokens := 4 } groups n) twoStages configs := by
  have hok : ∃ configs, getKvCacheConfigs { maxModelLen := 8, maxNumBatchedTokens := 4 } twoStages = .ok configs :=
    ⟨_, rfl⟩
  obtain ⟨configs, h⟩ := hok
  obtain ⟨groups, n, hl⟩ := layout_consistent h
  exact ⟨configs, groups, n, h, hl⟩

lemma forScheduler_ok {g : KVCacheGroupSpec}
    (h : ∀ all, g.kvCacheSpec = .uniformType all → all.values ≠ []) :
    ∃ g', g.forScheduler = .ok g' ∧ ∃ s, g'.kvCacheSpec = .merged s := by
  unfold KVCacheGroupSpec.forScheduler
  split
  · next s hs => exact ⟨g, rfl, s, hs⟩
  · next all hall =>
    cases hvalues : all.values with
    | nil => exact absurd hvalues (h all hall)
    | cons s rest => exact ⟨_, rfl, s, rfl⟩

/-- The scheduler gets a configuration, with the workers' number of blocks and one spec a group. -/
theorem generateSchedulerKvCacheConfig_ok {workers : List (Dict LayerName KVCacheSpec × Int)}
    {configs : List KVCacheConfig} (h : getKvCacheConfigs cfg workers = .ok configs) (hne : workers ≠ []) :
    ∃ c, generateSchedulerKvCacheConfig configs = .ok c ∧ (∀ c' ∈ configs, c'.numBlocks = c.numBlocks) ∧
      ∀ g ∈ c.kvCacheGroups, ∃ s, g.kvCacheSpec = .merged s := by
  obtain ⟨merged, groups, n, hg, hl⟩ := getKvCacheConfigs_ok h
  have hblocks : ∀ c' ∈ configs, c'.numBlocks = n := by
    intro c' hc'
    obtain ⟨w, -, hw⟩ := exists_of_mem_right hl hc'
    exact hw.numBlocks
  cases hl with
  | nil => exact absurd rfl hne
  | @cons w c _ rest hw _ =>
    rw [List.forall_mem_cons] at hblocks
    have hsame : ∀ c' ∈ rest, c'.numBlocks = c.numBlocks := fun c' hc' => (hblocks.2 c' hc').trans hblocks.1.symm
    have hscheduler : ∀ g ∈ c.kvCacheGroups, ∃ g', g.forScheduler = .ok g' ∧ ∃ s, g'.kvCacheSpec = .merged s := by
      rw [hw.groups, List.forall_mem_map]
      intro g hmem
      apply forScheduler_ok
      intro all hall
      rcases hg.shape with hmerged | ⟨all', rfl, hne, -⟩
      · obtain ⟨s, hs⟩ := hmerged g hmem
        cases hs.symm.trans hall
      · cases List.mem_singleton.1 hmem
        cases hall
        exact hne
    obtain ⟨gs, hgs⟩ := exists_forall₂ hscheduler
    refine ⟨{ c with kvCacheGroups := gs }, ?_, List.forall_mem_cons.2 ⟨rfl, hsame⟩, ?_⟩
    · apply bind_eq_ok.2 ⟨(), require_true hsame _, _⟩
      exact bind_eq_ok.2 ⟨gs, mapM_ok_iff.2 (hgs.imp fun _ _ hg => hg.1), rfl⟩
    · intro g' hg'
      obtain ⟨g, -, -, hs⟩ := exists_of_mem_right hgs hg'
      exact hs

end Gambit.Layout
