import Gambit.Lib.Cycles
import Gambit.Lib.Loop
import Gambit.Worker.Rows

/-!
# Decodes first, then extends, then prefills

Model of `reorder_batch_to_split_decodes_and_prefills`, `split_decodes_prefills_and_extends` and
`split_decodes_and_prefills` in `vllm/v1/attention/backends/utils.py`. The first one moves the rows of the
batch by swaps along the cycles of a map from sources to destinations, the other two find the boundaries
in the attention metadata of the batch, as the first index of the largest entry of a vector of booleans.

A function that raises on some input gives `none` there, as does a loop that is still running when the fuel
is used up.
-/

namespace Gambit.Worker
open Gambit.Lib

/-- What a request does in a step. -/
inductive Kind where
  | decode
  | extend
  | prefill
  deriving DecidableEq

/-- The number of the region of a kind. -/
def Kind.region : Kind → Nat
  | .decode => 0
  | .extend => 1
  | .prefill => 2

/-- The kind of a request by its scheduled and its computed tokens. -/
def kindOf (decodeThreshold : Nat) (row : Nat × Int) : Kind :=
  if row.1 ≤ decodeThreshold then .decode else if 0 < row.2 then .extend else .prefill

/-- The vector `is_decode`. -/
def isDecode (decodeThreshold : Nat) (scheduled : List Nat) : List Bool :=
  scheduled.map fun q => decide (q ≤ decodeThreshold)

/-- The vector `is_extend`. -/
def isExtend (decodeThreshold : Nat) (scheduled : List Nat) (computed : List Int) : List Bool :=
  List.zipWith (fun d c => !d && decide (0 < c)) (isDecode decodeThreshold scheduled) computed

/-- The vector `is_prefill`. -/
def isPrefill (decodeThreshold : Nat) (scheduled : List Nat) (computed : List Int) : List Bool :=
  List.zipWith (fun d c => !d && decide (c = 0)) (isDecode decodeThreshold scheduled) computed

/-- The vector `req_regions`. -/
def reqRegions (decodeThreshold : Nat) (scheduled : List Nat) (computed : List Int) : List Nat :=
  List.zipWith (fun e p => if p then 2 else if e then 1 else 0)
    (isExtend decodeThreshold scheduled computed) (isPrefill decodeThreshold scheduled computed)

/-- The vector `target_regions`. -/
def targetRegions (numReqs numDecodes numExtends : Nat) : List Nat :=
  (List.range numReqs).map fun i =>
    if numDecodes + numExtends ≤ i then 2 else if numDecodes ≤ i then 1 else 0

/-- The indices that need swapping. -/
def origIndices (regions targets : List Nat) : List Nat :=
  (List.range regions.length).filter fun i => regions.getD i 0 ≠ targets.getD i 0

/-- They again, in the order of the regions of their requests (a stable sort). -/
def srcIndices (regions targets : List Nat) : List Nat :=
  (origIndices regions targets).insertionSort fun i j => regions.getD i 0 ≤ regions.getD j 0

/-- The map from sources to destinations. -/
def srcDestMap (regions targets : List Nat) : Dict Nat Nat :=
  ((srcIndices regions targets).zip (origIndices regions targets)).foldl (fun d e => d.set e.1 e.2) ∅

namespace InputBatch

/-- The scheduled tokens of the requests, by row. -/
def scheduledTokens (b : InputBatch) (numScheduledTokens : Dict ReqId Nat) : Option (List Nat) :=
  b.reqIds.mapM fun id => id.bind numScheduledTokens.get?

/-- The entries of `num_computed_tokens_cpu` for the requests. -/
def computedTokens (b : InputBatch) : List Int :=
  (List.range b.reqIds.length).map fun i => (b.base i).numComputedTokens

/-- Python `reorder_batch_to_split_decodes_and_prefills`: whether the batch was modified, and the batch. -/
def reorderBatchToSplitDecodesAndPrefills (fuel : Nat) (b : InputBatch)
    (numScheduledTokens : Dict ReqId Nat) (decodeThreshold : Nat) : Option (Bool × InputBatch) := do
  let scheduled ← b.scheduledTokens numScheduledTokens
  let regions := reqRegions decodeThreshold scheduled b.computedTokens
  let numDecodes := (isDecode decodeThreshold scheduled).count true
  let numExtends := (isExtend decodeThreshold scheduled b.computedTokens).count true
  let targets := targetRegions b.reqIds.length numDecodes numExtends
  if (origIndices regions targets).isEmpty then return (false, b)
  let m := srcDestMap regions targets
  let (b, _) ← followCycles swapStates fuel m.keys b m
  return (true, b)

end InputBatch

/-- Python `CommonAttentionMetadata`, the fields that the splitters read. -/
structure CommonAttentionMetadata where
  queryStartLocCpu : List Int
  seqLensCpu : List Int
  numReqs : Int
  numActualTokens : Int
  maxQueryLen : Int

/-- The metadata of a batch, as `_prepare_inputs` fills it in. -/
def InputBatch.commonAttnMetadata (b : InputBatch) (scheduled : List Nat) : CommonAttentionMetadata where
  queryStartLocCpu := (scheduled.map Nat.cast).scanl (· + ·) 0
  seqLensCpu := List.zipWith (fun (c : Int) (q : Nat) => c + q) b.computedTokens scheduled
  numReqs := b.numReqs
  numActualTokens := (scheduled.sum : Nat)
  maxQueryLen := (scheduled.max?.getD 0 : Nat)

/-- The first index of the largest entry (`argmax` of a vector of booleans). -/
def argmax (l : List Bool) : Nat := l.idxOf (l.any id)

namespace CommonAttentionMetadata

/-- The vector `query_lens`. -/
def queryLens (m : CommonAttentionMetadata) : List Int :=
  List.zipWith (· - ·) m.queryStartLocCpu.tail m.queryStartLocCpu.dropLast

/-- Python `split_decodes_prefills_and_extends`. -/
def splitDecodesPrefillsAndExtends (m : CommonAttentionMetadata) (decodeThreshold : Int) :
    Option (Int × Int × Int × Int × Int × Int) :=
  if m.maxQueryLen ≤ decodeThreshold then some (m.numReqs, 0, 0, m.numActualTokens, 0, 0)
  else do
    let isPrefillOrExtend := m.queryLens.map fun q => decide (decodeThreshold < q)
    let isPrefill := List.zipWith (· && ·)
      (List.zipWith (fun s q => decide (s = q)) m.seqLensCpu m.queryLens) isPrefillOrExtend
    let firstExtend := argmax isPrefillOrExtend
    let firstPrefill := argmax isPrefill
    let numDecodes : Int := firstExtend
    let numDecodeTokens ← m.queryStartLocCpu[firstExtend]?
    if !isPrefillOrExtend.any id then return (numDecodes, 0, 0, numDecodeTokens, 0, 0)
    let numPrefillsOrExtends := m.numReqs - numDecodes
    let numPrefillOrExtendTokens := m.numActualTokens - numDecodeTokens
    if !isPrefill.any id then
      return (numDecodes, numPrefillsOrExtends, 0, numDecodeTokens, numPrefillOrExtendTokens, 0)
    let numExtends := firstPrefill - numDecodes
    let numPrefills := m.numReqs - firstPrefill
    let numPrefillTokens := m.numActualTokens - (← m.queryStartLocCpu[firstPrefill]?)
    let numExtendTokens := numPrefillOrExtendTokens - numPrefillTokens
    return (numDecodes, numExtends, numPrefills, numDecodeTokens, numExtendTokens, numPrefillTokens)

/-- Python `split_decodes_and_prefills`. -/
def splitDecodesAndPrefills (m : CommonAttentionMetadata) (decodeThreshold : Int) (requireUniform : Bool) :
    Option (Int × Int × Int × Int) :=
  if m.maxQueryLen ≤ decodeThreshold ∧ (requireUniform = false ∨ decodeThreshold ≤ 1) then
    some (m.numReqs, 0, m.numActualTokens, 0)
  else do
    let first ← m.queryLens[0]?
    if decodeThreshold < first then return (0, m.numReqs, 0, m.numActualTokens)
    let isPrefill := m.queryLens.map fun q =>
      if requireUniform then decide (q ≠ first) else decide (decodeThreshold < q)
    if !isPrefill.any id then return (m.numReqs, 0, m.numActualTokens, 0)
    let firstPrefill := argmax isPrefill
    if ¬ ∀ q ∈ m.queryLens.take firstPrefill, q ≤ decodeThreshold then none
    else
      let numDecodes : Int := firstPrefill
      let numDecodeTokens ← m.queryStartLocCpu[firstPrefill]?
      return (numDecodes, m.numReqs - numDecodes, numDecodeTokens, m.numActualTokens - numDecodeTokens)

end CommonAttentionMetadata

/-- The number of tokens of some requests. -/
def tokensOf (rows : List (Nat × Int)) : Nat := (rows.map Prod.fst).sum

/-- The metadata of some requests. -/
def metadataOf (rows : List (Nat × Int)) : CommonAttentionMetadata where
  queryStartLocCpu := (rows.map fun r => (r.1 : Int)).scanl (· + ·) 0
  seqLensCpu := rows.map fun r => r.2 + r.1
  numReqs := rows.length
  numActualTokens := tokensOf rows
  maxQueryLen := ((rows.map Prod.fst).max?.getD 0 : Nat)

section
variable {rows ds es ps : List (Nat × Int)} {t : Nat}

/-- The differences of running sums. -/
lemma zipWith_scanl (l : List Int) (a : Int) :
    List.zipWith (· - ·) (l.scanl (· + ·) a).tail (l.scanl (· + ·) a).dropLast = l := by
  induction l generalizing a with
  | nil => simp
  | cons x l ih =>
    have hne : l.scanl (· + ·) (a + x) ≠ [] := List.scanl_ne_nil
    rw [List.scanl_cons, List.tail_cons, List.dropLast_cons_of_ne_nil hne]
    cases l with
    | nil => simp
    | cons y l =>
      have ih := ih (a + x)
      rw [List.scanl_cons, List.tail_cons] at ih
      rw [List.scanl_cons, List.zipWith_cons_cons, ih]
      congr 1
      omega

@[simp] lemma queryLens_metadataOf : (metadataOf rows).queryLens = rows.map fun r => (r.1 : Int) :=
  zipWith_scanl _ 0

/-- A running sum. -/
lemma queryStartLoc_metadataOf {k : Nat} (hk : k ≤ rows.length) :
    (metadataOf rows).queryStartLocCpu[k]? = some (tokensOf (rows.take k) : Int) := by
  have hsum : ∀ (l : List (Nat × Int)) (a : Int),
      (l.map fun r => (r.1 : Int)).foldl (· + ·) a = a + tokensOf l := by
    intro l
    induction l with
    | nil => simp [tokensOf]
    | cons r l ih =>
      intro a
      rw [List.map_cons, List.foldl_cons, ih, tokensOf, tokensOf, List.map_cons, List.sum_cons]
      omega
  rw [metadataOf, List.getElem?_scanl, List.length_map, if_pos hk, ← List.map_take, hsum, zero_add]

/-- The longest query is within the threshold when every request is. -/
lemma maxQueryLen_le : (metadataOf rows).maxQueryLen ≤ t ↔ ∀ r ∈ rows, r.1 ≤ t := by
  show (((rows.map Prod.fst).max?.getD 0 : Nat) : Int) ≤ t ↔ _
  rw [Nat.cast_le]
  cases h : (rows.map Prod.fst).max? with
  | none =>
    rw [List.max?_eq_none_iff, List.map_eq_nil_iff] at h
    simp [h]
  | some a =>
    rw [Option.getD_some, List.max?_le_iff h]
    simp

/-- Some entry is true. -/
lemma any_replicate (a b : Nat) :
    (List.replicate a false ++ List.replicate b true).any id = decide (b ≠ 0) := by
  simp

/-- The first index of a true entry, or the first index of all. -/
lemma argmax_replicate (a b : Nat) :
    argmax (List.replicate a false ++ List.replicate b true) = if b = 0 then 0 else a := by
  rw [argmax, any_replicate]
  by_cases hb : b = 0
  · subst hb
    cases a <;> simp [List.replicate_succ]
  · have hmem : true ∉ List.replicate a false := by simp
    obtain ⟨b, rfl⟩ := Nat.exists_eq_succ_of_ne_zero hb
    rw [if_neg hb, decide_eq_true hb, List.idxOf_append_of_notMem hmem, List.length_replicate,
      List.replicate_succ, List.idxOf_cons_self, Nat.add_zero]

/-- The requests of the three kinds, one after the other. -/
structure InRegions (t : Nat) (ds es ps : List (Nat × Int)) : Prop where
  decodes : ∀ r ∈ ds, kindOf t r = .decode
  extending : ∀ r ∈ es, kindOf t r = .extend
  prefills : ∀ r ∈ ps, kindOf t r = .prefill
  computed : ∀ r ∈ ds ++ es ++ ps, 0 ≤ r.2

lemma kindOf_eq_decode {r : Nat × Int} : kindOf t r = .decode ↔ r.1 ≤ t := by
  unfold kindOf
  split
  · simpa
  · split <;> simp <;> omega

lemma kindOf_eq_extend {r : Nat × Int} : kindOf t r = .extend ↔ t < r.1 ∧ 0 < r.2 := by
  unfold kindOf
  split
  · simp; omega
  · split <;> simp <;> omega

lemma kindOf_eq_prefill {r : Nat × Int} (h : 0 ≤ r.2) : kindOf t r = .prefill ↔ t < r.1 ∧ r.2 = 0 := by
  unfold kindOf
  split
  · simp; omega
  · split <;> simp <;> omega

/-- The vector of the requests that are no decodes. -/
lemma InRegions.notDecode (h : InRegions t ds es ps) :
    ((ds ++ es ++ ps).map fun r => decide ((t : Int) < r.1)) =
      List.replicate ds.length false ++ List.replicate (es.length + ps.length) true := by
  have hd : (ds.map fun r => decide ((t : Int) < r.1)) = List.replicate ds.length false := by
    apply List.map_eq_replicate_iff.2
    intro r hr
    have := kindOf_eq_decode.1 (h.decodes r hr)
    exact decide_eq_false (by omega)
  have he : (es.map fun r => decide ((t : Int) < r.1)) = List.replicate es.length true := by
    apply List.map_eq_replicate_iff.2
    intro r hr
    have := kindOf_eq_extend.1 (h.extending r hr)
    exact decide_eq_true (by omega)
  have hp : (ps.map fun r => decide ((t : Int) < r.1)) = List.replicate ps.length true := by
    apply List.map_eq_replicate_iff.2
    intro r hr
    have := (kindOf_eq_prefill (h.computed r (List.mem_append_right _ hr))).1 (h.prefills r hr)
    exact decide_eq_true (by omega)
  rw [List.map_append, List.map_append, hd, he, hp, List.append_assoc, List.replicate_append_replicate]

/-- The vector of the prefills. -/
lemma InRegions.prefill (h : InRegions t ds es ps) :
    ((ds ++ es ++ ps).map fun r => decide (r.2 + (r.1 : Int) = r.1) && decide ((t : Int) < r.1)) =
      List.replicate (ds.length + es.length) false ++ List.replicate ps.length true := by
  have hd : (ds.map fun r => decide (r.2 + (r.1 : Int) = r.1) && decide ((t : Int) < r.1)) =
      List.replicate ds.length false := by
    apply List.map_eq_replicate_iff.2
    intro r hr
    have := kindOf_eq_decode.1 (h.decodes r hr)
    rw [decide_eq_false (by omega : ¬ (t : Int) < r.1), Bool.and_false]
  have he : (es.map fun r => decide (r.2 + (r.1 : Int) = r.1) && decide ((t : Int) < r.1)) =
      List.replicate es.length false := by
    apply List.map_eq_replicate_iff.2
    intro r hr
    have := kindOf_eq_extend.1 (h.extending r hr)
    rw [decide_eq_false (by omega : ¬ r.2 + (r.1 : Int) = r.1), Bool.false_and]
  have hp : (ps.map fun r => decide (r.2 + (r.1 : Int) = r.1) && decide ((t : Int) < r.1)) =
      List.replicate ps.length true := by
    apply List.map_eq_replicate_iff.2
    intro r hr
    have := (kindOf_eq_prefill (h.computed r (List.mem_append_right _ hr))).1 (h.prefills r hr)
    rw [decide_eq_true (by omega : r.2 + (r.1 : Int) = r.1), Bool.true_and]
    exact decide_eq_true (by omega)
  rw [List.map_append, List.map_append, hd, he, hp, List.replicate_append_replicate]

/-- All requests are decodes exactly if the longest query is within the threshold. -/
lemma InRegions.maxQueryLen_le (h : InRegions t ds es ps) :
    (metadataOf (ds ++ es ++ ps)).maxQueryLen ≤ t ↔ es = [] ∧ ps = [] := by
  rw [Gambit.Worker.maxQueryLen_le]
  constructor
  · intro hall
    constructor
    · apply List.eq_nil_iff_forall_not_mem.2
      intro r hr
      have h1 := hall r (List.mem_append_left _ (List.mem_append_right _ hr))
      have h2 := kindOf_eq_extend.1 (h.extending r hr)
      omega
    · apply List.eq_nil_iff_forall_not_mem.2
      intro r hr
      have h1 := hall r (List.mem_append_right _ hr)
      have h2 := (kindOf_eq_prefill (h.computed r (List.mem_append_right _ hr))).1 (h.prefills r hr)
      omega
  · rintro ⟨rfl, rfl⟩ r hr
    rw [List.append_nil, List.append_nil] at hr
    exact kindOf_eq_decode.1 (h.decodes r hr)

lemma tokensOf_append (l l' : List (Nat × Int)) : tokensOf (l ++ l') = tokensOf l + tokensOf l' := by
  rw [tokensOf, List.map_append, List.sum_append]
  rfl

/-- The requests of each kind. -/
lemma InRegions.filter (h : InRegions t ds es ps) :
    (ds ++ es ++ ps).filter (fun r => kindOf t r = .decode) = ds ∧
      (ds ++ es ++ ps).filter (fun r => kindOf t r = .extend) = es ∧
      (ds ++ es ++ ps).filter (fun r => kindOf t r = .prefill) = ps := by
  have hall : ∀ {k : Kind} {l : List (Nat × Int)}, (∀ r ∈ l, kindOf t r = k) →
      l.filter (fun r => kindOf t r = k) = l := by
    intro k l hl
    apply List.filter_eq_self.2
    intro r hr
    exact decide_eq_true (hl r hr)
  have hnone : ∀ {k k' : Kind} {l : List (Nat × Int)}, (∀ r ∈ l, kindOf t r = k) → k ≠ k' →
      l.filter (fun r => kindOf t r = k') = [] := by
    intro k k' l hl hne
    apply List.filter_eq_nil_iff.2
    intro r hr
    rw [decide_eq_true_iff, hl r hr]
    exact hne
  simp only [List.filter_append]
  refine ⟨?_, ?_, ?_⟩
  · rw [hall h.decodes, hnone h.extending (by decide), hnone h.prefills (by decide)]
    simp
  · rw [hnone h.decodes (by decide), hall h.extending, hnone h.prefills (by decide)]
    simp
  · rw [hnone h.decodes (by decide), hnone h.extending (by decide), hall h.prefills]
    simp

/-- Requests whose regions stand one after the other. -/
lemma exists_inRegions {d e p : Nat} (hc : ∀ r ∈ rows, 0 ≤ r.2)
    (h : rows.map (fun r => (kindOf t r).region) =
      List.replicate d 0 ++ List.replicate e 1 ++ List.replicate p 2) :
    ∃ ds es ps, rows = ds ++ es ++ ps ∧ InRegions t ds es ps := by
  obtain ⟨l, ps, rfl, hl, hps⟩ := List.map_eq_append_iff.1 h
  obtain ⟨ds, es, rfl, hds, hes⟩ := List.map_eq_append_iff.1 hl
  have hkind : ∀ {k : Kind} {l : List (Nat × Int)} {n : Nat},
      l.map (fun r => (kindOf t r).region) = List.replicate n k.region → ∀ r ∈ l, kindOf t r = k := by
    intro k l n hl r hr
    have hmem : (kindOf t r).region ∈ List.replicate n k.region := hl ▸ List.mem_map_of_mem hr
    have heq := List.eq_of_mem_replicate hmem
    revert heq
    cases kindOf t r <;> cases k <;> decide
  exact ⟨ds, es, ps, rfl, hkind (k := .decode) hds, hkind (k := .extend) hes, hkind (k := .prefill) hps, hc⟩

/-- Where the decodes end. -/
lemma queryStartLoc_decodes :
    (metadataOf (ds ++ es ++ ps)).queryStartLocCpu[ds.length]? = some (tokensOf ds : Int) := by
  rw [queryStartLoc_metadataOf (by simp), List.append_assoc, List.take_left]

/-- Where the prefills begin. -/
lemma queryStartLoc_prefills :
    (metadataOf (ds ++ es ++ ps)).queryStartLocCpu[ds.length + es.length]? =
      some (tokensOf ds + tokensOf es : Int) := by
  rw [← List.length_append, queryStartLoc_metadataOf (by simp), List.take_left, tokensOf_append, Nat.cast_add]

lemma numReqs_metadataOf :
    (metadataOf (ds ++ es ++ ps)).numReqs = ds.length + es.length + ps.length := by
  simp [metadataOf, add_assoc]

lemma numActualTokens_metadataOf :
    (metadataOf (ds ++ es ++ ps)).numActualTokens = tokensOf ds + tokensOf es + tokensOf ps := by
  simp [metadataOf, tokensOf_append, add_assoc]

/-- The vector of the long queries. -/
lemma InRegions.longQueries (h : InRegions t ds es ps) :
    ((metadataOf (ds ++ es ++ ps)).queryLens.map fun q => decide ((t : Int) < q)) =
      List.replicate ds.length false ++ List.replicate (es.length + ps.length) true := by
  rw [queryLens_metadataOf, List.map_map]
  exact h.notDecode

/-- On a batch in regions the three counts are found. -/
lemma InRegions.splitDecodesPrefillsAndExtends (h : InRegions t ds es ps) :
    (metadataOf (ds ++ es ++ ps)).splitDecodesPrefillsAndExtends t =
      some ((ds.length : Int), (es.length : Int), (ps.length : Int),
        (tokensOf ds : Int), (tokensOf es : Int), (tokensOf ps : Int)) := by
  unfold CommonAttentionMetadata.splitDecodesPrefillsAndExtends
  by_cases hnil : es = [] ∧ ps = []
  · rw [if_pos (h.maxQueryLen_le.2 hnil), numReqs_metadataOf, numActualTokens_metadataOf,
      hnil.1, hnil.2]
    simp [tokensOf]
  rw [if_neg (mt h.maxQueryLen_le.1 hnil)]
  have hpos : es.length + ps.length ≠ 0 := by
    intro hc
    apply hnil
    exact ⟨List.length_eq_zero_iff.1 (by omega), List.length_eq_zero_iff.1 (by omega)⟩
  have hpre : List.zipWith (· && ·)
      (List.zipWith (fun s q => decide (s = q)) (metadataOf (ds ++ es ++ ps)).seqLensCpu
        (metadataOf (ds ++ es ++ ps)).queryLens)
      (List.replicate ds.length false ++ List.replicate (es.length + ps.length) true) =
      List.replicate (ds.length + es.length) false ++ List.replicate ps.length true := by
    rw [← h.notDecode, queryLens_metadataOf, ← h.prefill, metadataOf, List.zipWith_map,
      List.zipWith_self, List.zipWith_map, List.zipWith_self]
  simp only [h.longQueries, hpre, any_replicate, argmax_replicate, if_neg hpos, queryStartLoc_decodes,
    numReqs_metadataOf, numActualTokens_metadataOf, Option.bind_eq_bind, Option.bind_some,
    decide_eq_true hpos, Bool.not_true, Bool.false_eq_true, if_false]
  by_cases hps : ps = []
  · subst hps
    simp [tokensOf]
  · have hlen : ps.length ≠ 0 := fun hc => hps (List.length_eq_zero_iff.1 hc)
    simp only [if_neg hlen, decide_eq_true hlen, Bool.not_true, Bool.false_eq_true, if_false,
      queryStartLoc_prefills, Option.bind_some, Option.pure_def, Option.some.injEq, Prod.mk.injEq, true_and]
    push_cast
    refine ⟨?_, ?_, ?_, ?_⟩ <;> omega

/-- On a batch in regions the decodes are found. -/
lemma InRegions.splitDecodesAndPrefills (h : InRegions t ds es ps) :
    (metadataOf (ds ++ es ++ ps)).splitDecodesAndPrefills t false =
      some ((ds.length : Int), (es.length + ps.length : Int), (tokensOf ds : Int),
        (tokensOf es + tokensOf ps : Int)) := by
  unfold CommonAttentionMetadata.splitDecodesAndPrefills
  by_cases hnil : es = [] ∧ ps = []
  · rw [if_pos ⟨h.maxQueryLen_le.2 hnil, .inl rfl⟩, numReqs_metadataOf, numActualTokens_metadataOf,
      hnil.1, hnil.2]
    simp [tokensOf]
  rw [if_neg fun hc => hnil (h.maxQueryLen_le.1 hc.1)]
  have hpos : es.length + ps.length ≠ 0 := by
    intro hc
    apply hnil
    exact ⟨List.length_eq_zero_iff.1 (by omega), List.length_eq_zero_iff.1 (by omega)⟩
  cases ds with
  | nil =>
    cases hrows : es ++ ps with
    | nil => exact absurd (List.append_eq_nil_iff.1 hrows) hnil
    | cons r rest =>
      have hfirst : (metadataOf ([] ++ es ++ ps)).queryLens[0]? = some (r.1 : Int) := by
        rw [queryLens_metadataOf, List.nil_append, hrows]
        rfl
      have hmem : r ∈ es ++ ps := hrows ▸ List.mem_cons_self
      have hlt : (t : Int) < r.1 := by
        cases List.mem_append.1 hmem with
        | inl he =>
          have := kindOf_eq_extend.1 (h.extending r he)
          omega
        | inr hp =>
          have := (kindOf_eq_prefill (h.computed r (List.mem_append_right _ hp))).1 (h.prefills r hp)
          omega
      simp only [hfirst, Option.bind_eq_bind, Option.bind_some, if_pos hlt, numReqs_metadataOf,
        numActualTokens_metadataOf]
      simp [tokensOf]
  | cons d ds =>
    have hfirst : (metadataOf (d :: ds ++ es ++ ps)).queryLens[0]? = some (d.1 : Int) := by
      rw [queryLens_metadataOf]
      rfl
    have hle : ¬ (t : Int) < d.1 := by
      have := kindOf_eq_decode.1 (h.decodes d List.mem_cons_self)
      omega
    have hassert : ∀ q ∈ (metadataOf (d :: ds ++ es ++ ps)).queryLens.take (d :: ds).length, q ≤ (t : Int) := by
      rw [queryLens_metadataOf, ← List.map_take, List.append_assoc, List.take_left]
      intro q hq
      obtain ⟨r, hr, rfl⟩ := List.mem_map.1 hq
      have := kindOf_eq_decode.1 (h.decodes r hr)
      omega
    simp only [hfirst, Option.bind_eq_bind, Option.bind_some, if_neg hle, Bool.false_eq_true, if_false,
      h.longQueries, any_replicate, argmax_replicate, if_neg hpos, decide_eq_true hpos, Bool.not_true,
      queryStartLoc_decodes, numReqs_metadataOf, numActualTokens_metadataOf]
    rw [if_neg (not_not.2 hassert)]
    simp only [Option.pure_def, Option.some.injEq, Prod.mk.injEq, true_and]
    refine ⟨?_, ?_⟩ <;> omega

end

section
variable {R : List Nat}

/-- The target regions one after the other. -/
lemma targetRegions_eq (d e p : Nat) :
    targetRegions (d + e + p) d e = List.replicate d 0 ++ List.replicate e 1 ++ List.replicate p 2 := by
  apply List.ext_getElem
  · simp [targetRegions, add_assoc]
  · intro i hi hi'
    have hlt : i < d + e + p := by simpa [targetRegions] using hi
    simp only [targetRegions, List.getElem_map, List.getElem_range]
    by_cases h1 : i < d
    · rw [if_neg (by omega), if_neg (by omega), List.getElem_append_left (by simp; omega),
        List.getElem_append_left (by simpa), List.getElem_replicate]
    by_cases h2 : i < d + e
    · rw [if_neg (by omega), if_pos (by omega), List.getElem_append_left (by simpa),
        List.getElem_append_right (by simp; omega), List.getElem_replicate]
    · rw [if_pos (by omega), List.getElem_append_right (by simp; omega), List.getElem_replicate]

/-- The counts of the three regions are all there is. -/
lemma length_regions (hR : ∀ r ∈ R, r < 3) : R.length = R.count 0 + R.count 1 + R.count 2 := by
  induction R with
  | nil => rfl
  | cons r R ih =>
    have h := ih fun x hx => hR x (List.mem_cons_of_mem _ hx)
    have hr := hR r List.mem_cons_self
    rw [List.length_cons, List.count_cons, List.count_cons, List.count_cons, h]
    interval_cases r <;> simp <;> omega

/-- The target regions are the regions in another order. -/
lemma targetRegions_perm (hR : ∀ r ∈ R, r < 3) :
    R.Perm (targetRegions R.length (R.count 0) (R.count 1)) := by
  rw [length_regions hR, targetRegions_eq]
  apply List.perm_iff_count.2
  intro a
  rw [List.count_append, List.count_append, List.count_replicate, List.count_replicate, List.count_replicate]
  by_cases ha : a < 3
  · interval_cases a <;> simp
  · have hmem : a ∉ R := fun hc => ha (hR a hc)
    have h0 : ¬ 0 = a := by omega
    have h1 : ¬ 1 = a := by omega
    have h2 : ¬ 2 = a := by omega
    simp [List.count_eq_zero_of_not_mem hmem, h0, h1, h2]

/-- The target regions ascend. -/
lemma getD_targetRegions {n d e i : Nat} (hi : i < n) :
    (targetRegions n d e).getD i 0 = if d + e ≤ i then 2 else if d ≤ i then 1 else 0 := by
  rw [List.getD_eq_getElem?_getD, targetRegions, List.getElem?_map, List.getElem?_range hi]
  rfl

lemma origIndices_nodup {T : List Nat} : (origIndices R T).Nodup := List.nodup_range.filter _

lemma srcIndices_perm {T : List Nat} : (srcIndices R T).Perm (origIndices R T) :=
  List.perm_insertionSort _ _

/-- A list by index. -/
lemma map_getD_range (l : List Nat) : (List.range l.length).map (fun i => l.getD i 0) = l := by
  apply List.ext_getElem
  · simp
  · intro i hi hi'
    rw [List.getElem_map, List.getElem_range, List.getD_eq_getElem _ _ hi']

/-- The requests to be moved have, in the order of the sources, the regions of the destinations. -/
lemma map_srcIndices (hR : ∀ r ∈ R, r < 3) {T : List Nat}
    (hT : T = targetRegions R.length (R.count 0) (R.count 1)) :
    (srcIndices R T).map (fun i => R.getD i 0) = (origIndices R T).map fun i => T.getD i 0 := by
  have hlen : T.length = R.length := by rw [hT, targetRegions, List.length_map, List.length_range]
  have hperm : ((srcIndices R T).map fun i => R.getD i 0).Perm ((origIndices R T).map fun i => T.getD i 0) := by
    refine (srcIndices_perm.map _).trans ?_
    have hall : ((List.range R.length).map fun i => R.getD i 0).Perm
        ((List.range R.length).map fun i => T.getD i 0) := by
      rw [map_getD_range, ← hlen, map_getD_range, hT]
      exact targetRegions_perm hR
    have hsplit : ∀ f : Nat → Nat, ((origIndices R T).map f ++
        ((List.range R.length).filter fun i => !decide (R.getD i 0 ≠ T.getD i 0)).map f).Perm
          ((List.range R.length).map f) := by
      intro f
      rw [← List.map_append]
      exact (List.filter_append_perm _ _).map f
    -- the rows that stay have the region of their request
    have hstay : ((List.range R.length).filter fun i => !decide (R.getD i 0 ≠ T.getD i 0)).map
        (fun i => R.getD i 0) =
        ((List.range R.length).filter fun i => !decide (R.getD i 0 ≠ T.getD i 0)).map
          fun i => T.getD i 0 := by
      apply List.map_congr_left
      intro i hi
      simpa using (List.mem_filter.1 hi).2
    have h := ((hsplit _).trans hall).trans (hsplit _).symm
    rw [hstay] at h
    exact (List.perm_append_right_iff _).1 h
  refine List.Perm.eq_of_sortedLE (List.Pairwise.sortedLE ?_) (List.Pairwise.sortedLE ?_) hperm
  · apply List.pairwise_map.2
    have : Std.Total fun i j : Nat => R.getD i 0 ≤ R.getD j 0 := ⟨fun i j => Nat.le_total _ _⟩
    have : IsTrans Nat fun i j : Nat => R.getD i 0 ≤ R.getD j 0 := ⟨fun _ _ _ h h' => Nat.le_trans h h'⟩
    exact List.pairwise_insertionSort _ _
  · apply List.pairwise_map.2
    have hlt : (origIndices R T).Pairwise (· < ·) := List.pairwise_lt_range.filter _
    refine hlt.imp_of_mem fun hi hj hij => ?_
    have hi' := List.mem_range.1 (List.mem_filter.1 hi).1
    have hj' := List.mem_range.1 (List.mem_filter.1 hj).1
    rw [hT, getD_targetRegions hi', getD_targetRegions hj']
    split <;> split <;> (try split) <;> (try split) <;> omega

end

namespace InputBatch
variable {b b' : InputBatch} {out : Dict ReqId Nat} {t : Nat} {σ : Equiv.Perm Nat}

/-- The scheduled and the computed tokens of the request of a row. -/
def row (b : InputBatch) (out : Dict ReqId Nat) (i : Nat) : Nat × Int :=
  (((b.reqIds[i]?).join.bind out.get?).getD 0, (b.base i).numComputedTokens)

/-- Those of all requests. -/
def rows (b : InputBatch) (out : Dict ReqId Nat) : List (Nat × Int) := (List.range b.numReqs).map (b.row out)

/-- Those of the requests of a kind. -/
def rowsOf (b : InputBatch) (out : Dict ReqId Nat) (t : Nat) (k : Kind) : List (Nat × Int) :=
  (b.rows out).filter fun r => kindOf t r = k

/-- The rows of one batch are those of another in a different order. -/
structure Arranged (b b' : InputBatch) (σ : Equiv.Perm Nat) : Prop where
  packed : b'.Packed
  numReqs : b'.numReqs = b.numReqs
  pooling : b'.isPoolingModel = b.isPoolingModel
  owner : ∀ i, b'.owner i = b.owner (σ i)
  base : ∀ i, b'.base i = b.base (σ i)
  sampling : b.isPoolingModel = false → ∀ i, b'.sampling i = b.sampling (σ i)

lemma Arranged.refl (h : b.Packed) : Arranged b b 1 :=
  ⟨h, rfl, rfl, fun _ => rfl, fun _ => rfl, fun _ _ => rfl⟩

/-- The columns after a swap of two filled rows. -/
lemma swapStates_columns {i j : Nat} (h : b.Packed) (hi : i < b.numReqs) (hj : j < b.numReqs) :
    (b.swapStates i j).isPoolingModel = b.isPoolingModel ∧
      (b.swapStates i j).owner = swapValues b.owner i j ∧ (b.swapStates i j).base = swapValues b.base i j ∧
      (b.isPoolingModel = false → (b.swapStates i j).sampling = swapValues b.sampling i j) := by
  obtain ⟨r1, ho1⟩ := Option.isSome_iff_exists.1 ((h.full i).2 hi)
  obtain ⟨r2, ho2⟩ := Option.isSome_iff_exists.1 ((h.full j).2 hj)
  have e1 : (b.reqIds[i]?).join = some r1.reqId := by rw [h.ids, ho1, Option.map_some]
  have e2 : (b.reqIds[j]?).join = some r2.reqId := by rw [h.ids, ho2, Option.map_some]
  unfold swapStates
  rw [e1, e2]
  dsimp only
  split
  · next hp =>
    refine ⟨rfl, rfl, rfl, fun hf => ?_⟩
    rw [hp] at hf
    cases hf
  · exact ⟨rfl, rfl, rfl, fun _ => rfl⟩

/-- A swap of two filled rows. -/
lemma Arranged.swapStates {i j : Nat} (h : Arranged b b' σ) (hi : i < b.numReqs) (hj : j < b.numReqs) :
    Arranged b (b'.swapStates i j) (σ * Equiv.swap i j) := by
  rw [← h.numReqs] at hi hj
  obtain ⟨hpacked, hnum⟩ := h.packed.swapStates hi hj
  obtain ⟨hpool, hown, hbase, hsamp⟩ := swapStates_columns h.packed hi hj
  refine ⟨hpacked, hnum.trans h.numReqs, hpool.trans h.pooling, fun k => ?_, fun k => ?_, fun hp k => ?_⟩
  · rw [hown, swapValues_eq, h.owner, Equiv.Perm.mul_apply]
  · rw [hbase, swapValues_eq, h.base, Equiv.Perm.mul_apply]
  · rw [hsamp (h.pooling.trans hp), swapValues_eq, h.sampling hp, Equiv.Perm.mul_apply]

/-- The ids move with the rows. -/
lemma Arranged.reqIds (h : Arranged b b' σ) (hb : b.Packed) (i : Nat) :
    (b'.reqIds[i]?).join = (b.reqIds[σ i]?).join := by
  rw [h.packed.ids, hb.ids, h.owner]

lemma Arranged.row (h : Arranged b b' σ) (hb : b.Packed) (i : Nat) : b'.row out i = b.row out (σ i) := by
  rw [InputBatch.row, InputBatch.row, h.reqIds hb, h.base]

/-- The ids by index. -/
lemma Packed.reqIds_eq (h : b.Packed) : b.reqIds = (List.range b.numReqs).map fun i => (b.reqIds[i]?).join := by
  apply List.ext_getElem
  · rw [List.length_map, List.length_range, h.length]
  · intro i hi hi'
    rw [List.getElem_map, List.getElem_range, List.getElem?_eq_getElem hi]
    rfl

/-- The columns that the reordering reads. -/
lemma Packed.scheduledTokens (h : b.Packed) (hout : ∀ rid ∈ b.reqIdToIndex, rid ∈ out) :
    b.scheduledTokens out = some ((b.rows out).map Prod.fst) := by
  have hget : ∀ id ∈ b.reqIds, id.bind out.get? = some ((id.bind out.get?).getD 0) := by
    intro id hid
    obtain ⟨i, hi, rfl⟩ := List.getElem_of_mem hid
    obtain ⟨r, hr⟩ := Option.isSome_iff_exists.1 ((h.full i).2 (h.length ▸ hi))
    have hrow : b.reqIds[i] = some r.reqId := by
      have hids := h.ids i
      rw [List.getElem?_eq_getElem hi, hr] at hids
      exact hids
    have hmem := hout r.reqId (Dict.mem_of_get? ((h.index r.reqId i).2 (by rw [hr, Option.map_some])))
    obtain ⟨n, hn⟩ := Dict.mem_iff_get?.1 hmem
    rw [hrow, Option.bind_some, hn, Option.getD_some]
  rw [InputBatch.scheduledTokens, mapM_eq_some_map hget, rows, List.map_map]
  congr 1
  nth_rewrite 1 [h.reqIds_eq]
  rw [List.map_map]
  rfl

lemma Packed.computedTokens (h : b.Packed) (out : Dict ReqId Nat) : b.computedTokens = (b.rows out).map Prod.snd := by
  rw [InputBatch.computedTokens, h.length, rows, List.map_map]
  rfl

/-- The vectors of the reordering, request by request. -/
lemma isDecode_rows (rows : List (Nat × Int)) :
    isDecode t (rows.map Prod.fst) = rows.map fun r => decide (kindOf t r = .decode) := by
  rw [isDecode, List.map_map]
  apply List.map_congr_left
  intro r _
  simp [kindOf_eq_decode]

lemma isExtend_rows (rows : List (Nat × Int)) :
    isExtend t (rows.map Prod.fst) (rows.map Prod.snd) =
      rows.map fun r => decide (kindOf t r = .extend) := by
  rw [isExtend, isDecode_rows, List.zipWith_map, List.zipWith_self]
  apply List.map_congr_left
  intro r _
  unfold kindOf
  split
  · simp
  · split <;> simp_all

lemma reqRegions_rows {rows : List (Nat × Int)} (hc : ∀ r ∈ rows, 0 ≤ r.2) :
    reqRegions t (rows.map Prod.fst) (rows.map Prod.snd) = rows.map fun r => (kindOf t r).region := by
  rw [reqRegions, isExtend_rows, isPrefill, isDecode_rows, List.zipWith_map, List.zipWith_self,
    List.zipWith_map, List.zipWith_self]
  apply List.map_congr_left
  intro r hr
  have hnn := hc r hr
  cases hk : kindOf t r with
  | decode => simp [Kind.region]
  | extend =>
    have := (kindOf_eq_extend.1 hk).2
    have hne : r.2 ≠ 0 := by omega
    simp [Kind.region, hne]
  | prefill =>
    have := ((kindOf_eq_prefill hnn).1 hk).2
    simp [Kind.region, this]

/-- The number of requests of a kind, as the reordering counts them. -/
lemma count_region (rows : List (Nat × Int)) (k : Kind) :
    (rows.map fun r => (kindOf t r).region).count k.region =
      (rows.map fun r => decide (kindOf t r = k)).count true := by
  have hinj : ∀ k k' : Kind, k.region = k'.region ↔ k = k' := by
    intro k k'
    cases k <;> cases k' <;> decide
  induction rows with
  | nil => rfl
  | cons r rows ih =>
    rw [List.map_cons, List.map_cons, List.count_cons, List.count_cons, ih]
    congr 1
    simp [hinj]

/-- The regions of the requests. -/
def regions (b : InputBatch) (out : Dict ReqId Nat) (t : Nat) : List Nat :=
  (b.rows out).map fun r => (kindOf t r).region

/-- The regions of the rows. -/
def targets (b : InputBatch) (out : Dict ReqId Nat) (t : Nat) : List Nat :=
  targetRegions (b.regions out t).length ((b.regions out t).count 0) ((b.regions out t).count 1)

@[simp] lemma length_regions' : (b.regions out t).length = b.numReqs := by
  rw [regions, List.length_map, rows, List.length_map, List.length_range]

lemma regions_lt : ∀ r ∈ b.regions out t, r < 3 := by
  intro r hr
  obtain ⟨x, -, rfl⟩ := List.mem_map.1 hr
  cases kindOf t x <;> decide

lemma getD_regions {i : Nat} (hi : i < b.numReqs) :
    (b.regions out t).getD i 0 = (kindOf t (b.row out i)).region := by
  rw [List.getD_eq_getElem?_getD, regions, rows, List.map_map, List.getElem?_map, List.getElem?_range hi]
  rfl

/-- The map sends the sources to the destinations. -/
lemma srcDestMap_entries (R T : List Nat) :
    (srcDestMap R T).entries = (srcIndices R T).zip (origIndices R T) := by
  have hfst : ((srcIndices R T).zip (origIndices R T)).map Prod.fst = srcIndices R T :=
    List.map_fst_zip srcIndices_perm.length_eq.le
  have hnd : (srcIndices R T).Nodup := srcIndices_perm.nodup_iff.2 origIndices_nodup
  exact Dict.entries_foldl_set (hfst.symm ▸ hnd) fun _ _ hc => List.not_mem_nil hc

lemma srcDestMap_keys (R T : List Nat) : (srcDestMap R T).keys = srcIndices R T := by
  rw [Dict.keys, srcDestMap_entries, List.map_fst_zip srcIndices_perm.length_eq.le]

lemma mem_origIndices {i : Nat} : i ∈ origIndices (b.regions out t) (b.targets out t) ↔
    i < b.numReqs ∧ (kindOf t (b.row out i)).region ≠ (b.targets out t).getD i 0 := by
  rw [origIndices, List.mem_filter, List.mem_range, length_regions', decide_eq_true_iff]
  constructor
  · rintro ⟨hi, hne⟩
    exact ⟨hi, getD_regions hi ▸ hne⟩
  · rintro ⟨hi, hne⟩
    exact ⟨hi, getD_regions hi ▸ hne⟩

/-- A source at a position has the region of the destination there. -/
lemma region_srcIndices {k : Nat} (hk : k < (srcIndices (b.regions out t) (b.targets out t)).length)
    (hk' : k < (origIndices (b.regions out t) (b.targets out t)).length) :
    (kindOf t (b.row out (srcIndices (b.regions out t) (b.targets out t))[k])).region =
      (b.targets out t).getD (origIndices (b.regions out t) (b.targets out t))[k] 0 := by
  have hmap := map_srcIndices (T := b.targets out t) regions_lt rfl
  have hlt := (mem_origIndices.1 (srcIndices_perm.mem_iff.1 (List.getElem_mem hk))).1
  have hget := congrArg (fun l : List Nat => l[k]?) hmap
  simp only [List.getElem?_map, List.getElem?_eq_getElem hk, List.getElem?_eq_getElem hk', Option.map_some,
    Option.some.injEq] at hget
  rw [← getD_regions hlt]
  exact hget

lemma srcIndices_nodup : (srcIndices (b.regions out t) (b.targets out t)).Nodup :=
  srcIndices_perm.nodup_iff.2 origIndices_nodup

/-- The row whose request a row gets. -/
def source (b : InputBatch) (out : Dict ReqId Nat) (t : Nat) : Equiv.Perm Nat :=
  sendPerm origIndices_nodup (@srcIndices_nodup b out t) srcIndices_perm.symm

/-- A row that is not swapped keeps its request. -/
lemma source_of_notMem {i : Nat} (hi : i ∉ origIndices (b.regions out t) (b.targets out t)) :
    b.source out t i = i :=
  sendTo_of_notMem srcIndices_perm.length_eq.symm hi

lemma source_of_le {i : Nat} (hi : b.numReqs ≤ i) : b.source out t i = i := by
  apply source_of_notMem
  intro hmem
  exact absurd (mem_origIndices.1 hmem).1 (by omega)

/-- A request that stands in its region is not moved. -/
lemma source_of_eq {i : Nat} (he : (kindOf t (b.row out i)).region = (b.targets out t).getD i 0) :
    b.source out t i = i := by
  apply source_of_notMem
  intro hmem
  exact (mem_origIndices.1 hmem).2 he

/-- The request that a row gets is of the row's region. -/
lemma region_source {i : Nat} (hi : i < b.numReqs) :
    (kindOf t (b.row out (b.source out t i))).region = (b.targets out t).getD i 0 := by
  by_cases hmem : i ∈ origIndices (b.regions out t) (b.targets out t)
  · obtain ⟨k, hk, rfl⟩ := List.getElem_of_mem hmem
    have hk' := (srcIndices_perm (R := b.regions out t) (T := b.targets out t)).length_eq ▸ hk
    have hsend : b.source out t (origIndices (b.regions out t) (b.targets out t))[k] =
        (srcIndices (b.regions out t) (b.targets out t))[k] := sendTo_getElem origIndices_nodup hk hk'
    rw [hsend]
    exact region_srcIndices hk' hk
  · rw [source_of_notMem hmem]
    by_contra hne
    exact hmem (mem_origIndices.2 ⟨hi, hne⟩)

/-- The map sends the sources where they have to go. -/
lemma get?_srcDestMap {x : Nat} (hx : x ∈ srcIndices (b.regions out t) (b.targets out t)) :
    (srcDestMap (b.regions out t) (b.targets out t)).get? x = some ((b.source out t)⁻¹ x) := by
  obtain ⟨k, hk, rfl⟩ := List.getElem_of_mem hx
  have hk' := (srcIndices_perm (R := b.regions out t) (T := b.targets out t)).length_eq ▸ hk
  have hsend : (b.source out t)⁻¹ (srcIndices (b.regions out t) (b.targets out t))[k] =
      (origIndices (b.regions out t) (b.targets out t))[k] := sendTo_getElem srcIndices_nodup hk hk'
  rw [Dict.get?_eq_some, srcDestMap_entries, hsend]
  refine List.mem_iff_getElem.2 ⟨k, by rw [List.length_zip]; omega, ?_⟩
  rw [List.getElem_zip]

/-- The reordering on a packed batch. -/
lemma Packed.reorder_eq (h : b.Packed) (hout : ∀ rid ∈ b.reqIdToIndex, rid ∈ out)
    (hc : ∀ i < b.numReqs, 0 ≤ (b.base i).numComputedTokens) (fuel : Nat) :
    b.reorderBatchToSplitDecodesAndPrefills fuel out t =
      if (origIndices (b.regions out t) (b.targets out t)).isEmpty then some (false, b)
      else (followCycles InputBatch.swapStates fuel (srcIndices (b.regions out t) (b.targets out t)) b
        (srcDestMap (b.regions out t) (b.targets out t))).map fun r => (true, r.1) := by
  have hreg : reqRegions t ((b.rows out).map Prod.fst) ((b.rows out).map Prod.snd) = b.regions out t := by
    apply reqRegions_rows
    intro r hr
    obtain ⟨i, hi, rfl⟩ := List.mem_map.1 hr
    exact hc i (List.mem_range.1 hi)
  have hdec : (isDecode t ((b.rows out).map Prod.fst)).count true = (b.regions out t).count 0 := by
    rw [isDecode_rows]
    exact (count_region _ .decode).symm
  have hext : (isExtend t ((b.rows out).map Prod.fst) ((b.rows out).map Prod.snd)).count true =
      (b.regions out t).count 1 := by
    rw [isExtend_rows]
    exact (count_region _ .extend).symm
  have htar : targetRegions b.reqIds.length ((b.regions out t).count 0) ((b.regions out t).count 1) =
      b.targets out t := by
    rw [targets, length_regions', h.length]
  unfold reorderBatchToSplitDecodesAndPrefills
  rw [h.scheduledTokens hout]
  simp only [Option.bind_eq_bind, Option.bind_some, h.computedTokens out, hreg, hdec, hext, htar,
    srcDestMap_keys]
  split
  · rfl
  · cases followCycles InputBatch.swapStates fuel (srcIndices (b.regions out t) (b.targets out t)) b
      (srcDestMap (b.regions out t) (b.targets out t)) <;> rfl

/-- The reordering ends, and each row has the request of its source. -/
lemma Packed.reorder (h : b.Packed) (hout : ∀ rid ∈ b.reqIdToIndex, rid ∈ out)
    (hc : ∀ i < b.numReqs, 0 ≤ (b.base i).numComputedTokens) :
    ∃ moved b', (∀ fuel, b.numReqs ≤ fuel →
        b.reorderBatchToSplitDecodesAndPrefills fuel out t = some (moved, b')) ∧
      Arranged b b' (b.source out t) := by
  by_cases hnil : (origIndices (b.regions out t) (b.targets out t)).isEmpty
  · have hsource : b.source out t = 1 := by
      apply Equiv.ext
      intro i
      apply source_of_notMem
      rw [List.isEmpty_iff.1 hnil]
      exact List.not_mem_nil
    refine ⟨false, b, fun fuel _ => ?_, hsource ▸ Arranged.refl h⟩
    rw [h.reorder_eq hout hc, if_pos hnil]
  · have hrow : ∀ i ∈ srcIndices (b.regions out t) (b.targets out t), i < b.numReqs := fun i hi =>
      (mem_origIndices.1 (srcIndices_perm.mem_iff.1 hi)).1
    have hfix : ∀ x, x ∉ srcIndices (b.regions out t) (b.targets out t) → (b.source out t)⁻¹ x = x :=
      fun x hx => sendTo_of_notMem srcIndices_perm.length_eq hx
    -- the rows of the batch come from `source` as far as they have been moved
    obtain ⟨b', m', hb', hloop⟩ :=
      followCycles_ok InputBatch.swapStates (P := fun g s => Arranged b s (b.source out t * g))
        srcIndices_nodup
        (fun g s i j hi hj hs => mul_assoc (b.source out t) g _ ▸ hs.swapStates (hrow i hi) (hrow j hj))
        (by rw [mul_inv_cancel]; exact Arranged.refl h) hfix fun x hx => get?_srcDestMap hx
    refine ⟨true, b', fun fuel hfuel => ?_, mul_one (b.source out t) ▸ hb'⟩
    have hle : (srcIndices (b.regions out t) (b.targets out t)).length ≤ fuel := by
      have hfilter := List.length_filter_le (fun i : Nat => decide ((b.regions out t).getD i 0 ≠
        (b.targets out t).getD i 0)) (List.range (b.regions out t).length)
      rw [List.length_range] at hfilter
      rw [srcIndices_perm.length_eq]
      exact (hfilter.trans length_regions'.le).trans hfuel
    rw [h.reorder_eq hout hc, if_neg hnil, hloop fuel hle]
    rfl

/-- After the reordering the requests stand in their regions. -/
lemma Arranged.regions (hb : b.Packed) (h : Arranged b b' (b.source out t)) :
    b'.regions out t = b.targets out t := by
  apply List.ext_getElem
  · rw [length_regions', h.numReqs, targets, targetRegions, List.length_map, List.length_range,
      length_regions']
  · intro i hi hi'
    have hlt : i < b.numReqs := by
      rw [length_regions', h.numReqs] at hi
      exact hi
    have hget : (kindOf t (b.row out (b.source out t i))).region = (b.targets out t).getD i 0 :=
      region_source hlt
    rw [← h.row hb, ← getD_regions (h.numReqs.symm ▸ hlt), List.getD_eq_getElem _ _ hi,
      List.getD_eq_getElem _ _ hi'] at hget
    exact hget

/-- The rows with a request. -/
lemma Packed.getElem?_reqIds (h : b.Packed) {i : Nat} (hi : i < b.numReqs) :
    b.reqIds[i]? = some (b.reqIds[i]?).join := by
  rw [List.getElem?_eq_getElem (h.length.symm ▸ hi)]
  rfl

/-- The requests are the same. -/
lemma Arranged.mem (hb : b.Packed) (h : Arranged b b' σ) {rid : ReqId} (hr : rid ∈ b'.reqIdToIndex) :
    rid ∈ b.reqIdToIndex := by
  obtain ⟨i, hi⟩ := Dict.mem_iff_get?.1 hr
  have ho := (h.packed.index rid i).1 hi
  rw [h.owner] at ho
  exact Dict.mem_of_get? ((hb.index rid (σ i)).2 ho)

/-- Index and ids are inverse to each other. -/
lemma Indexed.get?_eq_some (h : b.Indexed) {rid : ReqId} {i : Nat} :
    b.reqIdToIndex.get? rid = some i ↔ b.reqIds[i]? = some (some rid) := by
  rw [h.index, ← h.ids, Option.join_eq_some_iff]

/-- The metadata of the batch are those of its requests. -/
lemma Packed.commonAttnMetadata (h : b.Packed) (out : Dict ReqId Nat) :
    b.commonAttnMetadata ((b.rows out).map Prod.fst) = metadataOf (b.rows out) := by
  have hnum : b.numReqs = (b.rows out).length := by rw [rows, List.length_map, List.length_range]
  rw [InputBatch.commonAttnMetadata, metadataOf, h.computedTokens out, List.zipWith_map, List.zipWith_self,
    List.map_map, hnum]
  rfl

/-- The requests of a batch in regions. -/
lemma exists_rows_eq (hc : ∀ i < b.numReqs, 0 ≤ (b.base i).numComputedTokens) {d e p : Nat}
    (h : b.regions out t = List.replicate d 0 ++ List.replicate e 1 ++ List.replicate p 2) :
    ∃ ds es ps, b.rows out = ds ++ es ++ ps ∧ InRegions t ds es ps := by
  apply exists_inRegions _ h
  intro r hr
  obtain ⟨i, hi, rfl⟩ := List.mem_map.1 hr
  exact hc i (List.mem_range.1 hi)

lemma targets_eq : b.targets out t = List.replicate ((b.regions out t).count 0) 0 ++
    List.replicate ((b.regions out t).count 1) 1 ++ List.replicate ((b.regions out t).count 2) 2 := by
  rw [targets, length_regions regions_lt, targetRegions_eq]

/-- The kind of the request of a row. -/
def kind (b : InputBatch) (out : Dict ReqId Nat) (t i : Nat) : Kind := kindOf t (b.row out i)

/-- The reordering sorts the rows by kind, moves no request that stands in its region, and on the batch it
leaves the splitters count the requests and the tokens of each kind. -/
theorem reorder_then_split (b : InputBatch) (out : Dict ReqId Nat) (t : Nat) (h : b.Packed)
    (hout : ∀ rid ∈ b.reqIdToIndex, rid ∈ out) (hc : ∀ i < b.numReqs, 0 ≤ (b.base i).numComputedTokens) :
    ∃ moved b' σ,
      (∀ fuel, b.numReqs ≤ fuel →
        b.reorderBatchToSplitDecodesAndPrefills fuel out t = some (moved, b')) ∧
      Arranged b b' σ ∧ (∀ i, b.numReqs ≤ i → σ i = i) ∧ (∀ i, b'.reqIds[i]? = b.reqIds[σ i]?) ∧
      (∀ rid i, b'.reqIdToIndex.get? rid = some i ↔ b'.reqIds[i]? = some (some rid)) ∧
      (∀ i j, i < j → j < b.numReqs → (b'.kind out t i).region ≤ (b'.kind out t j).region) ∧
      (∀ i < b.numReqs, b.kind out t i = b'.kind out t i → σ i = i) ∧
      ∃ scheduled, b'.scheduledTokens out = some scheduled ∧
        (b'.commonAttnMetadata scheduled).splitDecodesPrefillsAndExtends t =
          some (((b'.rowsOf out t .decode).length : Int), ((b'.rowsOf out t .extend).length : Int),
            ((b'.rowsOf out t .prefill).length : Int), (tokensOf (b'.rowsOf out t .decode) : Int),
            (tokensOf (b'.rowsOf out t .extend) : Int), (tokensOf (b'.rowsOf out t .prefill) : Int)) ∧
        (b'.commonAttnMetadata scheduled).splitDecodesAndPrefills t false =
          some (((b'.rowsOf out t .decode).length : Int),
            ((b'.rowsOf out t .extend).length + (b'.rowsOf out t .prefill).length : Int),
            (tokensOf (b'.rowsOf out t .decode) : Int),
            (tokensOf (b'.rowsOf out t .extend) + tokensOf (b'.rowsOf out t .prefill) : Int)) := by
  obtain ⟨moved, b', hrun, harr⟩ := h.reorder hout hc (t := t)
  have hlt : ∀ i < b.numReqs, b.source out t i < b.numReqs := by
    intro i hi
    by_contra hge
    have hfix : b.source out t (b.source out t i) = b.source out t i := source_of_le (Nat.le_of_not_lt hge)
    rw [(b.source out t).injective hfix] at hge
    exact hge hi
  have hids : ∀ i, b'.reqIds[i]? = b.reqIds[b.source out t i]? := by
    intro i
    by_cases hi : i < b.numReqs
    · rw [harr.packed.getElem?_reqIds (harr.numReqs.symm ▸ hi), h.getElem?_reqIds (hlt i hi), harr.reqIds h]
    · rw [source_of_le (Nat.le_of_not_lt hi), List.getElem?_eq_none, List.getElem?_eq_none]
      · rw [h.length]
        exact Nat.le_of_not_lt hi
      · rw [harr.packed.length, harr.numReqs]
        exact Nat.le_of_not_lt hi
  have hkind : ∀ i < b.numReqs, (b'.kind out t i).region = (b.targets out t).getD i 0 := by
    intro i hi
    rw [kind, harr.row h]
    exact region_source hi
  have hsched := harr.packed.scheduledTokens fun rid hr => hout rid (harr.mem h hr)
  obtain ⟨ds, es, ps, hrows, hin⟩ : ∃ ds es ps, b'.rows out = ds ++ es ++ ps ∧ InRegions t ds es ps := by
    apply exists_rows_eq _ ((harr.regions h).trans targets_eq)
    intro i hi
    rw [harr.base]
    exact hc _ (hlt i (harr.numReqs ▸ hi))
  obtain ⟨hds, hes, hps⟩ := hin.filter
  refine ⟨moved, b', b.source out t, hrun, harr, fun i => source_of_le, hids,
    fun rid i => harr.packed.get?_eq_some, fun i j hij hj => ?_, fun i hi he => ?_, _, hsched, ?_, ?_⟩
  · rw [hkind i (hij.trans hj), hkind j hj, targets, length_regions', getD_targetRegions (hij.trans hj),
      getD_targetRegions hj]
    split <;> split <;> (try split) <;> (try split) <;> omega
  · apply source_of_eq
    rw [← hkind i hi, ← he, kind]
  · rw [harr.packed.commonAttnMetadata, rowsOf, rowsOf, rowsOf, hrows, hds, hes, hps]
    exact hin.splitDecodesPrefillsAndExtends
  · rw [harr.packed.commonAttnMetadata, rowsOf, rowsOf, rowsOf, hrows, hds, hes, hps]
    exact hin.splitDecodesAndPrefills

/-- A prefill, a decode and an extend, in this order. -/
def threeRequests : InputBatch :=
  ((({ vocabSize := 8, maxNumReqs := 4 : InputBatch }.addRequest { reqId := ['a'] }).addRequest
    { reqId := ['b'], numComputedTokens := 5 }).addRequest { reqId := ['c'], numComputedTokens := 3 })

/-- What they are scheduled for. -/
def threeScheduled : Dict ReqId Nat := (((∅ : Dict ReqId Nat).set ['a'] 4).set ['b'] 1).set ['c'] 3

lemma threeRequests_packed : threeRequests.Packed := by
  have h0 : ({ vocabSize := 8, maxNumReqs := 4 } : InputBatch).Wf := by
    refine ⟨⟨fun i => rfl, fun rid i => ⟨nofun, nofun⟩⟩, List.nodup_nil, fun i => ⟨nofun, fun hc => ?_⟩⟩
    exact absurd hc.1 (Nat.not_lt_zero i)
  have h3 : threeRequests.Wf := ((h0.addRequest (by decide)).addRequest (by decide)).addRequest (by decide)
  exact h3.packed rfl

/-- The three requests are put in the order decode, extend, prefill. -/
theorem reorder_then_split_three :
    threeRequests.reorderBatchToSplitDecodesAndPrefills 3 threeScheduled 1 ≠ none ∧
      (threeRequests.reorderBatchToSplitDecodesAndPrefills 3 threeScheduled 1).map
        (fun r => r.2.reqIds) = some [some ['b'], some ['c'], some ['a']] := by
  obtain ⟨moved, b', σ, hrun, -⟩ :=
    reorder_then_split threeRequests threeScheduled 1 threeRequests_packed (by decide) (by decide)
  exact ⟨by rw [hrun 3 (by decide)]; nofun, by decide⟩

end InputBatch
end Gambit.Worker
