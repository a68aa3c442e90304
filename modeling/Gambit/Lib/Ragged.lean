import Mathlib.Algebra.BigOperators.Intervals
import Mathlib.Algebra.BigOperators.Ring.Finset
import Mathlib.Tactic.Ring
import Mathlib.Tactic.Linarith

/-!
# Ragged vectors

Vectors of numpy that lay out the segments of a batch one after the other. `ragged n B F` has `B` segments, segment
`b` of `n b` entries, of which entry `j` is `F b j`. The operations of numpy on such vectors (elementwise, running
sums, repetition, assignment at a mask or at indices) are again ragged vectors with the same segments, so a
computation on the whole batch is one on each entry.

`offset n b` is where segment `b` starts. What raises is `none`.
-/

namespace Gambit.Lib
open Finset (sum_range_succ)

variable {α β γ : Type*}

/-- `numpy.arange`. -/
def arange (n : Int) : List Int := (List.range n.toNat).map fun i : Nat => (i : Int)

/-- `numpy.cumsum`. -/
def cumsum : List Int → List Int
  | [] => []
  | x :: xs => x :: (cumsum xs).map (x + ·)

/-- `numpy.repeat` with a count for each entry. -/
def repeatEach (xs : List α) (counts : List Int) : Option (List α) :=
  if ∀ n ∈ counts, 0 ≤ n then some ((xs.zip counts).flatMap fun e => List.replicate e.2.toNat e.1) else none

/-- `xs[mask]`. -/
def maskSelect (mask : List Bool) (xs : List α) : List α :=
  (mask.zip xs).filterMap fun e => if e.1 then some e.2 else none

/-- `xs[mask] = values`, with a value for each place. -/
def maskAssign : List Bool → List α → List α → Option (List α)
  | [], [], [] => some []
  | true :: mask, _ :: xs, v :: values => (maskAssign mask xs values).map (v :: ·)
  | false :: mask, x :: xs, values => (maskAssign mask xs values).map (x :: ·)
  | _, _, _ => none

/-- The place of a Python index, which counts from the end when it is negative. -/
def pyIndex (length : Nat) (i : Int) : Option Nat :=
  if 0 ≤ i ∧ i < length then some i.toNat
  else if i < 0 ∧ 0 ≤ i + length then some (i + length).toNat
  else none

/-- `xs[indices] = values`, with a value for each index. -/
def assignAt (xs : List α) (indices : List Int) (values : List α) : Option (List α) :=
  (indices.zip values).foldlM (fun xs e => (pyIndex xs.length e.1).map fun i => xs.set i e.2) xs

/-- `flat.view(rows, -1)`. -/
def view (flat : List α) (rows : Nat) : Option (List (List α)) :=
  if rows ∣ flat.length ∧ rows ≠ 0 then
    some ((List.range rows).map fun v => (flat.drop (v * (flat.length / rows))).take (flat.length / rows))
  else none

/-- A vector with an entry for each segment. -/
def tab (B : Nat) (g : Nat → α) : List α := (List.range B).map g

/-- A vector of `B` segments. -/
def ragged (n : Nat → Nat) (B : Nat) (F : Nat → Nat → α) : List α :=
  (List.range B).flatMap fun b => (List.range (n b)).map (F b)

/-- Where a segment starts. -/
def offset (n : Nat → Nat) (b : Nat) : Nat := ∑ i ∈ Finset.range b, n i

variable {n : Nat → Nat} {B : Nat} {F G : Nat → Nat → α} {g h : Nat → α}

/-- The first row starts at 0. -/
@[simp] lemma offset_zero : offset n 0 = 0 := rfl

/-- A row starts where the one before ends. -/
lemma offset_succ (n : Nat → Nat) (b : Nat) : offset n (b + 1) = offset n b + n b := sum_range_succ n b

/-- Later rows start later. -/
lemma offset_mono {b b' : Nat} (h : b ≤ b') : offset n b ≤ offset n b' := by
  induction h with
  | refl => exact Nat.le_refl _
  | step _ ih => exact Nat.le_trans ih (by rw [offset_succ]; exact Nat.le_add_right _ _)

/-- One more entry of a table. -/
lemma tab_succ (B : Nat) (g : Nat → α) : tab (B + 1) g = tab B g ++ [g B] := by
  simp [tab, List.range_succ]

/-- The length of a table. -/
@[simp] lemma length_tab : (tab B g).length = B := by simp [tab]

/-- An entry of a table. -/
lemma getElem?_tab {b : Nat} (hb : b < B) : (tab B g)[b]? = some (g b) := by simp [tab, hb]

/-- A table depends on its entries only. -/
lemma tab_congr {g' : Nat → α} (hg : ∀ b < B, g b = g' b) : tab B g = tab B g' := by
  apply List.map_congr_left
  intro b hb
  exact hg b (List.mem_range.mp hb)

/-- A vector is the table of its entries. -/
lemma eq_tab {xs : List α} (hl : xs.length = B) (hg : ∀ b < B, xs[b]? = some (g b)) : xs = tab B g := by
  apply List.ext_getElem?
  intro b
  by_cases hb : b < B
  · rw [hg b hb, getElem?_tab hb]
  · rw [List.getElem?_eq_none (by omega), List.getElem?_eq_none (by rw [length_tab]; omega)]

/-- One more row. -/
lemma ragged_succ (n : Nat → Nat) (B : Nat) (F : Nat → Nat → α) :
    ragged n (B + 1) F = ragged n B F ++ (List.range (n B)).map (F B) := by
  simp [ragged, List.range_succ]

/-- The length of all rows together. -/
@[simp] lemma length_ragged : (ragged n B F).length = offset n B := by
  induction B with
  | zero => rfl
  | succ B ih => rw [ragged_succ, List.length_append, ih, List.length_map, List.length_range, offset_succ]

/-- An entry is found at its place. -/
lemma getElem?_ragged {b j : Nat} (hb : b < B) (hj : j < n b) : (ragged n B F)[offset n b + j]? = some (F b j) := by
  induction B with
  | zero => exact absurd hb (Nat.not_lt_zero b)
  | succ B ih =>
    rw [ragged_succ]
    cases Nat.lt_succ_iff_lt_or_eq.mp hb with
    | inl hlt =>
      have hle : offset n (b + 1) ≤ offset n B := offset_mono hlt
      rw [offset_succ] at hle
      rw [List.getElem?_append_left (by rw [length_ragged]; omega), ih hlt]
    | inr heq =>
      subst heq
      rw [List.getElem?_append_right (by rw [length_ragged]; omega), length_ragged, Nat.add_sub_cancel_left]
      simp [hj]

/-- Every place is that of an entry. -/
lemma exists_of_lt_offset {v : Nat} (hv : v < offset n B) : ∃ b < B, ∃ j < n b, v = offset n b + j := by
  induction B with
  | zero => exact absurd hv (Nat.not_lt_zero v)
  | succ B ih =>
    rw [offset_succ] at hv
    by_cases hlt : v < offset n B
    · obtain ⟨b, hb, j, hj, e⟩ := ih hlt
      exact ⟨b, Nat.lt_succ_of_lt hb, j, hj, e⟩
    · exact ⟨B, Nat.lt_succ_self B, v - offset n B, by omega, by omega⟩

/-- A ragged table depends on its entries only. -/
lemma ragged_congr (h : ∀ b < B, ∀ j < n b, F b j = G b j) : ragged n B F = ragged n B G := by
  induction B with
  | zero => rfl
  | succ B ih =>
    rw [ragged_succ, ragged_succ, ih fun b hb => h b (Nat.lt_succ_of_lt hb)]
    congr 1
    apply List.map_congr_left
    intro j hj
    exact h B (Nat.lt_succ_self B) j (List.mem_range.mp hj)

/-- Every element stands in some row. -/
lemma mem_ragged {a : α} (h : a ∈ ragged n B F) : ∃ b < B, ∃ j < n b, a = F b j := by
  obtain ⟨b, hb, ha⟩ := List.mem_flatMap.mp h
  obtain ⟨j, hj, rfl⟩ := List.mem_map.mp ha
  exact ⟨b, List.mem_range.mp hb, j, List.mem_range.mp hj, rfl⟩

/-- Mapping a table. -/
lemma map_tab (f : α → β) : (tab B g).map f = tab B fun b => f (g b) := by simp [tab]

/-- Combining two tables. -/
lemma zipWith_tab (f : α → β → γ) (g : Nat → α) (h : Nat → β) :
    List.zipWith f (tab B g) (tab B h) = tab B fun b => f (g b) (h b) := by
  induction B with
  | zero => rfl
  | succ B ih => rw [tab_succ, tab_succ, tab_succ, List.zipWith_append (by simp), ih]; rfl

/-- Mapping a ragged table. -/
lemma map_ragged (f : α → β) : (ragged n B F).map f = ragged n B fun b j => f (F b j) := by
  simp [ragged, List.map_flatMap, Function.comp_def]

/-- Combining two ragged tables with the same rows. -/
lemma zipWith_ragged (f : α → β → γ) (F : Nat → Nat → α) (G : Nat → Nat → β) :
    List.zipWith f (ragged n B F) (ragged n B G) = ragged n B fun b j => f (F b j) (G b j) := by
  induction B with
  | zero => rfl
  | succ B ih =>
    rw [ragged_succ, ragged_succ, ragged_succ, List.zipWith_append (by simp), ih]
    simp [List.zipWith_map]

/-- `arange` is the table of the first numbers. -/
lemma arange_natCast (m : Nat) : arange m = tab m fun i => (i : Int) := by
  rw [arange, Int.toNat_natCast, tab]

/-- Counting through the batch counts on from the start of each segment. -/
lemma arange_offset : arange (offset n B) = ragged n B fun b j => ((offset n b : Nat) : Int) + j := by
  induction B with
  | zero => rfl
  | succ B ih =>
    rw [ragged_succ, ← ih, offset_succ]
    unfold arange
    rw [Int.toNat_natCast, Int.toNat_natCast, List.range_add, List.map_append, List.map_map]
    rfl

/-- Sums go on from the total of the first part. -/
lemma cumsum_append (xs ys : List Int) : cumsum (xs ++ ys) = cumsum xs ++ (cumsum ys).map (xs.sum + ·) := by
  induction xs with
  | nil => simp [cumsum]
  | cons x xs ih =>
    simp only [List.cons_append, cumsum, ih, List.map_append, List.map_map, List.sum_cons]
    congr 2
    apply List.map_congr_left
    intro y _
    simp only [Function.comp_apply]
    ring

/-- The sum of a table. -/
lemma sum_tab (g : Nat → Int) : (tab B g).sum = ∑ b ∈ Finset.range B, g b := by
  induction B with
  | zero => rfl
  | succ B ih => rw [tab_succ, List.sum_append, ih, sum_range_succ, List.sum_singleton]

/-- The running sums of a table. -/
lemma cumsum_tab (g : Nat → Int) : cumsum (tab B g) = tab B fun b => ∑ i ∈ Finset.range (b + 1), g i := by
  induction B with
  | zero => rfl
  | succ B ih =>
    rw [tab_succ, tab_succ, cumsum_append, ih, sum_tab, sum_range_succ]
    rfl

/-- The running sums of the lengths are where the segments end. -/
lemma cumsum_length : cumsum (tab B fun b => (n b : Int)) = tab B fun b => (offset n (b + 1) : Int) := by
  rw [cumsum_tab]
  apply tab_congr
  intro b _
  rw [offset, Nat.cast_sum]

/-- The last entry of a table. -/
lemma getLast?_tab (hB : 0 < B) : (tab B g).getLast? = some (g (B - 1)) := by
  obtain ⟨k, rfl⟩ := Nat.exists_eq_add_one_of_ne_zero (Nat.ne_of_gt hB)
  rw [tab_succ, List.getLast?_concat, Nat.add_sub_cancel]

/-- The sum of a ragged table, row by row. -/
lemma sum_ragged (F : Nat → Nat → Int) :
    (ragged n B F).sum = ∑ b ∈ Finset.range B, ∑ j ∈ Finset.range (n b), F b j := by
  induction B with
  | zero => rfl
  | succ B ih => rw [ragged_succ, List.sum_append, ih, sum_range_succ, ← sum_tab (F B)]; rfl

/-- Summing up to an entry takes in the segments before, and the entries before. -/
lemma sum_take_ragged (F : Nat → Nat → Int) {b j : Nat} (hb : b < B) (hj : j ≤ n b) :
    ((ragged n B F).take (offset n b + j)).sum =
      (∑ i ∈ Finset.range b, ∑ l ∈ Finset.range (n i), F i l) + ∑ l ∈ Finset.range j, F b l := by
  induction B with
  | zero => exact absurd hb (Nat.not_lt_zero b)
  | succ B ih =>
    rw [ragged_succ]
    cases Nat.lt_succ_iff_lt_or_eq.mp hb with
    | inl hlt =>
      have hle : offset n (b + 1) ≤ offset n B := offset_mono hlt
      rw [offset_succ] at hle
      rw [List.take_append_of_le_length (by rw [length_ragged]; omega), ih hlt]
    | inr heq =>
      subst heq
      rw [List.take_append, length_ragged, Nat.add_sub_cancel_left,
        List.take_of_length_le (by rw [length_ragged]; omega), List.sum_append, sum_ragged, ← List.map_take,
        List.take_range, Nat.min_eq_left hj]
      congr 1

/-- The cuts of a vector of lengths are the sums up to each. -/
lemma getElem?_cumsum (xs : List Int) {v : Nat} (hv : v ≤ xs.length) : (0 :: cumsum xs)[v]? = some (xs.take v).sum := by
  induction xs generalizing v with
  | nil =>
    cases Nat.le_zero.mp hv
    rfl
  | cons x xs ih =>
    cases v with
    | zero => rfl
    | succ v =>
      have hv := ih (Nat.le_of_succ_le_succ hv)
      rw [List.getElem?_cons_succ, cumsum, List.take_succ_cons, List.sum_cons]
      cases v with
      | zero => simp
      | succ v =>
        rw [List.getElem?_cons_succ] at hv ⊢
        rw [List.getElem?_map, hv, Option.map_some]

/-- There are as many running sums as numbers. -/
lemma length_cumsum (xs : List Int) : (cumsum xs).length = xs.length := by
  induction xs with
  | nil => rfl
  | cons x xs ih => rw [cumsum, List.length_cons, List.length_map, ih, List.length_cons]

/-- Repeating the entries of a table by the lengths of the segments. -/
lemma repeatEach_tab (g : Nat → α) :
    repeatEach (tab B g) (tab B fun b => (n b : Int)) = some (ragged n B fun b _ => g b) := by
  have hpos : ∀ m ∈ tab B fun b => (n b : Int), 0 ≤ m := by
    intro m hm
    obtain ⟨b, -, rfl⟩ := List.mem_map.mp hm
    exact Int.natCast_nonneg _
  unfold repeatEach
  rw [if_pos hpos]
  congr 1
  induction B with
  | zero => rfl
  | succ B ih =>
    rw [tab_succ, tab_succ, List.zip_append (by simp), List.flatMap_append, ragged_succ, ih]
    · congr 1
      simp [List.map_const']
    · intro m hm
      apply hpos
      rw [tab_succ]
      exact List.mem_append_left _ hm

/-- Masked assignments one behind the other. -/
lemma maskAssign_append {mask mask' : List Bool} {xs xs' values values' ys ys' : List α}
    (h : maskAssign mask xs values = some ys) (h' : maskAssign mask' xs' values' = some ys') :
    maskAssign (mask ++ mask') (xs ++ xs') (values ++ values') = some (ys ++ ys') := by
  induction mask generalizing xs values ys with
  | nil =>
    cases xs with
    | nil =>
      cases values with
      | nil =>
        cases h
        exact h'
      | cons v values => simp [maskAssign] at h
    | cons x xs => simp [maskAssign] at h
  | cons m mask ih =>
    cases xs with
    | nil => cases m <;> simp [maskAssign] at h
    | cons x xs =>
      cases m with
      | false =>
        obtain ⟨zs, hz, rfl⟩ := Option.map_eq_some_iff.mp h
        simp only [List.cons_append, maskAssign, ih hz, Option.map_some]
      | true =>
        cases values with
        | nil => simp [maskAssign] at h
        | cons v values =>
          obtain ⟨zs, hz, rfl⟩ := Option.map_eq_some_iff.mp h
          simp only [List.cons_append, maskAssign, ih hz, Option.map_some]

/-- Assigning what is selected from another vector takes its entries at the mask. -/
lemma maskAssign_select (m : α → Bool) (f g : α → β) (l : List α) :
    maskAssign (l.map m) (l.map f) (maskSelect (l.map m) (l.map g)) =
      some (l.map fun a => if m a then g a else f a) := by
  induction l with
  | nil => rfl
  | cons a l ih =>
    unfold maskSelect at ih ⊢
    cases hm : m a <;> simp [hm, maskAssign, ih]

/-- A mask that selects nothing assigns nothing. -/
lemma maskAssign_false (f : β → α) (l : List β) :
    maskAssign (l.map fun _ => false) (l.map f) [] = some (l.map f) := by
  induction l with
  | nil => rfl
  | cons a l ih => simp only [List.map_cons, maskAssign, ih, Option.map_some]

/-- An assignment at a mask that is true at the first entry of each segment. -/
lemma maskAssign_first (hn : ∀ b < B, 0 < n b) (F : Nat → Nat → α) (g : Nat → α) :
    maskAssign (ragged n B fun _ j => decide (j = 0)) (ragged n B F) (tab B g) =
      some (ragged n B fun b j => if j = 0 then g b else F b j) := by
  induction B with
  | zero => rfl
  | succ B ih =>
    rw [ragged_succ, ragged_succ, ragged_succ, tab_succ]
    apply maskAssign_append (ih fun b hb => hn b (Nat.lt_succ_of_lt hb))
    obtain ⟨k, hk⟩ := Nat.exists_eq_add_one_of_ne_zero (Nat.ne_of_gt (hn B (Nat.lt_succ_self B)))
    rw [hk, List.range_succ_eq_map]
    simp only [List.map_cons, List.map_map, Function.comp_def, maskAssign, decide_true, if_true,
      Nat.succ_ne_zero, decide_false, if_false]
    rw [maskAssign_false]
    rfl

/-- An assignment at indices within the front of a vector leaves the rest. -/
lemma assignAt_append {xs : List α} (ys values : List α) {indices : List Int}
    (hi : ∀ i ∈ indices, 0 ≤ i ∧ i < xs.length) :
    assignAt (xs ++ ys) indices values = (assignAt xs indices values).map (· ++ ys) ∧
      ∀ zs, assignAt xs indices values = some zs → zs.length = xs.length := by
  induction indices generalizing xs values with
  | nil => exact ⟨rfl, fun zs h => by cases h; rfl⟩
  | cons i indices ih =>
    cases values with
    | nil => exact ⟨rfl, fun zs h => by cases h; rfl⟩
    | cons v values =>
      obtain ⟨h0, h1⟩ := hi i List.mem_cons_self
      have hset : ∀ w : List α, assignAt (w) (i :: indices) (v :: values) =
          (pyIndex w.length i).bind fun k => assignAt (w.set k v) indices values := by
        intro w
        simp [assignAt, Option.map_eq_bind, Option.bind_assoc]
      have hp : pyIndex xs.length i = some i.toNat := if_pos ⟨h0, h1⟩
      have hp' : pyIndex (xs ++ ys).length i = some i.toNat :=
        if_pos ⟨h0, by rw [List.length_append]; omega⟩
      have hlt : i.toNat < xs.length := by omega
      have hrec := @ih (xs.set i.toNat v) values fun i' hi' => by
        rw [List.length_set]
        exact hi i' (List.mem_cons_of_mem i hi')
      rw [hset, hset, hp, hp', Option.bind_some, Option.bind_some, List.set_append_left _ _ hlt]
      refine ⟨hrec.1, ?_⟩
      intro zs hz
      rw [hrec.2 zs hz, List.length_set]

/-- An assignment at the index of the last entry of each segment. -/
lemma assignAt_last (hn : ∀ b < B, 0 < n b) (F : Nat → Nat → α) (g : Nat → α) :
    assignAt (ragged n B F) (tab B fun b => (offset n (b + 1) : Int) - 1) (tab B g) =
      some (ragged n B fun b j => if j + 1 = n b then g b else F b j) := by
  induction B with
  | zero => rfl
  | succ B ih =>
    have hin : ∀ i ∈ tab B fun b => (offset n (b + 1) : Int) - 1, 0 ≤ i ∧ i < (ragged n B F).length := by
      intro i hi
      obtain ⟨b, hb, rfl⟩ := List.mem_map.mp hi
      have hb := List.mem_range.mp hb
      have h1 : offset n (b + 1) ≤ offset n B := offset_mono hb
      have h2 := hn b (Nat.lt_succ_of_lt hb)
      have h3 := offset_succ n b
      rw [length_ragged]
      omega
    have hB := hn B (Nat.lt_succ_self B)
    have hfirst := (assignAt_append ((List.range (n B)).map (F B)) (tab B g) hin).1
    rw [ih fun b hb => hn b (Nat.lt_succ_of_lt hb), Option.map_some] at hfirst
    have hsplit : assignAt (ragged n (B + 1) F) (tab (B + 1) fun b => (offset n (b + 1) : Int) - 1)
        (tab (B + 1) g) = (assignAt (ragged n (B + 1) F) (tab B fun b => (offset n (b + 1) : Int) - 1)
          (tab B g)).bind fun zs => (pyIndex zs.length ((offset n (B + 1) : Int) - 1)).map fun i => zs.set i (g B) := by
      unfold assignAt
      rw [tab_succ, tab_succ, List.zip_append (by simp), List.foldlM_append]
      simp
    rw [hsplit, ragged_succ n B F, hfirst, Option.bind_some, ragged_succ]
    have hidx : pyIndex (offset n B + n B) ((offset n (B + 1) : Int) - 1) = some (offset n B + (n B - 1)) := by
      rw [pyIndex, if_pos (by rw [offset_succ]; omega)]
      congr 1
      rw [offset_succ]
      omega
    rw [List.length_append, length_ragged, List.length_map, List.length_range, hidx, Option.map_some,
      List.set_append_right _ _ (by rw [length_ragged]; omega), length_ragged, Nat.add_sub_cancel_left]
    congr 2
    apply List.ext_getElem?
    intro j
    rw [List.getElem?_set]
    by_cases hj : j < n B
    · by_cases he : j + 1 = n B
      · simp [he, show n B - 1 = j by omega, hj]
      · simp [he, hj, show n B - 1 ≠ j by omega]
    · simp [hj, show n B - 1 ≠ j by omega]

/-- Numbering `m` rows of `P` entries, row by row. -/
lemma range_mul_map (f : Nat → α) (m P : Nat) :
    (List.range (m * P)).map f = (List.range m).flatMap fun j => (List.range P).map fun k => f (j * P + k) := by
  induction m with
  | zero => simp
  | succ m ih =>
    rw [Nat.succ_mul, List.range_add, List.map_append, ih, List.range_succ, List.flatMap_append]
    simp [Function.comp_def]

/-- Putting `P` entries in the place of each. -/
lemma flatMap_ragged {P : Nat} (hP : 0 < P) (K : α → Nat → β) :
    ((ragged n B F).flatMap fun x => (List.range P).map (K x)) =
      ragged (fun b => n b * P) B fun b i => K (F b (i / P)) (i % P) := by
  induction B with
  | zero => rfl
  | succ B ih =>
    rw [ragged_succ, ragged_succ, List.flatMap_append, ih]
    congr 1
    rw [range_mul_map, List.flatMap_map]
    congr 1
    funext j
    apply List.map_congr_left
    intro k hk
    have hk := List.mem_range.mp hk
    rw [Nat.mul_comm j P, Nat.mul_add_div hP, Nat.div_eq_of_lt hk, Nat.add_zero, Nat.mul_add_mod,
      Nat.mod_eq_of_lt hk]

/-- Where a row starts when every entry is repeated. -/
lemma offset_mul (n : Nat → Nat) (P b : Nat) : offset (fun b => n b * P) b = offset n b * P := by
  rw [offset, offset, Finset.sum_mul]

/-- The rows of a flat vector of pages. -/
lemma view_ragged {P : Nat} {K : Nat → Nat → α} (h0 : 0 < offset n B) :
    ∃ rows, view (ragged (fun b => n b * P) B K) (offset n B) = some rows ∧ rows.length = offset n B ∧
      ∀ b < B, ∀ j < n b, rows[offset n b + j]? = some (tab P fun k => K b (j * P + k)) := by
  have hlen : (ragged (fun b => n b * P) B K).length = offset n B * P := by rw [length_ragged, offset_mul]
  have hw : offset n B * P / offset n B = P := Nat.mul_div_cancel_left P h0
  refine ⟨_, by rw [view, hlen, if_pos ⟨Nat.dvd_mul_right _ _, Nat.ne_of_gt h0⟩, hw], by simp, ?_⟩
  intro b hb j hj
  have hv : offset n b + j < offset n B := by
    have h1 : offset n (b + 1) ≤ offset n B := offset_mono hb
    have h2 := offset_succ n b
    omega
  rw [List.getElem?_map, List.getElem?_range hv, Option.map_some]
  congr 1
  apply List.ext_getElem?
  intro k
  by_cases hk : k < P
  · have hin : j * P + k < n b * P := by
      calc j * P + k < j * P + P := by omega
        _ = (j + 1) * P := by ring
        _ ≤ n b * P := Nat.mul_le_mul_right P hj
    have he : (offset n b + j) * P + k = offset (fun b => n b * P) b + (j * P + k) := by
      rw [offset_mul]
      ring
    rw [List.getElem?_take_of_lt hk, List.getElem?_drop, he, getElem?_ragged hb hin, getElem?_tab hk]
  · rw [List.getElem?_take_eq_none (by omega), List.getElem?_eq_none (by rw [length_tab]; omega)]

end Gambit.Lib
