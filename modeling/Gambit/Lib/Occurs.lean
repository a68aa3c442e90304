import Mathlib.Data.List.Basic
import Mathlib.Tactic.Ring

/-!
# Occurrences in a text

`OccursAt s t i`: the text `s` stands in the text `t` at index `i`. `find` is Python's `str.find` with a start and
`slice` its slicing, where a negative index counts from the end (`sliceIndex`).
-/

namespace Gambit.Lib

variable {α : Type} {s t u : List α} {i n : Nat}

/-- `s` stands in `t` at index `i`. -/
def OccursAt (s t : List α) (i : Nat) : Prop := i ≤ t.length ∧ s <+: t.drop i

instance [DecidableEq α] (s t : List α) (i : Nat) : Decidable (OccursAt s t i) :=
  inferInstanceAs (Decidable (_ ∧ _))

lemma OccursAt.end_le (h : OccursAt s t i) : i + s.length ≤ t.length := by
  have hle := h.2.length_le
  rw [List.length_drop] at hle
  have hi := h.1
  omega

/-- Of a text cut off, what ends before the cut is left. -/
lemma occursAt_take_iff : OccursAt s (t.take n) i ↔ OccursAt s t i ∧ i + s.length ≤ n := by
  constructor
  · intro h
    have hend := h.end_le
    have hi := h.1
    rw [List.length_take] at hend hi
    have hp := h.2
    rw [List.drop_take, List.prefix_take_iff] at hp
    exact ⟨⟨by omega, hp.1⟩, by omega⟩
  · rintro ⟨h, hn⟩
    have hend := h.end_le
    refine ⟨by rw [List.length_take]; omega, ?_⟩
    rw [List.drop_take, List.prefix_take_iff]
    exact ⟨h.2, by omega⟩

/-- A longer text has the occurrences of the shorter one, and no others that end in it. -/
lemma occursAt_append_iff (hi : i + s.length ≤ t.length) : OccursAt s (t ++ u) i ↔ OccursAt s t i := by
  have h := occursAt_take_iff (s := s) (t := t ++ u) (i := i) (n := t.length)
  rw [List.take_left] at h
  exact ⟨fun ho => h.2 ⟨ho, hi⟩, fun ho => (h.1 ho).1⟩

/-- Where a Python index points to in a text of `n` elements. -/
def sliceIndex (n : Nat) (i : Int) : Nat := if i < 0 then (i + n).toNat else i.toNat

/-- Python `t[:j]`. -/
def sliceTo (t : List α) (j : Int) : List α := t.take (sliceIndex t.length j)

/-- Python `t[i:j]`. -/
def slice (t : List α) (i j : Int) : List α := (sliceTo t j).drop (sliceIndex t.length i)

lemma sliceIndex_natCast (n i : Nat) : sliceIndex n i = i := by
  unfold sliceIndex
  rw [if_neg (by omega), Int.toNat_natCast]

lemma sliceTo_natCast (t : List α) (n : Nat) : sliceTo t n = t.take n := by
  unfold sliceTo
  rw [sliceIndex_natCast]

/-- Python `t.find(s, start)`; `none` is `-1`. -/
def find [DecidableEq α] (t s : List α) (start : Int) : Option Nat :=
  (List.range' (sliceIndex t.length start) (t.length + 1 - sliceIndex t.length start)).find? fun i =>
    OccursAt s t i

section Find
variable [DecidableEq α] {start : Int}

lemma find_eq_some : find t s start = some i ↔
    sliceIndex t.length start ≤ i ∧ OccursAt s t i ∧
      ∀ j, sliceIndex t.length start ≤ j → j < i → ¬ OccursAt s t j := by
  unfold find
  rw [List.find?_range'_eq_some, List.mem_range'_1]
  simp only [decide_eq_true_eq, Bool.not_eq_true', decide_eq_false_iff_not]
  constructor
  · rintro ⟨ho, hi, hj⟩
    exact ⟨hi.1, ho, hj⟩
  · rintro ⟨hi, ho, hj⟩
    have hlen := ho.1
    exact ⟨ho, ⟨hi, by omega⟩, hj⟩

lemma find_eq_none : find t s start = none ↔ ∀ i, sliceIndex t.length start ≤ i → ¬ OccursAt s t i := by
  unfold find
  rw [List.find?_range'_eq_none]
  simp only [Bool.not_eq_true', decide_eq_false_iff_not]
  constructor
  · intro h i hi ho
    have hlen := ho.1
    exact h i hi (by omega) ho
  · exact fun h i hi _ => h i hi

end Find

end Gambit.Lib
