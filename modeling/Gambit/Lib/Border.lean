import Mathlib.Data.List.Basic
import Mathlib.Order.Bounds.Basic

/-!
# Borders of a text

A border of the first `i` elements of a text is a shorter prefix that ends them too. The longest border of a
prefix, no longer than a cap, is found from the borders of the prefixes before it by the rules of Knuth, Morris
and Pratt: `Candidate` is a border that the next element may extend while no longer one can be extended, and an
element extends it (`Candidate.extend`), sends it to its own longest border (`Candidate.fall`) or shows that
there is no border but the empty one (`Candidate.give_up`).
-/

namespace Gambit.Lib

variable {α : Type} {t : List α} {cap i p q v w : Nat}

/-- The first `v` elements end the first `i` elements. -/
def EndsAt (t : List α) (v i : Nat) : Prop := v ≤ i ∧ t.take v <:+ t.take i

lemma EndsAt.zero (t : List α) (i : Nat) : EndsAt t 0 i := ⟨Nat.zero_le i, List.nil_suffix⟩

lemma EndsAt.trans (h : EndsAt t v w) (h' : EndsAt t w i) : EndsAt t v i :=
  ⟨h.1.trans h'.1, h.2.trans h'.2⟩

/-- Of two prefixes that end the same one, the shorter ends the longer. -/
lemma EndsAt.of_le (h : EndsAt t v i) (h' : EndsAt t w i) (hle : v ≤ w) : EndsAt t v w := by
  refine ⟨hle, List.suffix_of_suffix_length_le h.2 h'.2 ?_⟩
  rw [List.length_take, List.length_take]
  omega

/-- One more element. -/
lemma endsAt_succ_iff (hi : i < t.length) : EndsAt t (v + 1) (i + 1) ↔ EndsAt t v i ∧ t[v]? = t[i]? := by
  constructor
  · rintro ⟨hle, hs⟩
    have hvi : v ≤ i := Nat.le_of_succ_le_succ hle
    have hv : v < t.length := Nat.lt_of_le_of_lt hvi hi
    rw [List.take_succ_eq_append_getElem hv, List.take_succ_eq_append_getElem hi, List.suffix_concat_iff] at hs
    obtain hs | ⟨l, hl, hs⟩ := hs
    · exact absurd hs (List.append_ne_nil_of_right_ne_nil _ (List.cons_ne_nil _ _))
    · obtain ⟨rfl, he⟩ := List.append_inj' hl rfl
      rw [List.getElem?_eq_getElem hv, List.getElem?_eq_getElem hi, (List.cons.inj he).1]
      exact ⟨⟨hvi, hs⟩, rfl⟩
  · rintro ⟨⟨hvi, hs⟩, he⟩
    have hv : v < t.length := Nat.lt_of_le_of_lt hvi hi
    rw [List.getElem?_eq_getElem hv, List.getElem?_eq_getElem hi] at he
    refine ⟨Nat.succ_le_succ hvi, ?_⟩
    rw [List.take_succ_eq_append_getElem hv, List.take_succ_eq_append_getElem hi, Option.some.inj he,
      List.suffix_concat_iff]
    exact .inr ⟨_, rfl, hs⟩

/-- The longest border of the first `i` elements, no longer than `cap`. -/
def LongestBorder (t : List α) (cap i v : Nat) : Prop := IsGreatest {w | w < i ∧ w ≤ cap ∧ EndsAt t w i} v

/-- A border of the first `i` elements that the next element may extend, while it extends no longer one. -/
structure Candidate (t : List α) (cap i p : Nat) : Prop where
  lt : p < i
  below : p < cap
  ends : EndsAt t p i
  most : ∀ w, w < i → w < cap → EndsAt t w i → t[w]? = t[i]? → w ≤ p

/-- One element has the empty border only. -/
lemma LongestBorder.one (t : List α) (cap : Nat) : LongestBorder t cap 1 0 :=
  ⟨⟨Nat.one_pos, Nat.zero_le _, .zero t 1⟩, fun _ hw => Nat.le_of_lt_succ hw.1⟩

/-- The longest border is the candidate for the next element. -/
lemma LongestBorder.candidate (h : LongestBorder t cap i v) (hv : v < cap) : Candidate t cap i v :=
  ⟨h.1.1, hv, h.1.2.2, fun _ hw hcap hends _ => h.2 ⟨hw, hcap.le, hends⟩⟩

/-- A border as long as the cap is not extended: the candidate is its own longest border. -/
lemma LongestBorder.candidate_of_cap (h : LongestBorder t cap i cap) (hq : LongestBorder t cap cap q) :
    Candidate t cap i q :=
  ⟨hq.1.1.trans h.1.1, hq.1.1, hq.1.2.2.trans h.1.2.2,
    fun _ _ hcap hends _ => hq.2 ⟨hcap, hcap.le, hends.of_le h.1.2.2 hcap.le⟩⟩

/-- The next element extends the candidate. -/
lemma Candidate.extend (h : Candidate t cap i p) (hi : i < t.length) (he : t[p]? = t[i]?) :
    LongestBorder t cap (i + 1) (p + 1) := by
  refine ⟨⟨Nat.succ_lt_succ h.lt, h.below, (endsAt_succ_iff hi).2 ⟨h.ends, he⟩⟩, fun w ⟨hw, hcap, hends⟩ => ?_⟩
  cases w with
  | zero => exact Nat.zero_le _
  | succ w =>
    obtain ⟨hends, he⟩ := (endsAt_succ_iff hi).1 hends
    exact Nat.succ_le_succ (h.most w (Nat.lt_of_succ_lt_succ hw) hcap hends he)

/-- The next element does not extend the candidate: its longest border is the next candidate. -/
lemma Candidate.fall (h : Candidate t cap i p) (hne : t[p]? ≠ t[i]?) (hq : LongestBorder t cap p q) :
    Candidate t cap i q := by
  refine ⟨hq.1.1.trans h.lt, hq.1.1.trans h.below, hq.1.2.2.trans h.ends, fun w hw hcap hends he => ?_⟩
  have hlt : w < p := lt_of_le_of_ne (h.most w hw hcap hends he) fun hwp => hne (hwp ▸ he)
  exact hq.2 ⟨hlt, hcap.le, hends.of_le h.ends hlt.le⟩

/-- The next element does not extend the empty candidate: there is no border. -/
lemma Candidate.give_up (h : Candidate t cap i 0) (hi : i < t.length) (hne : t[0]? ≠ t[i]?) :
    LongestBorder t cap (i + 1) 0 := by
  refine ⟨⟨Nat.succ_pos i, Nat.zero_le _, .zero t _⟩, fun w ⟨hw, hcap, hends⟩ => ?_⟩
  cases w with
  | zero => exact le_rfl
  | succ w =>
    obtain ⟨hends, he⟩ := (endsAt_succ_iff hi).1 hends
    have hw0 := h.most w (Nat.lt_of_succ_lt_succ hw) hcap hends he
    rw [Nat.le_zero.1 hw0] at he
    exact absurd he hne

end Gambit.Lib
