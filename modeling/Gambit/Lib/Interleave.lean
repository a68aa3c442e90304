import Mathlib.Tactic.Ring

/-!
# Interleaving over ranks

The positions of a virtual block are dealt out to `w` ranks, `i` of them in a row to each: position `x` goes to
`rankOf`, where it has the offset `offsetOf`. Rank and offset determine the position (`interleave_inj`), and the
offsets of a virtual block of `k` positions per rank are below `k` if `i` divides `k`.
-/

namespace Gambit.Lib

variable {w i k x y : Nat}

/-- The rank of a position. -/
def rankOf (w i x : Nat) : Nat := x / i % w

/-- The offset of a position on its rank. -/
def offsetOf (w i x : Nat) : Nat := x / (w * i) * i + x % i

lemma rankOf_lt (hw : 0 < w) : rankOf w i x < w := Nat.mod_lt _ hw

lemma offsetOf_div (hi : 0 < i) : offsetOf w i x / i = x / i / w := by
  unfold offsetOf
  rw [Nat.add_comm, Nat.add_mul_div_right _ _ hi, Nat.div_eq_of_lt (Nat.mod_lt _ hi), Nat.zero_add, Nat.mul_comm w,
    Nat.div_div_eq_div_mul]

lemma offsetOf_mod : offsetOf w i x % i = x % i := by
  unfold offsetOf
  rw [Nat.mul_add_mod_self_right, Nat.mod_mod]

/-- Rank and offset determine the position. -/
lemma interleave_inj (hi : 0 < i) (hr : rankOf w i x = rankOf w i y) (ho : offsetOf w i x = offsetOf w i y) :
    x = y := by
  have hq : x / i / w = y / i / w := by
    rw [← offsetOf_div hi, ho, offsetOf_div hi]
  have hm : x % i = y % i := by
    rw [← offsetOf_mod (w := w), ho, offsetOf_mod]
  have hdiv : x / i = y / i := by
    rw [← Nat.div_add_mod (x / i) w, ← Nat.div_add_mod (y / i) w, hq]
    exact congrArg _ hr
  rw [← Nat.div_add_mod x i, ← Nat.div_add_mod y i, hdiv, hm]

/-- The offsets of a virtual block fill the blocks of its ranks. -/
lemma offsetOf_lt (hi : 0 < i) (hik : i ∣ k) (hx : x < k * w) : offsetOf w i x < k := by
  obtain ⟨m, rfl⟩ := hik
  have hq : x / i / w < m := by
    apply Nat.div_lt_of_lt_mul
    apply Nat.div_lt_of_lt_mul
    calc x < i * m * w := hx
      _ = i * (w * m) := by ring
  have hlt : offsetOf w i x / i < m := by
    rw [offsetOf_div hi]
    exact hq
  rw [Nat.mul_comm]
  exact (Nat.div_lt_iff_lt_mul hi).1 hlt

/-- One rank has all positions as they are. -/
lemma offsetOf_one : offsetOf 1 i x = x := by
  unfold offsetOf
  rw [Nat.one_mul, Nat.mul_comm, Nat.div_add_mod]

lemma rankOf_one : rankOf 1 i x = 0 := Nat.mod_one _

/-- A number in base `k` has its digits. -/
lemma digits_inj {n n' o o' : Nat} (ho : o < k) (ho' : o' < k) (h : n * k + o = n' * k + o') : n = n' ∧ o = o' := by
  have hk : 0 < k := Nat.zero_lt_of_lt ho
  have hn : ∀ {n o : Nat}, o < k → (n * k + o) / k = n := by
    intro n o ho
    rw [Nat.add_comm, Nat.add_mul_div_right _ _ hk, Nat.div_eq_of_lt ho, Nat.zero_add]
  have heq : n = n' := (hn ho).symm.trans ((congrArg (· / k) h).trans (hn ho'))
  subst heq
  exact ⟨rfl, Nat.add_left_cancel h⟩

end Gambit.Lib
