import Mathlib.Data.Int.Log
import Mathlib.Data.Rat.Floor
import Mathlib.Tactic.Linarith
import Mathlib.Tactic.Positivity

/-!
# Rounding to a binary format

What a number becomes when it is stored in a binary floating-point format: the nearest number of the format, and the
even one of two that are equally near. Numbers are rationals, and the formats have no largest number.
-/

namespace Gambit.Lib

/-- The nearest integer, and the even one of two. -/
def roundEven (q : ℚ) : Int :=
  let n := ⌊q⌋
  if q - n < 1 / 2 then n else if 1 / 2 < q - n then n + 1 else if n % 2 = 0 then n else n + 1

/-- An integer is its own. -/
lemma roundEven_intCast (n : Int) : roundEven n = n := by
  unfold roundEven
  rw [Int.floor_intCast]
  dsimp only
  rw [sub_self, if_pos (by norm_num)]

lemma roundEven_zero : roundEven 0 = 0 := roundEven_intCast 0

/-- Rounding does not go past an integer. -/
lemma abs_roundEven_le {q : ℚ} {n : Int} (h : |q| ≤ n) : |roundEven q| ≤ n := by
  obtain ⟨hlo, hhi⟩ := abs_le.1 h
  have hfloor : -n ≤ ⌊q⌋ := Int.le_floor.2 (by push_cast; exact hlo)
  have hceil : ⌊q⌋ ≤ n := Int.floor_le_iff.2 (by linarith)
  have hup : q ≠ ⌊q⌋ → ⌊q⌋ + 1 ≤ n := by
    intro hne
    have hlt : ((⌊q⌋ : Int) : ℚ) < n := lt_of_lt_of_le (lt_of_le_of_ne (Int.floor_le q) hne.symm) hhi
    exact_mod_cast hlt
  have hdown : ¬ q - ⌊q⌋ < 1 / 2 → ⌊q⌋ + 1 ≤ n := by
    intro hge
    refine hup fun he => hge ?_
    rw [← he, sub_self]
    norm_num
  unfold roundEven
  dsimp only
  rw [abs_le]
  split
  · exact ⟨hfloor, hceil⟩
  · next hge =>
    have h1 := hdown hge
    split
    · omega
    · split
      · omega
      · omega

/-- What is above one half is not rounded down to zero. -/
lemma roundEven_pos {q : ℚ} (h : 1 / 2 < q) : 0 < roundEven q := by
  have h0 : 0 ≤ ⌊q⌋ := Int.floor_nonneg.2 (by linarith)
  unfold roundEven
  dsimp only
  split
  · next hlt =>
    -- the floor of a number between one half and one is rounded up
    rcases h0.lt_or_eq with hpos | hzero
    · exact hpos
    · rw [← hzero, Int.cast_zero, sub_zero] at hlt
      linarith
  · split
    · omega
    · next hle hge =>
      split
      · rcases h0.lt_or_eq with hpos | hzero
        · exact hpos
        · rw [← hzero, Int.cast_zero, sub_zero] at hge
          exact absurd h hge
      · omega

/-- A binary format: how many digits, and the exponent of its least positive number. -/
structure BinaryFormat where
  precision : Nat
  minExponent : Int

namespace BinaryFormat
variable (F : BinaryFormat) {q : ℚ}

/-- The format of single precision. -/
def binary32 : BinaryFormat := ⟨24, -149⟩

/-- The exponent of the last digit of a number. -/
def lastPlace (q : ℚ) : Int := max (Int.log 2 |q| + 1 - F.precision) F.minExponent

/-- The number that is stored. -/
def round (q : ℚ) : ℚ := roundEven (q / 2 ^ F.lastPlace q) * 2 ^ F.lastPlace q

lemma round_zero : F.round 0 = 0 := by
  rw [round, zero_div, roundEven_zero, Int.cast_zero, zero_mul]

/-- What is above half of the least positive number is not lost. -/
lemma round_pos (h : 2 ^ F.minExponent / 2 < q) (hp : 0 < F.precision) : 0 < F.round q := by
  have h2 : ∀ e : ℤ, (0 : ℚ) < 2 ^ e := fun e => zpow_pos two_pos e
  have hpos : 0 < q := lt_trans (by have := h2 F.minExponent; linarith) h
  have hhalf : 1 / 2 < q / 2 ^ F.lastPlace q := by
    rw [lt_div_iff₀ (h2 _)]
    unfold lastPlace
    rcases max_choice (Int.log 2 |q| + 1 - F.precision) F.minExponent with he | he
    · rw [he, abs_of_pos hpos]
      have hle : (2 : ℚ) ^ (Int.log 2 q + 1 - F.precision) ≤ q := by
        refine le_trans (zpow_le_zpow_right₀ (by norm_num) (by omega)) (?_ : (2 : ℚ) ^ Int.log 2 q ≤ q)
        exact_mod_cast Int.zpow_log_le_self (b := 2) (by decide) hpos
      linarith [h2 (Int.log 2 q + 1 - F.precision)]
    · rw [he]
      linarith
  have hround : (0 : ℚ) < roundEven (q / 2 ^ F.lastPlace q) := by exact_mod_cast roundEven_pos hhalf
  exact mul_pos hround (h2 _)

/-- A rounded number is an integer of at most as many digits as there are, at its last place. -/
lemma round_eq (q : ℚ) : ∃ (k e : Int), F.round q = k * 2 ^ e ∧ F.minExponent ≤ e ∧ |k| ≤ 2 ^ F.precision := by
  refine ⟨_, _, rfl, le_max_right _ _, ?_⟩
  have hle : |q / 2 ^ F.lastPlace q| ≤ ((2 ^ F.precision : Int) : ℚ) := by
    have h2 : (0 : ℚ) < 2 ^ F.lastPlace q := zpow_pos two_pos _
    rw [abs_div, abs_of_pos h2, div_le_iff₀ h2]
    have hlt : |q| < (2 : ℚ) ^ (Int.log 2 |q| + 1) := by
      exact_mod_cast Int.lt_zpow_succ_log_self (b := 2) (by decide) |q|
    refine hlt.le.trans ?_
    push_cast
    rw [← zpow_natCast, ← zpow_add₀ (by norm_num)]
    refine zpow_le_zpow_right₀ (by norm_num) ?_
    unfold lastPlace
    omega
  exact_mod_cast abs_roundEven_le hle

/-- A number that is an integer at its last place is stored as it is. -/
lemma round_of_int {k : Int} (h : q / 2 ^ F.lastPlace q = k) : F.round q = q := by
  have h2 : (2 : ℚ) ^ F.lastPlace q ≠ 0 := (zpow_pos two_pos _).ne'
  rw [round, h, roundEven_intCast, ← h, div_mul_cancel₀ _ h2]

/-- Storing what was stored. -/
lemma round_round (hp : 0 < F.precision) (q : ℚ) : F.round (F.round q) = F.round q := by
  obtain ⟨k, e, hq, he, hk⟩ := F.round_eq q
  generalize F.round q = x at hq ⊢
  by_cases hx0 : x = 0
  · rw [hx0, round_zero]
  have hsplit : ∀ d : Int, d ≤ e → x / 2 ^ d = ((k * 2 ^ (e - d).toNat : Int) : ℚ) := by
    intro d hd
    rw [hq, mul_div_assoc, ← zpow_sub₀ (by norm_num : (2 : ℚ) ≠ 0)]
    push_cast
    rw [← zpow_natCast, Int.toNat_of_nonneg (by omega)]
  by_cases hlast : F.lastPlace x ≤ e
  · exact F.round_of_int (hsplit _ hlast)
  · -- only a power of two has its last place higher up
    have hlog : F.lastPlace x = Int.log 2 |x| + 1 - F.precision := by
      unfold lastPlace at hlast ⊢
      omega
    have hx : |x| ≤ 2 ^ (e + F.precision) := by
      rw [hq, abs_mul, abs_of_pos (zpow_pos two_pos e : (0 : ℚ) < 2 ^ e), add_comm,
        zpow_add₀ (by norm_num), zpow_natCast]
      exact mul_le_mul_of_nonneg_right (by exact_mod_cast hk) (zpow_pos two_pos e).le
    have hpow : (2 : ℚ) ^ (e + F.precision) ≤ |x| := by
      refine le_trans (zpow_le_zpow_right₀ (by norm_num) (by omega)) (?_ : (2 : ℚ) ^ Int.log 2 |x| ≤ |x|)
      exact_mod_cast Int.zpow_log_le_self (b := 2) (by decide) (abs_pos.2 hx0)
    have hone : F.lastPlace x = e + 1 := by
      have hval : |x| = ((2 : ℕ) : ℚ) ^ (e + F.precision) := by
        push_cast
        exact le_antisymm hx hpow
      rw [hlog, hval, Int.log_zpow (by decide)]
      omega
    have hquot : (2 : ℚ) ^ (e + F.precision) / 2 ^ (e + 1) = ((2 ^ (F.precision - 1) : Int) : ℚ) := by
      rw [← zpow_sub₀ (by norm_num : (2 : ℚ) ≠ 0), add_sub_add_left_eq_sub]
      push_cast
      rw [← zpow_natCast, Nat.cast_sub hp, Nat.cast_one]
    rcases abs_choice x with hsign | hsign
    · refine F.round_of_int (k := 2 ^ (F.precision - 1)) ?_
      rw [hone, ← hquot, ← hsign, le_antisymm hx hpow]
    · refine F.round_of_int (k := -2 ^ (F.precision - 1)) ?_
      have hneg : x = -2 ^ (e + F.precision) := by
        rw [← le_antisymm hx hpow, hsign, neg_neg]
      rw [hone, Int.cast_neg, ← hquot, hneg, neg_div]

end BinaryFormat
end Gambit.Lib
