import Mathlib.Data.List.Basic
import Mathlib.Data.List.Range
import Mathlib.Tactic.SplitIfs

/-!
# UTF-8

The encoding of a text as bytes and the decoder of the language's `bytes.decode`, with its two error
handlers. A byte is a natural number. The decoder reads one character at a time: a well-formed sequence
gives its code point, anything else an error that spans the longest start of a well-formed sequence.
`strict` fails on an error and `replace` puts the replacement character in its place.

`steps_take_encode` says what decoding a cut text gives: the characters that fit into the cut and, where the
cut goes through a character, errors after them.
-/

namespace Gambit.Lib.Utf8

/-- Texts are compared character by character: the one instance behind every test of membership in a list of texts. -/
instance lawfulBEqText : LawfulBEq (List Char) := inferInstance

/-- The bytes of a character. -/
def encodeChar (c : Char) : List Nat :=
  let n := c.toNat
  if n < 0x80 then [n]
  else if n < 0x800 then [0xC0 + n / 64, 0x80 + n % 64]
  else if n < 0x10000 then [0xE0 + n / 4096, 0x80 + n / 64 % 64, 0x80 + n % 64]
  else [0xF0 + n / 262144, 0x80 + n / 4096 % 64, 0x80 + n / 64 % 64, 0x80 + n % 64]

/-- The bytes of a text. -/
def encode (t : List Char) : List Nat := t.flatMap encodeChar

/-- A continuation byte. -/
def isTail (b : Nat) : Bool := 0x80 ≤ b && b < 0xC0

/-- May `b'` follow the first byte `b` of a sequence of three? No overlong form and no surrogate. -/
def second3 (b b' : Nat) : Bool := isTail b' && (b != 0xE0 || 0xA0 ≤ b') && (b != 0xED || b' < 0xA0)

/-- May `b'` follow the first byte `b` of a sequence of four? No overlong form and nothing above U+10FFFF. -/
def second4 (b b' : Nat) : Bool := isTail b' && (b != 0xF0 || 0x90 ≤ b') && (b != 0xF4 || b' < 0x90)

/-- The character that starts with byte `b`, `none` for an error, and how many of the following bytes it takes. -/
def step (b : Nat) (rest : List Nat) : Option Nat × Nat :=
  if b < 0x80 then (some b, 0)
  else if b < 0xC2 then (none, 0)
  else if b < 0xE0 then
    match rest with
    | b1 :: _ => if isTail b1 then (some ((b - 0xC0) * 64 + (b1 - 0x80)), 1) else (none, 0)
    | [] => (none, 0)
  else if b < 0xF0 then
    match rest with
    | b1 :: b2 :: _ =>
      if second3 b b1 then
        if isTail b2 then (some ((b - 0xE0) * 4096 + (b1 - 0x80) * 64 + (b2 - 0x80)), 2) else (none, 1)
      else (none, 0)
    | [b1] => if second3 b b1 then (none, 1) else (none, 0)
    | [] => (none, 0)
  else if b < 0xF5 then
    match rest with
    | b1 :: b2 :: b3 :: _ =>
      if second4 b b1 then
        if isTail b2 then
          if isTail b3 then
            (some ((b - 0xF0) * 262144 + (b1 - 0x80) * 4096 + (b2 - 0x80) * 64 + (b3 - 0x80)), 3)
          else (none, 2)
        else (none, 1)
      else (none, 0)
    | [b1, b2] => if second4 b b1 then if isTail b2 then (none, 2) else (none, 1) else (none, 0)
    | [b1] => if second4 b b1 then (none, 1) else (none, 0)
    | [] => (none, 0)
  else (none, 0)

/-- The characters and the errors of a list of bytes, after its first `skip` bytes. -/
def steps : Nat → List Nat → List (Option Nat)
  | _, [] => []
  | skip + 1, _ :: l => steps skip l
  | 0, b :: l => (step b l).1 :: steps (step b l).2 l

/-- `bytes.decode("utf-8")`: the code points, or nothing where the bytes are not UTF-8. -/
def strict (bytes : List Nat) : Option (List Nat) := (steps 0 bytes).mapM id

/-- The replacement character. -/
def replacement : Nat := 0xFFFD

/-- `bytes.decode("utf-8", errors="replace")`. -/
def replace (bytes : List Nat) : List Nat := (steps 0 bytes).map (·.getD replacement)

/-- The code points of a text. -/
def points (t : List Char) : List Nat := t.map Char.toNat

/-- A test of all characters of a text. -/
lemma forall_of_all {P : Char → Prop} [DecidablePred P] {t : List Char} (h : t.all fun c => decide (P c)) :
    ∀ c ∈ t, P c := fun c hc => of_decide_eq_true (List.all_eq_true.1 h c hc)

/-- The decoder reads a character from the bytes of the character. -/
lemma steps_encodeChar (c : Char) (l : List Nat) :
    steps 0 (encodeChar c ++ l) = some c.toNat :: steps 0 l := by
  have hv : c.toNat < 0xD800 ∨ 0xDFFF < c.toNat ∧ c.toNat < 0x110000 := c.valid
  generalize hn : c.toNat = n at hv
  simp only [encodeChar, hn]
  split_ifs with h1 h2 h3
  · simp [steps, step, h1]
  · have e : (0xC0 + n / 64 - 0xC0) * 64 + (0x80 + n % 64 - 0x80) = n := by omega
    have ha : ¬ 0xC0 + n / 64 < 0x80 ∧ ¬ 0xC0 + n / 64 < 0xC2 ∧ 0xC0 + n / 64 < 0xE0 := by omega
    have hb : isTail (0x80 + n % 64) = true := by simp [isTail]; omega
    simp only [List.cons_append, List.nil_append, steps, step, ha, hb, e, if_true, if_false]
  · have e : (0xE0 + n / 4096 - 0xE0) * 4096 + (0x80 + n / 64 % 64 - 0x80) * 64 + (0x80 + n % 64 - 0x80) = n := by
      omega
    have ha : ¬ 0xE0 + n / 4096 < 0x80 ∧ ¬ 0xE0 + n / 4096 < 0xC2 ∧ ¬ 0xE0 + n / 4096 < 0xE0 ∧
        0xE0 + n / 4096 < 0xF0 := by omega
    have hb : isTail (0x80 + n % 64) = true := by simp [isTail]; omega
    have hc : second3 (0xE0 + n / 4096) (0x80 + n / 64 % 64) = true := by
      simp only [second3, isTail, Bool.and_eq_true, Bool.or_eq_true, bne_iff_ne, decide_eq_true_eq]
      omega
    simp only [List.cons_append, List.nil_append, steps, step, ha, hb, hc, e, if_true, if_false]
  · have e : (0xF0 + n / 262144 - 0xF0) * 262144 + (0x80 + n / 4096 % 64 - 0x80) * 4096 +
        (0x80 + n / 64 % 64 - 0x80) * 64 + (0x80 + n % 64 - 0x80) = n := by omega
    have ha : ¬ 0xF0 + n / 262144 < 0x80 ∧ ¬ 0xF0 + n / 262144 < 0xC2 ∧ ¬ 0xF0 + n / 262144 < 0xE0 ∧
        ¬ 0xF0 + n / 262144 < 0xF0 ∧ 0xF0 + n / 262144 < 0xF5 := by omega
    have hb : isTail (0x80 + n % 64) = true := by simp [isTail]; omega
    have hb' : isTail (0x80 + n / 64 % 64) = true := by simp [isTail]; omega
    have hc : second4 (0xF0 + n / 262144) (0x80 + n / 4096 % 64) = true := by
      simp only [second4, isTail, Bool.and_eq_true, Bool.or_eq_true, bne_iff_ne, decide_eq_true_eq]
      omega
    simp only [List.cons_append, List.nil_append, steps, step, ha, hb, hb', hc, e, if_true, if_false]

/-- The decoder reads a text from the bytes of the text. -/
lemma steps_encode (t : List Char) (l : List Nat) :
    steps 0 (encode t ++ l) = (points t).map some ++ steps 0 l := by
  induction t with
  | nil => rfl
  | cons c t ih =>
    rw [encode, List.flatMap_cons, List.append_assoc, steps_encodeChar]
    exact congrArg _ ih

/-- Strict decoding reads a text back. -/
lemma strict_encode (t : List Char) : strict (encode t) = some (points t) := by
  have h := steps_encode t []
  rw [List.append_nil] at h
  rw [strict, h, steps, List.append_nil]
  induction points t with
  | nil => rfl
  | cons u us ih => simp only [List.map_cons, List.mapM_cons, ih, id, Option.pure_def, Option.bind_eq_bind, Option.bind_some]

/-- A proper start of a character's bytes is one error. -/
lemma steps_take_encodeChar {c : Char} {k : Nat} (hk : k < (encodeChar c).length) :
    ∃ r, steps 0 ((encodeChar c).take k) = List.replicate r none := by
  have hv : c.toNat < 0xD800 ∨ 0xDFFF < c.toNat ∧ c.toNat < 0x110000 := c.valid
  generalize hn : c.toNat = n at hv
  obtain _ | k := k
  · exact ⟨0, rfl⟩
  refine ⟨1, ?_⟩
  simp only [encodeChar, hn] at hk ⊢
  split_ifs at hk ⊢ with h1 h2 h3
  · exact absurd hk (by simp)
  · obtain rfl : k = 0 := by simp only [List.length_cons, List.length_nil] at hk; omega
    have ha : ¬ 0xC0 + n / 64 < 0x80 ∧ ¬ 0xC0 + n / 64 < 0xC2 ∧ 0xC0 + n / 64 < 0xE0 := by omega
    simp only [List.take_succ_cons, List.take_zero, steps, step, ha, if_true, if_false]
    rfl
  · have ha : ¬ 0xE0 + n / 4096 < 0x80 ∧ ¬ 0xE0 + n / 4096 < 0xC2 ∧ ¬ 0xE0 + n / 4096 < 0xE0 ∧
        0xE0 + n / 4096 < 0xF0 := by omega
    have hc : second3 (0xE0 + n / 4096) (0x80 + n / 64 % 64) = true := by
      simp only [second3, isTail, Bool.and_eq_true, Bool.or_eq_true, bne_iff_ne, decide_eq_true_eq]
      omega
    obtain rfl | rfl : k = 0 ∨ k = 1 := by simp only [List.length_cons, List.length_nil] at hk; omega
    · simp only [List.take_succ_cons, List.take_zero, steps, step, ha, if_true, if_false]
      rfl
    · simp only [List.take_succ_cons, List.take_zero, steps, step, ha, hc, if_true, if_false]
      rfl
  · have ha : ¬ 0xF0 + n / 262144 < 0x80 ∧ ¬ 0xF0 + n / 262144 < 0xC2 ∧ ¬ 0xF0 + n / 262144 < 0xE0 ∧
        ¬ 0xF0 + n / 262144 < 0xF0 ∧ 0xF0 + n / 262144 < 0xF5 := by omega
    have hb : isTail (0x80 + n / 64 % 64) = true := by simp [isTail]; omega
    have hc : second4 (0xF0 + n / 262144) (0x80 + n / 4096 % 64) = true := by
      simp only [second4, isTail, Bool.and_eq_true, Bool.or_eq_true, bne_iff_ne, decide_eq_true_eq]
      omega
    obtain rfl | rfl | rfl : k = 0 ∨ k = 1 ∨ k = 2 := by
      simp only [List.length_cons, List.length_nil] at hk
      omega
    · simp only [List.take_succ_cons, List.take_zero, steps, step, ha, if_true, if_false]
      rfl
    · simp only [List.take_succ_cons, List.take_zero, steps, step, ha, hc, if_true, if_false]
      rfl
    · simp only [List.take_succ_cons, List.take_zero, steps, step, ha, hb, hc, if_true, if_false]
      rfl

/-- Decoding the first `n` bytes of a text gives the characters that end among them, and errors. -/
lemma steps_take_encode (t : List Char) (n : Nat) :
    ∃ k r, steps 0 ((encode t).take n) = (points (t.take k)).map some ++ List.replicate r none ∧
      ∀ m, (encode (t.take m)).length ≤ n ↔ min m t.length ≤ k := by
  induction t generalizing n with
  | nil => exact ⟨0, 0, by simp [encode, points, steps], by simp [encode]⟩
  | cons c t ih =>
    have e : encode (c :: t) = encodeChar c ++ encode t := List.flatMap_cons
    rcases Nat.lt_or_ge n (encodeChar c).length with hn | hn
    · obtain ⟨r, hr⟩ := steps_take_encodeChar hn
      refine ⟨0, r, ?_, ?_⟩
      · rw [e, List.take_append_of_le_length hn.le, hr]
        rfl
      · rintro (_ | m)
        · simp [encode]
        · simp only [List.take_succ_cons, encode, List.flatMap_cons, List.length_append, List.length_cons]
          omega
    · obtain ⟨k, r, hk, hm⟩ := ih (n - (encodeChar c).length)
      refine ⟨k + 1, r, ?_, ?_⟩
      · rw [e, List.take_append, List.take_of_length_le hn, steps_encodeChar, hk]
        rfl
      · rintro (_ | m)
        · simp [encode]
        · specialize hm m
          simp only [List.take_succ_cons, encode, List.flatMap_cons, List.length_append, List.length_cons] at hm ⊢
          omega

end Gambit.Lib.Utf8
