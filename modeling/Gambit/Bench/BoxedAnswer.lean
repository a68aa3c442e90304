import Mathlib.Data.List.DropRight
import Gambit.Bench.ResultFile

/-!
# The boxed answer of a generation

What `extract_answer` finds in a text that has the word `boxed`. Only what follows the last occurrence of the
word counts. After an opening brace the answer goes to the brace that closes it, whatever is nested inside, or
to the end when no brace does; otherwise it goes to the first dollar sign.

The code keeps a stack of open braces while it copies the text. `depth` counts the same braces in a prefix, and
the proofs follow the text with the number of open braces generalised.
-/

namespace Gambit.Bench
open Gambit.Lib

/-- The word `w` occurs in `t` between `u` and `ans`, and nowhere further right. -/
def LastOccurrence (w t u ans : Text) : Prop :=
  t = u ++ w ++ ans ∧ ∀ u' ans', t = u' ++ w ++ ans' → u'.length ≤ u.length

lemma afterLast_eq_none {w t : Text} (h : ∀ u ans, t ≠ u ++ w ++ ans) : afterLast w t = none := by
  induction t with
  | nil => rfl
  | cons c t ih =>
    have hr : afterLast w t = none := by
      apply ih
      intro u ans e
      apply h (c :: u) ans
      simp [e]
    have hd : (c :: t).dropPrefix? w = none := by
      apply Option.eq_none_iff_forall_ne_some.mpr
      intro ans e
      obtain ⟨p, e, hp⟩ := List.dropPrefix?_eq_some_iff.mp e
      cases eq_of_beq hp
      exact h [] ans e
    simp only [afterLast, hr, hd, Option.or_none]

/-- An occurrence is the last one when the word starts nowhere further right. -/
lemma lastOccurrence_of_drop {w u ans : Text}
    (h : ∀ i ≤ (u ++ w ++ ans).length, u.length < i → ¬w <+: (u ++ w ++ ans).drop i) :
    LastOccurrence w (u ++ w ++ ans) u ans := by
  refine ⟨rfl, ?_⟩
  intro u' ans' e
  apply Nat.le_of_not_lt
  intro hlt
  apply h u'.length _ hlt
  · rw [e, List.append_assoc, List.drop_left]
    exact List.prefix_append w ans'
  · rw [e]
    simp

/-- The search from the left finds what follows the last occurrence. -/
lemma afterLast_of_last {w t u ans : Text} (hw : w ≠ []) (h : LastOccurrence w t u ans) :
    afterLast w t = some ans := by
  obtain ⟨e, hl⟩ := h
  induction t generalizing u with
  | nil =>
    have : w = [] := by
      apply List.eq_nil_of_length_eq_zero
      have := congrArg List.length e
      simp at this
      omega
    exact absurd this hw
  | cons c t ih =>
    cases u with
    | nil =>
      have hr : afterLast w t = none := by
        apply afterLast_eq_none
        intro u' ans' e'
        have := hl (c :: u') ans' (by simp [e'])
        simp at this
      have hd : (c :: t).dropPrefix? w = some ans := by
        rw [e]
        exact List.dropPrefix?_append_of_beq ans (beq_self_eq_true w)
      simp only [afterLast, hr, hd, Option.none_or]
    | cons c' u =>
      simp only [List.cons_append, List.cons.injEq] at e
      have hr : afterLast w t = some ans := by
        apply ih e.2
        intro u' ans' e'
        have := hl (c :: u') ans' (by simp [e'])
        simpa using this
      simp only [afterLast, hr, Option.some_or]

/-- How many more braces a text opens than it closes. -/
def depth (t : Text) : Int :=
  (t.count '{' : Int) - t.count '}'

@[simp] lemma depth_nil : depth [] = 0 := rfl

@[simp] lemma depth_open (t : Text) : depth ('{' :: t) = depth t + 1 := by
  simp [depth]
  omega

@[simp] lemma depth_close (t : Text) : depth ('}' :: t) = depth t - 1 := by
  simp [depth]
  omega

lemma depth_other {c : Char} (t : Text) (ho : c ≠ '{') (hc : c ≠ '}') : depth (c :: t) = depth t := by
  simp [depth, List.count_cons_of_ne ho, List.count_cons_of_ne hc]

/-- With `stack` braces open before it, position `j` of the text is the first where the depth is back at zero. -/
structure Closes (stack : Nat) (t : Text) (j : Nat) : Prop where
  lt : j < t.length
  zero : stack + depth (t.take (j + 1)) = 0
  first : ∀ i ≤ j, stack + depth (t.take i) ≠ 0

/-- A closing position is not moved by reading one character. -/
lemma Closes.tail {stack stack' j : Nat} {c : Char} {t : Text}
    (hd : ∀ r, stack + depth (c :: r) = stack' + depth r) (h : Closes stack (c :: t) (j + 1)) :
    Closes stack' t j where
  lt := by simpa using h.lt
  zero := by
    rw [← hd]
    exact h.zero
  first i hi := by
    rw [← hd]
    exact h.first (i + 1) (by omega)

lemma Closes.cons {stack stack' j : Nat} {c : Char} {t : Text} (hs : 0 < stack)
    (hd : ∀ r, stack + depth (c :: r) = stack' + depth r) (h : Closes stack' t j) :
    Closes stack (c :: t) (j + 1) where
  lt := by simpa using h.lt
  zero := by
    rw [List.take_succ_cons, hd]
    exact h.zero
  first i hi := by
    cases i with
    | zero =>
      simp only [List.take_zero, depth_nil]
      omega
    | succ i =>
      rw [List.take_succ_cons, hd]
      exact h.first i (by omega)

/-- A character closes the last brace, or it is copied and the number of open braces follows the depth. -/
lemma upToBrace_cons {stack : Nat} (hs : 0 < stack) (c : Char) (t : Text) :
    (c = '}' ∧ stack = 1) ∨
    ∃ stack', 0 < stack' ∧ (∀ r, (stack : Int) + depth (c :: r) = (stack' : Nat) + depth r) ∧
      upToBrace stack (c :: t) = c :: upToBrace stack' t := by
  by_cases ho : c = '{'
  · subst ho
    refine .inr ⟨stack + 1, Nat.succ_pos _, ?_, by simp [upToBrace]⟩
    intro r
    rw [depth_open]
    omega
  by_cases hc : c = '}'
  · subst hc
    by_cases h1 : stack = 1
    · exact .inl ⟨rfl, h1⟩
    · refine .inr ⟨stack - 1, by omega, ?_, by simp [upToBrace, h1]⟩
      intro r
      rw [depth_close]
      omega
  · refine .inr ⟨stack, hs, ?_, by simp [upToBrace, ho, hc]⟩
    intro r
    rw [depth_other r ho hc]

/-- Up to the closing brace the text is copied, braces included. -/
lemma upToBrace_of_closes {stack j : Nat} {t : Text} (hs : 0 < stack) (h : Closes stack t j) :
    upToBrace stack t = t.take j := by
  induction t generalizing stack j with
  | nil => exact absurd h.lt (by simp)
  | cons c t ih =>
    obtain ⟨rfl, rfl⟩ | ⟨stack', hs', hd, e⟩ := upToBrace_cons hs c t
    · cases j with
      | zero => simp [upToBrace]
      | succ j =>
        have := h.first 1 (by omega)
        simp at this
    · cases j with
      | zero =>
        -- the depth is not zero after a character that is copied
        have hz := h.zero
        rw [List.take_succ_cons, hd] at hz
        simp at hz
        omega
      | succ j => rw [e, ih hs' (h.tail hd), List.take_succ_cons]

/-- A text that never closes the brace is copied whole. -/
lemma upToBrace_of_open {stack : Nat} {t : Text} (hs : 0 < stack) (h : ∀ j, ¬Closes stack t j) :
    upToBrace stack t = t := by
  induction t generalizing stack with
  | nil => rfl
  | cons c t ih =>
    obtain ⟨rfl, rfl⟩ | ⟨stack', hs', hd, e⟩ := upToBrace_cons hs c t
    · refine absurd ⟨by simp, by simp, ?_⟩ (h 0)
      intro i hi
      cases Nat.le_zero.mp hi
      simp
    · rw [e, ih hs']
      intro j hj
      exact h (j + 1) (hj.cons hs hd)

lemma strip_eq_rdropWhile (C : Charset) (t : Text) :
    strip C t = (t.dropWhile fun c => C.space c.toNat).rdropWhile fun c => C.space c.toNat := rfl

/-- Stripping at the right leaves the first character, or nothing. -/
lemma strip_head (C : Charset) (t : Text) (h : strip C t ≠ []) :
    ¬C.space ((strip C t).head h).toNat := by
  have hp : strip C t <+: t.dropWhile fun c => C.space c.toNat := by
    rw [strip_eq_rdropWhile]
    exact List.rdropWhile_prefix _ _
  have hd : (t.dropWhile fun c => C.space c.toNat) ≠ [] := by
    intro e
    rw [e] at hp
    exact h (List.prefix_nil.mp hp)
  have he : (strip C t).head h = (t.dropWhile fun c => C.space c.toNat).head hd := hp.head h
  rw [he]
  simpa using List.head_dropWhile_not (fun c : Char => C.space c.toNat) hd

lemma strip_strip (C : Charset) (t : Text) : strip C (strip C t) = strip C t := by
  have hl : ((strip C t).dropWhile fun c => C.space c.toNat) = strip C t := by
    apply List.dropWhile_eq_self_iff.mpr
    intro hpos
    have := strip_head C t (List.ne_nil_of_length_pos hpos)
    simpa [List.head_eq_getElem] using this
  rw [strip_eq_rdropWhile C (strip C t), hl]
  exact List.rdropWhile_idempotent _ _

/-- After the last `boxed` and a brace the answer is what the brace encloses, or all the rest when nothing closes
it; after other text it is what comes before the first dollar sign. It is stripped in every case. -/
theorem extractAnswer_boxed (tools : Tools) (t u ans : Text) (h : LastOccurrence "boxed".toList t u ans) :
    (∀ body, ans = '{' :: body →
      (∀ j, Closes 1 body j → extractAnswer tools t = some (strip tools.chars (body.take j))) ∧
      ((∀ j, ¬Closes 1 body j) → extractAnswer tools t = some (strip tools.chars body))) ∧
    ((∀ body, ans ≠ '{' :: body) →
      extractAnswer tools t = some (strip tools.chars (ans.takeWhile (· ≠ '$')))) := by
  have hl : afterLast "boxed".toList t = some ans := afterLast_of_last (by decide) h
  refine ⟨?_, ?_⟩
  · intro body e
    subst e
    have ha : extractAnswer tools t = some (strip tools.chars (upToBrace 1 body)) := by
      simp only [extractAnswer, hl]
    refine ⟨?_, ?_⟩
    · intro j hj
      rw [ha, upToBrace_of_closes Nat.one_pos hj]
    · intro ho
      rw [ha, upToBrace_of_open Nat.one_pos ho]
  · intro hb
    unfold extractAnswer
    rw [hl]
    split
    · rename_i e
      cases e
      rfl
    · rename_i body e
      exact absurd (Option.some.inj e) (hb body)
    · rename_i e
      cases e
      rw [strip_strip]
    · contradiction

theorem extractAnswer_boxed_nested :
    extractAnswer ⟨.ascii, fun _ => [], fun _ => none, fun _ _ => false, fun _ _ => none⟩
      "boxed 1, boxed\x7b x^\x7b2\x7d \x7d.".toList = some "x^\x7b2\x7d".toList :=
  ((extractAnswer_boxed _ _ "boxed 1, ".toList "\x7b x^\x7b2\x7d \x7d.".toList
    (lastOccurrence_of_drop (by decide))).1 " x^\x7b2\x7d \x7d.".toList rfl).1 7
    ⟨by decide, by decide, by decide⟩

end Gambit.Bench
