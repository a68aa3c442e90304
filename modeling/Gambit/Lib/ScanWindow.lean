import Gambit.Lib.Scan

/-!
# Searching a text in windows

A match that ends in a window is found there as in the whole text. So where the matches of a pattern are no
longer than `keep` and none begins inside another one, `finditer` on a window finds the matches of the text
up to `keep` before the end of the window, if the window is entered at a place where the pattern does not
match behind a backslash that the window has cut off.
-/

namespace Gambit.Lib
open Utf8

variable {C : Charset} {p : FieldPattern} {A : List FieldPattern} {l : List Nat}

/-- A window of a text without its first units. -/
lemma dropWhile_take (f : Nat → Bool) (l : List Nat) (n : Nat) :
    (l.take n).dropWhile f = (l.dropWhile f).take (n - (l.takeWhile f).length) := by
  induction l generalizing n with
  | nil => simp
  | cons u l ih =>
    cases n with
    | zero => simp
    | succ n =>
      rw [List.take_succ_cons, List.dropWhile_cons, List.dropWhile_cons, List.takeWhile_cons]
      cases f u with
      | false => rfl
      | true =>
        simp only [if_true, List.length_cons]
        rw [ih, Nat.add_sub_add_right]

lemma takeWhile_take (f : Nat → Bool) (l : List Nat) (n : Nat) :
    (l.take n).takeWhile f = (l.takeWhile f).take n := by
  induction l generalizing n with
  | nil => simp
  | cons u l ih =>
    cases n with
    | zero => simp
    | succ n =>
      rw [List.take_succ_cons, List.takeWhile_cons, List.takeWhile_cons]
      cases f u with
      | false => rfl
      | true =>
        simp only [if_true]
        rw [ih, List.take_succ_cons]

/-- The lengths of the two parts of a text. -/
lemma length_takeWhile_add (f : Nat → Bool) (l : List Nat) :
    (l.takeWhile f).length + (l.dropWhile f).length = l.length := by
  rw [← List.length_append, List.takeWhile_append_dropWhile]

/-- A literal that ends in the window. -/
lemma stringTail_take {b : Bool} {t : List Nat} (h : stringTail b l = some t) {n : Nat} (hn : t.length < n) :
    stringTail b (l.take n) = some t := by
  induction l generalizing b t n with
  | nil => cases b <;> cases h
  | cons u l ih =>
    obtain ⟨n, rfl⟩ := Nat.exists_eq_succ_of_ne_zero (by omega : n ≠ 0)
    rw [List.take_succ_cons]
    cases b with
    | true =>
      simp only [stringTail] at h ⊢
      split_ifs at h ⊢
      obtain ⟨t, ht, rfl⟩ := Option.map_eq_some_iff.1 h
      rw [List.length_cons] at hn
      rw [ih ht (by omega)]
      rfl
    | false =>
      simp only [stringTail] at h ⊢
      split_ifs at h ⊢
      · exact h
      · obtain ⟨t, ht, rfl⟩ := Option.map_eq_some_iff.1 h
        rw [List.length_cons] at hn
        rw [ih ht (by omega)]
        rfl

/-- A string literal that ends in the window. -/
lemma readString_eq_take {g : List Nat} (h : readString l = some g) {n : Nat} (hn : g.length ≤ n) :
    readString (l.take n) = some g := by
  unfold readString at h
  split at h
  next l =>
    obtain ⟨t, ht, rfl⟩ := Option.map_eq_some_iff.1 h
    simp only [List.length_cons, List.length_append, List.length_nil] at hn
    obtain ⟨n, rfl⟩ := Nat.exists_eq_succ_of_ne_zero (by omega : n ≠ 0)
    rw [List.take_succ_cons]
    show (stringTail false (l.take n)).map _ = _
    rw [stringTail_take ht (by omega)]
    rfl
  next => cases h

/-- A word that ends in the window. -/
lemma readWord_eq_take {w : List Char} {g : List Nat} (h : readWord w l = some g) {n : Nat} (hn : g.length ≤ n) :
    readWord w (l.take n) = some g := by
  unfold readWord at h ⊢
  split_ifs at h with hw
  cases h
  obtain ⟨r, rfl⟩ := List.isPrefixOf_iff_prefix.1 hw
  rw [if_pos]
  rw [List.isPrefixOf_iff_prefix, List.take_append, List.take_of_length_le hn]
  exact List.prefix_append _ _

/-- Nothing is a word in a window that is none in the text. -/
lemma readWord_take_none {w : List Char} (h : readWord w l = none) (n : Nat) : readWord w (l.take n) = none := by
  cases hr : readWord w (l.take n) with
  | none => rfl
  | some g =>
    have h' := readWord_append hr (l.drop n)
    rw [List.take_append_drop, h] at h'
    cases h'

/-- A value that ends in the window. -/
lemma Kind.read_eq_take {k : Kind} {g : List Nat} (h : k.read C l = some g) {n : Nat} (hn : g.length ≤ n) :
    k.read C (l.take n) = some g := by
  cases k with
  | digits =>
    simp only [Kind.read] at h ⊢
    split_ifs at h with hd
    cases h
    rw [takeWhile_take, List.take_of_length_le hn, if_neg hd]
  | boolean =>
    obtain h | ⟨h0, h⟩ := Option.or_eq_some_iff.1 h
    · exact Option.or_eq_some_iff.2 (.inl (readWord_eq_take h hn))
    · exact Option.or_eq_some_iff.2 (.inr ⟨readWord_take_none h0 n, readWord_eq_take h hn⟩)
  | string => exact readString_eq_take h hn
  | nullOrString =>
    obtain h | ⟨h0, h⟩ := Option.or_eq_some_iff.1 h
    · exact Option.or_eq_some_iff.2 (.inl (readWord_eq_take h hn))
    · exact Option.or_eq_some_iff.2 (.inr ⟨readWord_take_none h0 n, readString_eq_take h hn⟩)

lemma trail_comma {t : List Nat} (h : l.dropWhile C.space = 44 :: t) : trail C l = t := by
  simp only [trail, h]

lemma trail_other (h : (l.dropWhile C.space).head? ≠ some 44) : trail C l = l.dropWhile C.space := by
  unfold trail
  split
  · next t ht =>
    rw [ht] at h
    exact absurd rfl h
  · rfl

/-- A trailer that ends in the window. -/
lemma trail_take (l : List Nat) {n : Nat} (hn : l.length - (trail C l).length ≤ n) :
    trail C (l.take n) = (trail C l).take (n - (l.length - (trail C l).length)) := by
  have hlen := length_takeWhile_add C.space l
  have htake := dropWhile_take C.space l n
  by_cases hc : (l.dropWhile C.space).head? = some 44
  · obtain ⟨t, ht⟩ := List.head?_eq_some_iff.1 hc
    rw [trail_comma ht] at hn ⊢
    rw [ht, List.length_cons] at hlen
    obtain ⟨k, hk⟩ := Nat.exists_eq_succ_of_ne_zero (by omega : n - (l.takeWhile C.space).length ≠ 0)
    rw [ht, hk, List.take_succ_cons] at htake
    rw [trail_comma htake]
    congr 1
    omega
  · rw [trail_other hc] at hn ⊢
    have hc' : ((l.take n).dropWhile C.space).head? ≠ some 44 := by
      rw [htake]
      exact head?_take_ne hc _
    rw [trail_other hc', htake]
    congr 1
    omega

/-- A value is no longer than the text. -/
lemma Kind.read_length {k : Kind} {g : List Nat} (h : k.read C l = some g) : g.length ≤ l.length := by
  have hword : ∀ {w : List Char} {g : List Nat}, readWord w l = some g → g.length ≤ l.length := by
    intro w g h
    unfold readWord at h
    split_ifs at h with hw
    cases h
    exact (List.isPrefixOf_iff_prefix.1 hw).length_le
  have hstr : ∀ {g : List Nat}, readString l = some g → g.length ≤ l.length := by
    intro g h
    unfold readString at h
    split at h
    next l =>
      obtain ⟨t, ht, rfl⟩ := Option.map_eq_some_iff.1 h
      obtain ⟨r, rfl⟩ := stringTail_eq ht
      simp
    next => cases h
  cases k with
  | digits =>
    simp only [Kind.read] at h
    split_ifs at h
    cases h
    exact (List.takeWhile_sublist _).length_le
  | boolean =>
    obtain h | ⟨-, h⟩ := Option.or_eq_some_iff.1 h
    · exact hword h
    · exact hword h
  | string => exact hstr h
  | nullOrString =>
    obtain h | ⟨-, h⟩ := Option.or_eq_some_iff.1 h
    · exact hword h
    · exact hstr h

/-- A field that ends in the window. -/
lemma FieldPattern.read_eq_take {m : Match} (h : p.read C l = some m) {n : Nat}
    (hn : l.length - m.rest.length ≤ n) :
    p.read C (l.take n) = some { m with rest := m.rest.take (n - (l.length - m.rest.length)) } := by
  have hs : (p.read C l).isSome := by
    rw [h]
    rfl
  obtain ⟨l₁, l₂, rfl, h₁, -⟩ := FieldPattern.read_isSome_iff.1 hs
  have e : ∀ l, (58 :: l).dropPrefix? [58] = some l := fun l =>
    List.dropPrefix?_append_of_beq l (beq_self_eq_true [58])
  simp only [FieldPattern.read, List.dropPrefix?_append_of_beq l₁ (beq_self_eq_true p.quoted), h₁, e,
    Option.pure_def, Option.bind_eq_bind, Option.bind_some, Option.bind_eq_some_iff] at h
  obtain ⟨g, hg, h⟩ := h
  cases h
  -- the lengths of what the match consists of
  have hlen₁ := length_takeWhile_add C.space l₁
  have hlen₂ := length_takeWhile_add C.space l₂
  have hlen₃ := Kind.read_length hg
  rw [h₁, List.length_cons] at hlen₁
  simp only [List.length_append, List.length_drop] at hn
  have htake : (p.quoted ++ l₁).take n = p.quoted ++ l₁.take (n - p.quoted.length) := by
    rw [List.take_append, List.take_of_length_le (by omega)]
  have hcolon : (l₁.take (n - p.quoted.length)).dropWhile C.space =
      58 :: l₂.take (n - p.quoted.length - (l₁.takeWhile C.space).length - 1) := by
    rw [dropWhile_take, h₁]
    obtain ⟨k, hk⟩ := Nat.exists_eq_succ_of_ne_zero
      (by omega : n - p.quoted.length - (l₁.takeWhile C.space).length ≠ 0)
    rw [hk, List.take_succ_cons]
    rfl
  have hvalue := Kind.read_eq_take hg
    (by omega : g.length ≤ n - p.quoted.length - (l₁.takeWhile C.space).length - 1 -
      (l₂.takeWhile C.space).length)
  rw [htake]
  simp only [FieldPattern.read, List.dropPrefix?_append_of_beq _ (beq_self_eq_true p.quoted), hcolon, e,
    Option.pure_def, Option.bind_eq_bind, Option.bind_some, dropWhile_take C.space l₂, hvalue,
    Option.some.injEq, Match.mk.injEq, true_and]
  rw [List.drop_take]
  congr 1
  simp only [List.length_append, List.length_drop]
  omega

/-- The length of a match with its trailer. -/
def Match.length (C : Charset) (l : List Nat) (m : Match) : Nat := l.length - (trail C m.rest).length

/-- What follows a match with its trailer. -/
lemma length_trail_le (l : List Nat) : (trail C l).length ≤ l.length := by
  obtain ⟨w, hw, -⟩ := trail_eq (C := C) l
  have := congrArg List.length hw
  rw [List.length_append] at this
  omega

/-- What matches in a window matches in the text. -/
lemma readAny_take_none (h : readAny C A l = none) (n : Nat) : readAny C A (l.take n) = none := by
  rw [← Option.not_isSome_iff_eq_none] at h ⊢
  intro hs
  apply h
  rw [← List.take_append_drop n l]
  exact readAny_append hs _

/-- A match that ends with its trailer in the window is found there as in the text, and leaves as much. -/
lemma readAny_eq_take {m : Match} (h : readAny C A l = some m) {n : Nat} (hn : m.length C l ≤ n) :
    ∃ m', readAny C A (l.take n) = some m' ∧ m'.field = m.field ∧ m'.group = m.group ∧
      m'.length C (l.take n) = m.length C l := by
  obtain ⟨A₁, p, A₂, rfl, hp, hnone⟩ := List.findSome?_eq_some_iff.1 h
  have htrail := length_trail_le (C := C) m.rest
  obtain ⟨-, c, hc⟩ := readAny_eq_some h
  have hclen := congrArg List.length hc
  rw [List.length_append] at hclen
  unfold Match.length at hn ⊢
  refine ⟨{ m with rest := m.rest.take (n - (l.length - m.rest.length)) }, ?_, rfl, rfl, ?_⟩
  · apply List.findSome?_eq_some_iff.2
    refine ⟨A₁, p, A₂, rfl, FieldPattern.read_eq_take hp (by omega), fun q hq => ?_⟩
    have hq' : readAny C [q] (l.take n) = none :=
      readAny_take_none (by rw [readAny, List.findSome?_cons, hnone q hq]; rfl) n
    rw [readAny, List.findSome?_cons] at hq'
    cases hr : q.read C (l.take n) with
    | none => rfl
    | some m' =>
      rw [hr] at hq'
      cases hq'
  · dsimp only
    rw [trail_take m.rest (by omega), List.length_take, List.length_take]
    omega

/-- Is there a backslash before a place? -/
def escapedAt (text : List Nat) (i : Nat) : Prop := 0 < i ∧ text[i - 1]? = some 92

instance (text : List Nat) (i : Nat) : Decidable (escapedAt text i) := inferInstanceAs (Decidable (_ ∧ _))

/-- The match of `(?<!\\)` and the pattern at a place. -/
def matchAt (C : Charset) (A : List FieldPattern) (text : List Nat) (i : Nat) : Option Match :=
  if escapedAt text i then none else readAny C A (text.drop i)

/-- A place and what is captured there. -/
def hitAt (C : Charset) (A : List FieldPattern) (text : List Nat) (i : Nat) : Option (Nat × FieldPattern × List Nat) :=
  (matchAt C A text i).map fun m => (i, m.field, m.group)

/-- No match begins inside another one. -/
def Apart (C : Charset) (A : List FieldPattern) (text : List Nat) : Prop :=
  ∀ i j m, matchAt C A text i = some m → (matchAt C A text j).isSome → i < j → i + m.length C (text.drop i) ≤ j

/-- A match, by position and capture. -/
def capture (x : Nat × Match) : Nat × FieldPattern × List Nat := (x.1, x.2.field, x.2.group)

/-- `finditer` goes forward. -/
lemma le_of_mem_finditer {pos skip : Nat} {prev : Option Nat} {x : Nat × Match}
    (h : x ∈ finditer C A pos prev skip l) : pos ≤ x.1 := by
  induction l generalizing pos prev skip with
  | nil => cases skip <;> cases h
  | cons u l ih =>
    cases skip with
    | succ skip =>
      have := ih (show x ∈ finditer C A (pos + 1) (some u) skip l from h)
      omega
    | zero =>
      rw [finditer] at h
      split at h
      · cases List.mem_cons.1 h with
        | inl he => exact he ▸ le_rfl
        | inr hr =>
          have := ih hr
          omega
      · have := ih h
        omega

lemma lt_of_mem_finditer {pos skip : Nat} {prev : Option Nat} {x : Nat × Match}
    (h : x ∈ finditer C A pos prev skip l) : x.1 < pos + l.length := by
  induction l generalizing pos prev skip with
  | nil => cases skip <;> cases h
  | cons u l ih =>
    rw [List.length_cons]
    cases skip with
    | succ skip =>
      have := ih (show x ∈ finditer C A (pos + 1) (some u) skip l from h)
      omega
    | zero =>
      rw [finditer] at h
      split at h
      · cases List.mem_cons.1 h with
        | inl he =>
          subst he
          show pos < _
          omega
        | inr hr =>
          have := ih hr
          omega
      · have := ih h
        omega

/-- What comes before the first unit matters only behind a backslash. -/
lemma finditer_prev {pos : Nat} {prev : Option Nat} (h : prev = some 92 → readAny C A l = none) :
    finditer C A pos none 0 l = finditer C A pos prev 0 l := by
  cases l with
  | nil => rfl
  | cons u l =>
    rw [finditer, finditer, if_neg (Option.some_ne_none 92).symm]
    by_cases hp : prev = some 92
    · rw [if_pos hp, h hp]
    · rw [if_neg hp]

/-- In a window the matches before `lim` are found, if they end in it. -/
lemma finditer_take_hits {text : List Nat} (hapart : Apart C A text) {b lim : Nat} (hlim : lim ≤ b)
    (hin : ∀ i m, matchAt C A text i = some m → i < lim → i + m.length C (text.drop i) ≤ b)
    {x : List Nat} (ht : text = x ++ l) {prev : Option Nat}
    (hprev : prev = some 92 ↔ escapedAt text x.length) {skip : Nat}
    (hclear : ∀ j, x.length ≤ j → j < x.length + skip → matchAt C A text j = none) :
    ((finditer C A x.length prev skip (l.take (b - x.length))).filter fun y => y.1 < lim).map capture =
      ((List.range' x.length l.length).filter fun i => i < lim).filterMap (hitAt C A text) := by
  induction l generalizing x prev skip with
  | nil =>
    rw [List.take_nil]
    cases skip <;> rfl
  | cons u l ih =>
    rcases Nat.lt_or_ge x.length lim with hpos | hpos
    swap
    · -- the matches from here on are left to the next window
      have h1 : ((finditer C A x.length prev skip ((u :: l).take (b - x.length))).filter fun y => y.1 < lim) = [] := by
        apply List.filter_eq_nil_iff.2
        intro y hy
        have := le_of_mem_finditer hy
        simpa using (by omega : lim ≤ y.1)
      have h2 : ((List.range' x.length (u :: l).length).filter fun i => i < lim) = [] := by
        apply List.filter_eq_nil_iff.2
        intro i hi
        have := (List.mem_range'_1.1 hi).1
        simpa using (by omega : lim ≤ i)
      rw [h1, h2]
      rfl
    have ht' : text = (x ++ [u]) ++ l := by rw [ht, List.append_assoc, List.singleton_append]
    have hlen : (x ++ [u]).length = x.length + 1 := by rw [List.length_append, List.length_singleton]
    have hdrop : text.drop x.length = u :: l := by rw [ht, List.drop_left]
    have hprev' : some u = some 92 ↔ escapedAt text (x ++ [u]).length := by
      rw [escapedAt, hlen, Nat.add_sub_cancel, ht, List.getElem?_append_right le_rfl, Nat.sub_self]
      simp
    have htake : (u :: l).take (b - x.length) = u :: l.take (b - (x ++ [u]).length) := by
      rw [hlen, show b - x.length = b - (x.length + 1) + 1 by omega, List.take_succ_cons]
    have hrange : ((List.range' x.length (u :: l).length).filter fun i => i < lim).filterMap (hitAt C A text) =
        (hitAt C A text x.length).toList ++
          ((List.range' (x ++ [u]).length l.length).filter fun i => i < lim).filterMap (hitAt C A text) := by
      rw [List.length_cons, List.range'_succ, List.filter_cons_of_pos (by simpa using hpos), List.filterMap_cons, hlen]
      cases hitAt C A text x.length <;> rfl
    rw [hrange, htake]
    cases skip with
    | succ skip =>
      rw [finditer, hitAt, hclear x.length le_rfl (by omega), ← hlen]
      exact ih ht' hprev' fun j hj hj' => hclear j (by omega) (by omega)
    | zero =>
      have hread : matchAt C A text x.length = if prev = some 92 then none else readAny C A (u :: l) := by
        rw [matchAt, hdrop]
        by_cases hp : prev = some 92
        · rw [if_pos hp, if_pos (hprev.1 hp)]
        · rw [if_neg hp, if_neg fun hc => hp (hprev.2 hc)]
      rw [finditer, hitAt]
      cases hm : matchAt C A text x.length with
      | none =>
        have hnone : (if prev = some 92 then none else readAny C A (u :: l.take (b - (x ++ [u]).length))) =
            none := by
          split
          · rfl
          · next hp =>
            rw [hread, if_neg hp] at hm
            rw [← htake]
            exact readAny_take_none hm _
        rw [hnone, ← hlen]
        exact ih ht' hprev' fun j hj hj' => absurd hj' (by omega)
      | some m =>
        have hp : prev ≠ some 92 := by
          intro hp
          rw [hread, if_pos hp] at hm
          cases hm
        have hfull : readAny C A (u :: l) = some m := by rw [← hm, hread, if_neg hp]
        have hend := hin x.length m hm hpos
        rw [hdrop] at hend
        obtain ⟨m', hm', hfield, hgroup, hlength⟩ :=
          readAny_eq_take hfull (by omega : m.length C (u :: l) ≤ b - x.length)
        rw [htake] at hm' hlength
        rw [if_neg hp, hm']
        dsimp only
        have hskip : (l.take (b - (x ++ [u]).length)).length - (trail C m'.rest).length =
            m.length C (u :: l) - 1 := by
          rw [← hlength, Match.length, List.length_cons]
          omega
        rw [hskip, List.filter_cons_of_pos (by simpa using hpos), List.map_cons, ← hlen, ih ht' hprev']
        · rw [capture, hfield, hgroup]
          rfl
        · -- no match begins before this one has ended
          intro j hj hj'
          cases hmj : matchAt C A text j with
          | none => rfl
          | some mj =>
            have := hapart x.length j m hm (by rw [hmj]; rfl) (by omega)
            rw [hdrop] at this
            omega

/-- The matches that `finditer` finds between the start of a window and `lim`. -/
theorem finditer_window_hits {text : List Nat} (hapart : Apart C A text) {a b : Nat} (lim : Nat)
    (hlim : lim ≤ b)
    (ha : a ≤ text.length)
    (hin : ∀ i m, matchAt C A text i = some m → i < lim → i + m.length C (text.drop i) ≤ b)
    (hstart : escapedAt text a → readAny C A ((text.take b).drop a) = none) :
    ((finditer C A a none 0 ((text.take b).drop a)).filter fun y => y.1 < lim).map capture =
      ((List.range' a (text.length - a)).filter fun i => i < lim).filterMap (hitAt C A text) := by
  have hx : (text.take a).length = a := by rw [List.length_take, Nat.min_eq_left ha]
  have hprev : ∃ prev : Option Nat, prev = some 92 ↔ escapedAt text a := by
    by_cases h : escapedAt text a
    · exact ⟨some 92, fun _ => h, fun _ => rfl⟩
    · exact ⟨none, nofun, fun hc => absurd hc h⟩
  obtain ⟨prev, hprev⟩ := hprev
  rw [finditer_prev fun h => hstart (hprev.1 h), List.drop_take]
  have hprev' : prev = some 92 ↔ escapedAt text (text.take a).length := by
    rw [hx]
    exact hprev
  have hclear : ∀ j, (text.take a).length ≤ j → j < (text.take a).length + 0 → matchAt C A text j = none :=
    fun j hj hj' => absurd hj' (by omega)
  have h := finditer_take_hits hapart hlim hin (List.take_append_drop a text).symm hprev' hclear
  rw [hx, List.length_drop] at h
  exact h

/-- The matches that `finditer` finds in a text. -/
theorem finditer_hits {text : List Nat} (hapart : Apart C A text) :
    (finditer C A 0 none 0 text).map capture = (List.range text.length).filterMap (hitAt C A text) := by
  have h := finditer_window_hits hapart (a := 0) (b := text.length) text.length le_rfl (Nat.zero_le _)
    (fun i m _ hi => by
      rw [Match.length, List.length_drop]
      omega)
    fun hc => absurd hc.1 (Nat.lt_irrefl 0)
  have hall : (finditer C A 0 none 0 text).filter (fun y => y.1 < text.length) = finditer C A 0 none 0 text := by
    apply List.filter_eq_self.2
    intro y hy
    have := lt_of_mem_finditer hy
    simpa using this
  have hrange : (List.range text.length).filter (fun i => i < text.length) = List.range text.length := by
    apply List.filter_eq_self.2
    intro i hi
    simpa using hi
  rw [List.take_length, List.drop_zero, hall, Nat.sub_zero, ← List.range_eq_range', hrange] at h
  exact h

end Gambit.Lib
