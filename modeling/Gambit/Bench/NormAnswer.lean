import Gambit.Lib.JsonFields
import Mathlib.Data.List.DropRight
import Mathlib.Tactic.Ring

/-!
# Comparing answers

Model of `_norm_answer_for_compare` in `compute_pass_at_n`. Commas and blanks are removed wherever they
stand before a text is taken for an integer, so lists of numbers are too.

Texts are lists of code points. `str.lower` is a parameter, of which is relied on that it keeps the spaces,
the digits, the signs and the comma, makes none of them from other characters, and is idempotent; and of
the digits that their values are below ten. `maxDigits` is the limit on the digits that `int` converts, 0 being none; a conversion that raises is
`none`.
-/

namespace Gambit.Bench
open Gambit.Lib Utf8

/-- Spaces, digits, signs and the comma. -/
def plain (C : Charset) (u : Nat) : Bool :=
  C.space u || (C.digit u).isSome || u == 43 || u == 44 || u == 45

/-- Python `str.lower`, where what becomes of a character may depend on those around it, and the values of
digits. -/
structure StrTables (C : Charset) where
  lower : List Nat → List Nat
  pieces : ∀ s, ∃ ps : List (List Nat), lower s = ps.flatten ∧
    List.Forall₂ (fun u p => if plain C u then p = [u] else p ≠ [] ∧ ∀ v ∈ p, plain C v = false) s ps
  idem : ∀ s, lower (lower s) = lower s
  digit_lt : ∀ u d, C.digit u = some d → d < 10

/-- `str.strip`. -/
def stripPoints (C : Charset) (s : List Nat) : List Nat :=
  ((s.dropWhile C.space).reverse.dropWhile C.space).reverse

/-- The text without its commas and blanks. -/
def compact (s : List Nat) : List Nat := (s.filter fun u => u != 44).filter fun u => u != 32

/-- A sign, and the rest. -/
def splitSign : List Nat → Bool × List Nat
  | 43 :: s => (false, s)
  | 45 :: s => (true, s)
  | s => (false, s)

/-- `[+-]?\d+` on all of a text: whether it has a minus, and the digits. -/
def fullmatchInt (C : Charset) (s : List Nat) : Option (Bool × List Nat) :=
  if (splitSign s).2 ≠ [] ∧ ∀ u ∈ (splitSign s).2, (C.digit u).isSome then some (splitSign s) else none

/-- A number with a sign. -/
def signed (neg : Bool) (n : Nat) : Int := if neg then -n else n

/-- `int` of what was matched. -/
def toInt (C : Charset) (maxDigits : Nat) (m : Bool × List Nat) : Option Int :=
  if 0 < maxDigits ∧ maxDigits < m.2.length then none else some (signed m.1 (C.int m.2))

/-- `str` of an integer. -/
def ofInt : Int → List Nat
  | .ofNat n => points (Nat.toDigits 10 n)
  | .negSucc n => 45 :: points (Nat.toDigits 10 (n + 1))

/-- `_norm_answer_for_compare`. -/
def normAnswerForCompare (C : Charset) (L : StrTables C) (maxDigits : Nat) :
    Option (List Nat) → Option (Option (List Nat))
  | none => some none
  | some a =>
    let s := stripPoints C a
    if s = [] then some none
    else
      match fullmatchInt C (compact s) with
      | some m => (toInt C maxDigits m).map fun n => some (ofInt n)
      | none => some (some (L.lower s))

/-- A thousands separator: the comma, and the blank where it counts as one. -/
def isSeparator (blanks : Bool) (u : Nat) : Bool := u == 44 || (blanks && u == 32)

/-- The integer that a text writes: a sign, zeros, and digits that are in one run or in groups of three
after a first group of at most three. -/
def groupedInt (C : Charset) (blanks : Bool) (a : List Nat) : Option Int :=
  let s := splitSign (stripPoints C a)
  let groups := s.2.splitOnP (isSeparator blanks)
  let first := groups.headD []
  if first ≠ [] ∧ (∀ g ∈ groups, ∀ u ∈ g, (C.digit u).isSome) ∧
      (groups.tail = [] ∨ (first.dropWhile fun u => C.digit u == some 0).length ≤ 3) ∧
      ∀ g ∈ groups.tail, g.length = 3 then
    some (signed s.1 (C.int groups.flatten))
  else none

/-- The same integer, written with separators in groups of three. -/
def SameInteger (C : Charset) (blanks : Bool) (a b : List Nat) : Prop :=
  ∃ n, groupedInt C blanks a = some n ∧ groupedInt C blanks b = some n

/-- The same text up to surrounding space and case. -/
def SameText {C : Charset} (L : StrTables C) (a b : List Nat) : Prop :=
  L.lower (stripPoints C a) = L.lower (stripPoints C b)

/-- The normalisation is idempotent on `a`, and takes `a` and `b` to the same text only if they are the
same integer or the same text. -/
def EquatesOnlyEqual (C : Charset) (L : StrTables C) (maxDigits : Nat) (blanks : Bool)
    (a b : Option (List Nat)) : Prop :=
  (∀ r, normAnswerForCompare C L maxDigits a = some r → normAnswerForCompare C L maxDigits r = some r) ∧
    ∀ t, normAnswerForCompare C L maxDigits a = some (some t) →
      normAnswerForCompare C L maxDigits b = some (some t) →
        ∃ x y, a = some x ∧ b = some y ∧ (SameInteger C blanks x y ∨ SameText L x y)

/-- The integer that is left of a text without its commas and blanks. -/
def readInt (C : Charset) (maxDigits : Nat) (a : List Nat) : Option Int :=
  (fullmatchInt C (compact (stripPoints C a))).bind (toInt C maxDigits)

/-- A comma or a blank of an answer is out of place: the rest is an integer, and they do not part it in groups of
three. -/
def Stray (C : Charset) (maxDigits : Nat) (blanks : Bool) (a : Option (List Nat)) : Prop :=
  ∃ x, a = some x ∧ (readInt C maxDigits x).isSome ∧ groupedInt C blanks x = none

variable {C : Charset} {L : StrTables C} {s a b : List Nat} {n : Int} {maxDigits : Nat} {blanks : Bool}

lemma plain_of_digit {u : Nat} (h : (C.digit u).isSome) : plain C u = true := by
  simp [plain, h]

/-- A digit is no sign and no separator. -/
lemma ne_of_digit {u : Nat} (h : (C.digit u).isSome) : u ≠ 43 ∧ u ≠ 45 ∧ u ≠ 44 ∧ u ≠ 32 := by
  refine ⟨?_, ?_, ?_, ?_⟩ <;>
  · rintro rfl
    rw [C.decimal _ (by omega)] at h
    cases h

/-- The sign of a text is in front of the rest. -/
lemma splitSign_cases (s : List Nat) :
    (∃ l, s = 43 :: l ∧ splitSign s = (false, l)) ∨ (∃ l, s = 45 :: l ∧ splitSign s = (true, l)) ∨
      (splitSign s = (false, s) ∧ s.head? ≠ some 43 ∧ s.head? ≠ some 45) := by
  unfold splitSign
  split
  · exact .inl ⟨_, rfl, rfl⟩
  · exact .inr (.inl ⟨_, rfl, rfl⟩)
  · next h43 h45 =>
    refine .inr (.inr ⟨rfl, ?_, ?_⟩)
    · intro hc
      obtain ⟨l, rfl⟩ := List.head?_eq_some_iff.1 hc
      exact h43 l rfl
    · intro hc
      obtain ⟨l, rfl⟩ := List.head?_eq_some_iff.1 hc
      exact h45 l rfl

/-- Digits have no sign. -/
lemma splitSign_digits (hd : ∀ u ∈ s, (C.digit u).isSome) : splitSign s = (false, s) := by
  obtain ⟨l, rfl, -⟩ | ⟨l, rfl, -⟩ | ⟨h, -⟩ := splitSign_cases s
  · exact absurd rfl (ne_of_digit (hd 43 List.mem_cons_self)).1
  · exact absurd rfl (ne_of_digit (hd 45 List.mem_cons_self)).2.1
  · exact h

/-- What is matched is a sign and digits. -/
lemma fullmatchInt_eq_some {m : Bool × List Nat} :
    fullmatchInt C s = some m ↔ splitSign s = m ∧ m.2 ≠ [] ∧ ∀ u ∈ m.2, (C.digit u).isSome := by
  unfold fullmatchInt
  constructor
  · intro h
    split at h
    · next hc =>
      cases h
      exact ⟨rfl, hc⟩
    · cases h
  · rintro ⟨rfl, hc⟩
    rw [if_pos hc]

/-- A text that is matched has nothing but a sign and digits. -/
lemma mem_of_fullmatchInt (h : (fullmatchInt C s).isSome) :
    ∀ u ∈ s, u = 43 ∨ u = 45 ∨ (C.digit u).isSome := by
  obtain ⟨m, hm⟩ := Option.isSome_iff_exists.1 h
  obtain ⟨rfl, -, hd⟩ := fullmatchInt_eq_some.1 hm
  intro u hu
  obtain ⟨l, rfl, hs⟩ | ⟨l, rfl, hs⟩ | ⟨hs, -⟩ := splitSign_cases s
  · rw [hs] at hd
    cases List.mem_cons.1 hu with
    | inl he => exact .inl he
    | inr hl => exact .inr (.inr (hd u hl))
  · rw [hs] at hd
    cases List.mem_cons.1 hu with
    | inl he => exact .inr (.inl he)
    | inr hl => exact .inr (.inr (hd u hl))
  · rw [hs] at hd
    exact .inr (.inr (hd u hu))

lemma plain_of_fullmatchInt (h : (fullmatchInt C s).isSome) : ∀ u ∈ s, plain C u = true := by
  intro u hu
  obtain rfl | rfl | hd := mem_of_fullmatchInt h u hu
  · simp [plain]
  · simp [plain]
  · exact plain_of_digit hd

lemma space_of_fullmatchInt (h : (fullmatchInt C s).isSome) : ∀ u ∈ s, C.space u = false := by
  intro u hu
  obtain rfl | rfl | hd := mem_of_fullmatchInt h u hu
  · exact C.graphic 43 (by omega) (by omega)
  · exact C.graphic 45 (by omega) (by omega)
  · exact C.apart u hd

lemma ne_of_fullmatchInt (h : (fullmatchInt C s).isSome) : ∀ u ∈ s, u ≠ 44 ∧ u ≠ 32 := by
  intro u hu
  obtain rfl | rfl | hd := mem_of_fullmatchInt h u hu
  · decide
  · decide
  · exact (ne_of_digit hd).2.2

lemma mem_compact {u : Nat} : u ∈ compact s ↔ u ∈ s ∧ u ≠ 44 ∧ u ≠ 32 := by
  simp only [compact, List.mem_filter, bne_iff_ne, and_assoc]

/-- A text without commas and blanks is compact. -/
lemma compact_eq_self (h : ∀ u ∈ s, u ≠ 44 ∧ u ≠ 32) : compact s = s := by
  have h1 : s.filter (fun u => u != 44) = s := by
    apply List.filter_eq_self.2
    intro u hu
    simpa using (h u hu).1
  rw [compact, h1]
  apply List.filter_eq_self.2
  intro u hu
  simpa using (h u hu).2

/-- A text whose compact form is matched has nothing but spaces, digits, signs and commas. -/
lemma plain_of_compact (h : (fullmatchInt C (compact s)).isSome) : ∀ u ∈ s, plain C u = true := by
  intro u hu
  by_cases h44 : u = 44
  · simp [plain, h44]
  · by_cases h32 : u = 32
    · simp [plain, h32, C.blank]
    · exact plain_of_fullmatchInt h u (mem_compact.2 ⟨hu, h44, h32⟩)

/-- A text without space at its ends is stripped. -/
lemma stripPoints_eq_self (h : ∀ u, s.head? = some u → C.space u = false)
    (h' : ∀ u, s.getLast? = some u → C.space u = false) : stripPoints C s = s := by
  have hdrop : ∀ l : List Nat, (∀ u, l.head? = some u → C.space u = false) → l.dropWhile C.space = l := by
    intro l hl
    cases l with
    | nil => rfl
    | cons u l => rw [List.dropWhile_cons, hl u rfl, if_neg Bool.false_ne_true]
  rw [stripPoints, hdrop s h, hdrop s.reverse fun u hu => h' u (by rwa [List.head?_reverse] at hu),
    List.reverse_reverse]

/-- Stripping leaves no space at the ends. -/
lemma stripPoints_ends (s : List Nat) : (∀ u, (stripPoints C s).head? = some u → C.space u = false) ∧
    ∀ u, (stripPoints C s).getLast? = some u → C.space u = false := by
  have hhead : ∀ l : List Nat, ∀ u, (l.dropWhile C.space).head? = some u → C.space u = false := by
    intro l u hu
    have h := List.head?_dropWhile_not C.space l
    rw [hu] at h
    simpa using h
  constructor
  · intro u hu
    apply hhead s
    have hpre : stripPoints C s <+: s.dropWhile C.space := List.rdropWhile_prefix _ _
    obtain ⟨l, hl⟩ := hpre
    obtain ⟨t, ht⟩ := List.head?_eq_some_iff.1 hu
    rw [← hl, ht]
    rfl
  · intro u hu
    rw [stripPoints, List.getLast?_reverse] at hu
    exact hhead _ u hu

/-- A text of spaces, digits, signs and commas has no case, and no other text becomes one. -/
lemma lower_of_plain (h : ∀ u ∈ L.lower s, plain C u = true) : L.lower s = s := by
  obtain ⟨ps, hps, hall⟩ := L.pieces s
  rw [hps] at h ⊢
  clear hps
  induction hall with
  | nil => rfl
  | @cons u p s ps hp _ ih =>
    rw [List.flatten_cons] at h ⊢
    have hplain : plain C u = true := by
      by_contra hu
      rw [if_neg hu] at hp
      obtain ⟨v, hv⟩ := List.exists_mem_of_ne_nil p hp.1
      have := h v (List.mem_append_left _ hv)
      rw [hp.2 v hv] at this
      cases this
    rw [if_pos hplain] at hp
    rw [hp, ih fun v hv => h v (List.mem_append_right _ hv), List.singleton_append]

lemma lower_plain (h : ∀ u ∈ s, plain C u = true) : L.lower s = s := by
  apply lower_of_plain
  obtain ⟨ps, hps, hall⟩ := L.pieces s
  rw [hps]
  clear hps
  induction hall with
  | nil => nofun
  | @cons u p s ps hp _ ih =>
    rw [if_pos (h u List.mem_cons_self)] at hp
    intro v hv
    rw [List.flatten_cons, hp] at hv
    cases List.mem_cons.1 hv with
    | inl he => exact he ▸ h u List.mem_cons_self
    | inr hv => exact ih (fun w hw => h w (List.mem_cons_of_mem _ hw)) v hv

/-- A piece has a space only if its character is one. -/
lemma space_of_piece {u v : Nat} {p : List Nat} (hv : v ∈ p) (hu : C.space u = false)
    (hp : if plain C u then p = [u] else p ≠ [] ∧ ∀ v ∈ p, plain C v = false) : C.space v = false := by
  split at hp
  · rw [hp] at hv
    exact List.mem_singleton.1 hv ▸ hu
  · have := hp.2 v hv
    simp only [plain, Bool.or_eq_false_iff] at this
    exact this.1.1.1.1

lemma piece_ne_nil {u : Nat} {p : List Nat}
    (hp : if plain C u then p = [u] else p ≠ [] ∧ ∀ v ∈ p, plain C v = false) : p ≠ [] := by
  split at hp
  · rw [hp]
    exact List.cons_ne_nil _ _
  · exact hp.1

/-- A stripped text is stripped in lower case, and is not lost. -/
lemma lower_ends (h : ∀ u, s.head? = some u → C.space u = false)
    (h' : ∀ u, s.getLast? = some u → C.space u = false) :
    (∀ u, (L.lower s).head? = some u → C.space u = false) ∧
      (∀ u, (L.lower s).getLast? = some u → C.space u = false) ∧ (L.lower s = [] → s = []) := by
  obtain ⟨ps, hps, hall⟩ := L.pieces s
  rw [hps]
  clear hps
  have hnil : ∀ {s : List Nat} {ps : List (List Nat)},
      List.Forall₂ (fun u p => if plain C u then p = [u] else p ≠ [] ∧ ∀ v ∈ p, plain C v = false) s ps →
        ps.flatten = [] → s = [] := by
    intro s ps hall he
    cases hall with
    | nil => rfl
    | cons hp _ =>
      rw [List.flatten_cons] at he
      exact absurd (List.append_eq_nil_iff.1 he).1 (piece_ne_nil hp)
  refine ⟨?_, ?_, hnil hall⟩
  · cases hall with
    | nil => nofun
    | @cons u p s ps hp _ =>
      intro v hv
      rw [List.flatten_cons, List.head?_append_of_ne_nil _ (piece_ne_nil hp)] at hv
      exact space_of_piece (List.mem_of_mem_head? hv) (h u rfl) hp
  · clear h
    induction hall with
    | nil => nofun
    | @cons u p s ps hp hall ih =>
      intro v hv
      rw [List.flatten_cons] at hv
      cases s with
      | nil =>
        cases hall
        rw [List.flatten_nil, List.append_nil] at hv
        exact space_of_piece (List.mem_of_getLast? hv) (h' u rfl) hp
      | cons w s =>
        have hne : ps.flatten ≠ [] := fun he => by cases hnil hall he
        rw [List.getLast?_append_of_ne_nil _ hne] at hv
        exact ih (fun x hx => h' x (by rwa [List.getLast?_cons_cons])) v hv

/-- The characters of an integer. -/
lemma ofInt_spec (n : Int) : ∃ neg ds, splitSign (ofInt n) = (neg, ds) ∧ ds ≠ [] ∧
    (∀ u ∈ ds, (C.digit u).isSome) ∧ signed neg (C.int ds) = n ∧ ds = points (Nat.toDigits 10 n.natAbs) := by
  have hdigit : ∀ m, ∀ u ∈ points (Nat.toDigits 10 m), (C.digit u).isSome := by
    intro m u hu
    obtain ⟨c, hc, rfl⟩ := List.mem_map.1 hu
    have := toDigits_ascii hc
    rw [C.decimal _ (by omega), if_pos this]
    rfl
  have hne : ∀ m, points (Nat.toDigits 10 m) ≠ [] := fun m he =>
    Nat.toDigits_ne_nil (List.map_eq_nil_iff.1 he)
  cases n with
  | ofNat m =>
    exact ⟨false, points (Nat.toDigits 10 m), splitSign_digits (hdigit m), hne m, hdigit m, by
      rw [int_toDigits]; rfl, rfl⟩
  | negSucc m =>
    exact ⟨true, points (Nat.toDigits 10 (m + 1)), rfl, hne _, hdigit _, by rw [int_toDigits]; rfl, rfl⟩

/-- The value of some digits. -/
lemma int_lt (hL : ∀ u d, C.digit u = some d → d < 10) (g : List Nat) : C.int g < 10 ^ g.length := by
  have hval : ∀ u, (C.digit u).getD 0 < 10 := by
    intro u
    cases hd : C.digit u with
    | none => decide
    | some d => exact hL u d hd
  have hfold : ∀ (g : List Nat) (a : Nat),
      g.foldl (fun n u => 10 * n + (C.digit u).getD 0) a < (a + 1) * 10 ^ g.length := by
    intro g
    induction g with
    | nil =>
      intro a
      simp
    | cons u g ih =>
      intro a
      have hu := hval u
      calc _ < (10 * a + (C.digit u).getD 0 + 1) * 10 ^ g.length := ih _
        _ ≤ (10 * (a + 1)) * 10 ^ g.length := Nat.mul_le_mul_right _ (by omega)
        _ = (a + 1) * 10 ^ (u :: g).length := by
          rw [List.length_cons, pow_succ]
          ring
  have h := hfold g 0
  rwa [zero_add, one_mul] at h

/-- A text that is matched is read as it stands. -/
lemma readInt_of_fullmatchInt {m : Bool × List Nat} (h : fullmatchInt C s = some m) :
    stripPoints C s = s ∧ compact s = s ∧ readInt C maxDigits s = toInt C maxDigits m := by
  have hs : (fullmatchInt C s).isSome := by
    rw [h]
    rfl
  have hspace := space_of_fullmatchInt hs
  have hstrip : stripPoints C s = s :=
    stripPoints_eq_self (fun u hu => hspace u (List.mem_of_mem_head? hu))
      fun u hu => hspace u (List.mem_of_getLast? hu)
  have hcompact := compact_eq_self (ne_of_fullmatchInt hs)
  refine ⟨hstrip, hcompact, ?_⟩
  rw [readInt, hstrip, hcompact, h, Option.bind_some]

/-- An integer that was converted is written with no more digits, and is read again. -/
lemma toInt_ofInt {m : Bool × List Nat} (hL : ∀ u d, C.digit u = some d → d < 10) (hne : m.2 ≠ [])
    (h : toInt C maxDigits m = some n) :
    ∃ m', fullmatchInt C (ofInt n) = some m' ∧ toInt C maxDigits m' = some n := by
  obtain ⟨neg, ds, hsplit, hds, hdigits, hsigned, hlist⟩ := ofInt_spec (C := C) n
  refine ⟨(neg, ds), fullmatchInt_eq_some.2 ⟨hsplit, hds, hdigits⟩, ?_⟩
  have hpos : 0 < m.2.length := List.length_pos_iff.2 hne
  unfold toInt at h ⊢
  split at h
  · cases h
  next hmax =>
  have habs : n.natAbs = C.int m.2 := by
    have hn := Option.some.inj h
    rw [← hn, signed]
    split
    · rw [Int.natAbs_neg, Int.natAbs_natCast]
    · rw [Int.natAbs_natCast]
  have hlen : ds.length ≤ m.2.length := by
    rw [hlist, points, List.length_map, Nat.length_toDigits_le_iff (by omega) hpos, habs]
    exact int_lt hL m.2
  rw [if_neg fun hc => hmax ⟨hc.1, lt_of_lt_of_le hc.2 hlen⟩, hsigned]

/-- What a text is normalised to. -/
lemma normAnswerForCompare_eq_some {t : List Nat} :
    normAnswerForCompare C L maxDigits (some a) = some (some t) ↔
      (∃ n, readInt C maxDigits a = some n ∧ t = ofInt n) ∨
        (stripPoints C a ≠ [] ∧ fullmatchInt C (compact (stripPoints C a)) = none ∧
          t = L.lower (stripPoints C a)) := by
  have hnil : fullmatchInt C (compact []) = none := rfl
  show (if stripPoints C a = [] then some none else _) = _ ↔ _
  by_cases hs : stripPoints C a = []
  · rw [if_pos hs, readInt, hs, hnil]
    simp
  · rw [if_neg hs, readInt]
    cases hm : fullmatchInt C (compact (stripPoints C a)) with
    | none =>
      constructor
      · intro h
        cases h
        exact .inr ⟨hs, rfl, rfl⟩
      · rintro (⟨n, hn, -⟩ | ⟨-, -, rfl⟩)
        · cases hn
        · rfl
    | some m =>
      constructor
      · intro h
        obtain ⟨n, hn, he⟩ := Option.map_eq_some_iff.1 h
        exact .inl ⟨n, hn, (Option.some.inj he).symm⟩
      · rintro (⟨n, hn, rfl⟩ | ⟨-, hm', -⟩)
        · exact Option.map_eq_some_iff.2 ⟨n, hn, rfl⟩
        · cases hm'

/-- A normalised integer is normal. -/
lemma readInt_ofInt (L : StrTables C) (h : readInt C maxDigits a = some n) :
    readInt C maxDigits (ofInt n) = some n := by
  obtain ⟨m, hm, hn⟩ := Option.bind_eq_some_iff.1 h
  obtain ⟨m', hm', hn'⟩ := toInt_ofInt L.digit_lt (fullmatchInt_eq_some.1 hm).2.1 hn
  rw [(readInt_of_fullmatchInt hm').2.2, hn']

/-- A text in lower case that reads as an integer was in lower case before. -/
lemma lower_of_compact (h : (fullmatchInt C (compact (L.lower s))).isSome) : L.lower s = s :=
  lower_of_plain (plain_of_compact h)

/-- Normalising twice. -/
lemma normAnswerForCompare_idem {r : Option (List Nat)} {a : Option (List Nat)}
    (h : normAnswerForCompare C L maxDigits a = some r) : normAnswerForCompare C L maxDigits r = some r := by
  cases r with
  | none => rfl
  | some t =>
    cases a with
    | none => cases h
    | some a =>
      obtain ⟨n, hn, rfl⟩ | ⟨hs, hm, rfl⟩ := normAnswerForCompare_eq_some.1 h
      · exact normAnswerForCompare_eq_some.2 (.inl ⟨n, readInt_ofInt L hn, rfl⟩)
      · obtain ⟨hhead, hlast, hnil⟩ := lower_ends (L := L) (stripPoints_ends a).1 (stripPoints_ends a).2
        have hstrip := stripPoints_eq_self hhead hlast
        refine normAnswerForCompare_eq_some.2 (.inr ?_)
        rw [hstrip]
        refine ⟨fun he => hs (hnil he), ?_, (L.idem _).symm⟩
        cases hm' : fullmatchInt C (compact (L.lower (stripPoints C a))) with
        | none => rfl
        | some m =>
          have hlow := lower_of_compact (L := L) (Option.isSome_iff_exists.2 ⟨m, hm'⟩)
          rw [hlow, hm] at hm'
          cases hm'

/-- Different integers are written differently. -/
lemma ofInt_inj {n n' : Int} (h : ofInt n = ofInt n') : n = n' := by
  obtain ⟨neg, ds, hs, -, -, hn, -⟩ := ofInt_spec (C := .ascii) n
  obtain ⟨neg', ds', hs', -, -, hn', -⟩ := ofInt_spec (C := .ascii) n'
  rw [h, hs'] at hs
  cases hs
  exact hn.symm.trans hn'

/-- No text that is compared in lower case becomes an integer. -/
lemma lower_ne_ofInt (h : fullmatchInt C (compact s) = none) : L.lower s ≠ ofInt n := by
  intro he
  obtain ⟨neg, ds, hsplit, hds, hdigits, -⟩ := ofInt_spec (C := C) n
  have hm : fullmatchInt C (ofInt n) = some (neg, ds) := fullmatchInt_eq_some.2 ⟨hsplit, hds, hdigits⟩
  have hcompact := (@readInt_of_fullmatchInt C _ 0 _ hm).2.1
  have hlow : L.lower s = s := by
    apply lower_of_compact
    rw [he, hcompact, hm]
    rfl
  rw [← hlow, he, hcompact, hm] at h
  cases h

/-- The groups together are the text without its separators. -/
lemma flatten_splitOnP (p : Nat → Bool) (s : List Nat) : (s.splitOnP p).flatten = s.filter fun u => !p u := by
  induction s with
  | nil => rfl
  | cons u s ih =>
    rw [List.splitOnP_cons_eq_if_modifyHead, List.filter_cons]
    cases hp : p u with
    | true =>
      simp only [if_true, Bool.not_true, Bool.false_eq_true, if_false, List.flatten_cons, List.nil_append]
      exact ih
    | false =>
      obtain ⟨g, gs, hg⟩ := List.exists_cons_of_ne_nil (List.splitOnP_ne_nil p s)
      rw [hg, List.flatten_cons] at ih
      simp only [Bool.false_eq_true, if_false, Bool.not_false, if_true, hg, List.modifyHead_cons,
        List.flatten_cons, List.cons_append]
      rw [ih]

/-- Digits in groups are the text without commas and blanks. -/
lemma compact_of_groups (hd : ∀ g ∈ s.splitOnP (isSeparator blanks), ∀ u ∈ g, (C.digit u).isSome) :
    compact s = (s.splitOnP (isSeparator blanks)).flatten := by
  have hdigit : ∀ u ∈ (s.splitOnP (isSeparator blanks)).flatten, u ≠ 44 ∧ u ≠ 32 := by
    intro u hu
    obtain ⟨g, hg, hug⟩ := List.mem_flatten.1 hu
    exact (ne_of_digit (hd g hg u hug)).2.2
  rw [← compact_eq_self hdigit, flatten_splitOnP]
  simp only [compact, List.filter_filter]
  apply List.filter_congr
  intro u _
  cases blanks <;> simp [isSeparator] <;> grind

/-- A text that writes an integer reads as this integer. -/
lemma fullmatchInt_of_groupedInt (h : groupedInt C blanks a = some n) :
    ∃ m, fullmatchInt C (compact (stripPoints C a)) = some m ∧ signed m.1 (C.int m.2) = n := by
  unfold groupedInt at h
  dsimp only at h
  split at h
  · next hc =>
    obtain ⟨hfirst, hd, -, -⟩ := hc
    have hne : compact (splitSign (stripPoints C a)).2 ≠ [] := by
      rw [compact_of_groups hd]
      intro he
      apply hfirst
      cases hg : (splitSign (stripPoints C a)).2.splitOnP (isSeparator blanks) with
      | nil => rfl
      | cons g gs =>
        rw [hg, List.flatten_cons] at he
        exact (List.append_eq_nil_iff.1 he).1
    have hdigits : ∀ u ∈ compact (splitSign (stripPoints C a)).2, (C.digit u).isSome := by
      rw [compact_of_groups hd]
      intro u hu
      obtain ⟨g, hg, hug⟩ := List.mem_flatten.1 hu
      exact hd g hg u hug
    have hsplit : splitSign (compact (stripPoints C a)) =
        ((splitSign (stripPoints C a)).1, compact (splitSign (stripPoints C a)).2) := by
      obtain ⟨l, hl, hs⟩ | ⟨l, hl, hs⟩ | ⟨hs, -⟩ := splitSign_cases (stripPoints C a)
      · rw [hs, hl]
        rfl
      · rw [hs, hl]
        rfl
      · rw [hs] at hdigits ⊢
        exact splitSign_digits hdigits
    refine ⟨_, fullmatchInt_eq_some.2 ⟨hsplit, hne, hdigits⟩, ?_⟩
    rw [compact_of_groups hd]
    exact Option.some.inj h
  · cases h

/-- The two readings of a text agree. -/
lemma eq_of_groupedInt {n' : Int} (h : groupedInt C blanks a = some n) (h' : readInt C maxDigits a = some n') :
    n = n' := by
  obtain ⟨m, hm, rfl⟩ := fullmatchInt_of_groupedInt h
  rw [readInt, hm, Option.bind_some, toInt] at h'
  split at h'
  · cases h'
  · exact Option.some.inj h'

/-- The digits of an integer are in one run. -/
lemma groupedInt_ofInt (n : Int) : groupedInt C blanks (ofInt n) = some n := by
  obtain ⟨neg, ds, hsplit, hds, hdigits, hsigned, -⟩ := ofInt_spec (C := C) n
  have hstrip := (@readInt_of_fullmatchInt C _ 0 _ (fullmatchInt_eq_some.2 ⟨hsplit, hds, hdigits⟩)).1
  have hrun : ds.splitOnP (isSeparator blanks) = [ds] := by
    refine List.splitOnP_eq_singleton fun u hu => ?_
    obtain ⟨-, -, h44, h32⟩ := ne_of_digit (hdigits u hu)
    simp [isSeparator, h44, h32]
  unfold groupedInt
  rw [hstrip, hsplit]
  dsimp only
  rw [hrun, if_pos, List.flatten_singleton, hsigned]
  refine ⟨hds, fun g hg u hu => ?_, .inl rfl, fun g hg => absurd hg List.not_mem_nil⟩
  rw [List.mem_singleton.1 hg] at hu
  exact hdigits u hu

/-- Answers are equated as integers or as texts. -/
lemma equated_cases {x y t : List Nat} (hx : normAnswerForCompare C L maxDigits (some x) = some (some t))
    (hy : normAnswerForCompare C L maxDigits (some y) = some (some t)) :
    (∃ n, readInt C maxDigits x = some n ∧ readInt C maxDigits y = some n) ∨ SameText L x y := by
  obtain ⟨n, hn, rfl⟩ | ⟨-, hm, rfl⟩ := normAnswerForCompare_eq_some.1 hx
  · obtain ⟨n', hn', he⟩ | ⟨-, hm', he⟩ := normAnswerForCompare_eq_some.1 hy
    · obtain rfl := ofInt_inj he
      exact .inl ⟨n, hn, hn'⟩
    · exact absurd he.symm (lower_ne_ofInt hm')
  · obtain ⟨n', hn', he⟩ | ⟨-, hm', he⟩ := normAnswerForCompare_eq_some.1 hy
    · exact absurd he (lower_ne_ofInt hm)
    · exact .inr he

/-- An integer whose separators are in place is written in groups. -/
lemma groupedInt_of_not_stray {x : List Nat} (h : ¬ Stray C maxDigits blanks (some x))
    (hn : readInt C maxDigits x = some n) : groupedInt C blanks x = some n := by
  cases hg : groupedInt C blanks x with
  | none =>
    refine absurd ⟨x, rfl, ?_, hg⟩ h
    rw [hn]
    rfl
  | some m => rw [eq_of_groupedInt hg hn]

/-- The text that `str` writes has no separators. -/
lemma not_stray_ofInt (n : Int) : ¬ Stray C maxDigits blanks (some (ofInt n)) := by
  rintro ⟨x, hx, -, hg⟩
  cases hx
  rw [groupedInt_ofInt] at hg
  cases hg

/-- A text that is the same as that of `str` is it. -/
lemma groupedInt_of_sameText {x : List Nat} (h : SameText L x (ofInt n)) : groupedInt C blanks x = some n := by
  obtain ⟨neg, ds, hsplit, hds, hdigits, -⟩ := ofInt_spec (C := C) n
  have hm : fullmatchInt C (ofInt n) = some (neg, ds) := fullmatchInt_eq_some.2 ⟨hsplit, hds, hdigits⟩
  obtain ⟨hstrip, hcompact, -⟩ := @readInt_of_fullmatchInt C _ 0 _ hm
  have hint : (fullmatchInt C (compact (ofInt n))).isSome := by
    rw [hcompact, hm]
    rfl
  unfold SameText at h
  rw [hstrip, lower_plain (plain_of_compact hint)] at h
  have hlow : L.lower (stripPoints C x) = stripPoints C x := lower_of_compact (by rw [h]; exact hint)
  have hx : stripPoints C x = stripPoints C (ofInt n) := by rw [← hlow, h, hstrip]
  have hgroup : groupedInt C blanks (ofInt n) = some n := groupedInt_ofInt n
  unfold groupedInt at hgroup ⊢
  rw [hx, hgroup]

/-- The normalisation is idempotent, and among the answers whose commas and blanks are in place it equates an answer
only with equal ones: exactly if its own commas and blanks are in place. -/
theorem equatesOnlyEqual_iff (C : Charset) (L : StrTables C) (maxDigits : Nat) (blanks : Bool)
    (a : Option (List Nat)) :
    (∀ b, ¬ Stray C maxDigits blanks b → EquatesOnlyEqual C L maxDigits blanks a b) ↔
      ¬ Stray C maxDigits blanks a := by
  constructor
  · rintro h ⟨x, rfl, hread, hgroup⟩
    -- the integer it is taken for, as `str` writes it
    obtain ⟨n, hn⟩ := Option.isSome_iff_exists.1 hread
    have hy := readInt_ofInt L hn
    obtain ⟨x', y', hx', hy', hsame⟩ := (h (some (ofInt n)) (not_stray_ofInt n)).2 (ofInt n)
      (normAnswerForCompare_eq_some.2 (.inl ⟨n, hn, rfl⟩)) (normAnswerForCompare_eq_some.2 (.inl ⟨n, hy, rfl⟩))
    cases hx'
    cases hy'
    cases hsame with
    | inl hint =>
      obtain ⟨m, hm, -⟩ := hint
      rw [hgroup] at hm
      cases hm
    | inr htext =>
      rw [groupedInt_of_sameText htext] at hgroup
      cases hgroup
  · intro ha b hb
    refine ⟨fun r hr => normAnswerForCompare_idem hr, fun t hat hbt => ?_⟩
    cases a with
    | none => cases hat
    | some x =>
      cases b with
      | none => cases hbt
      | some y =>
        refine ⟨x, y, rfl, rfl, ?_⟩
        obtain ⟨n, hx, hy⟩ | htext := equated_cases hat hbt
        · exact .inl ⟨n, groupedInt_of_not_stray ha hx, groupedInt_of_not_stray hb hy⟩
        · exact .inr htext

/-- The tables for ASCII texts. -/
def StrTables.ascii : StrTables .ascii where
  lower s := s.map fun u => if 65 ≤ u ∧ u ≤ 90 then u + 32 else u
  pieces s := by
    refine ⟨s.map fun u => [if 65 ≤ u ∧ u ≤ 90 then u + 32 else u], ?_, ?_⟩
    · induction s with
      | nil => rfl
      | cons u s ih => rw [List.map_cons, List.map_cons, List.flatten_cons, ih, List.singleton_append]
    · apply List.forall₂_map_right_iff.2
      apply List.forall₂_same.2
      intro u _
      by_cases hu : 65 ≤ u ∧ u ≤ 90
      · have h : ∀ v, 65 ≤ v → v ≤ 122 → plain .ascii v = false := by
          intro v h1 h2
          simp [plain, Charset.ascii]
          omega
        rw [if_pos hu, h u (by omega) (by omega), if_neg Bool.false_ne_true]
        refine ⟨List.cons_ne_nil _ _, fun v hv => ?_⟩
        rw [List.mem_singleton.1 hv]
        exact h (u + 32) (by omega) (by omega)
      · rw [if_neg hu]
        split
        · rfl
        · next hp =>
          refine ⟨List.cons_ne_nil _ _, fun v hv => ?_⟩
          rw [List.mem_singleton.1 hv]
          exact Bool.eq_false_iff.2 hp
  idem s := by
    rw [List.map_map]
    apply List.map_congr_left
    intro u _
    simp only [Function.comp_apply]
    split
    · rw [if_neg (by omega)]
    · rfl
  digit_lt u d h := by
    unfold Charset.ascii at h
    dsimp only at h
    split at h
    · cases h
      omega
    · cases h

/-- Lists of numbers are taken for the number with all their digits. -/
theorem lists_equated_with_numbers :
    (¬ EquatesOnlyEqual .ascii .ascii 4300 true (some (points "1, 2".toList)) (some (points "12".toList)) ∧
      ¬ EquatesOnlyEqual .ascii .ascii 4300 false (some (points "1, 2".toList)) (some (points "12".toList))) ∧
    ¬ EquatesOnlyEqual .ascii .ascii 4300 true (some (points "3 4".toList)) (some (points "34".toList)) ∧
      ¬ EquatesOnlyEqual .ascii .ascii 4300 false (some (points "3 4".toList)) (some (points "34".toList)) := by
  have hrefute : ∀ {blanks : Bool} {x y t : List Nat},
      normAnswerForCompare .ascii .ascii 4300 (some x) = some (some t) →
      normAnswerForCompare .ascii .ascii 4300 (some y) = some (some t) →
      groupedInt .ascii blanks x = none →
      StrTables.ascii.lower (stripPoints .ascii x) ≠ StrTables.ascii.lower (stripPoints .ascii y) →
      ¬ EquatesOnlyEqual .ascii .ascii 4300 blanks (some x) (some y) := by
    intro blanks x y t hx hy hgroup htext h
    obtain ⟨x', y', hx', hy', hsame⟩ := h.2 t hx hy
    cases hx'
    cases hy'
    cases hsame with
    | inl hint =>
      obtain ⟨n, hn, -⟩ := hint
      rw [hgroup] at hn
      cases hn
    | inr ht => exact htext ht
  refine ⟨⟨?_, ?_⟩, ?_, ?_⟩
  · exact hrefute (t := points "12".toList) (by decide) (by decide) (by decide) (by decide)
  · exact hrefute (t := points "12".toList) (by decide) (by decide) (by decide) (by decide)
  · exact hrefute (t := points "34".toList) (by decide) (by decide) (by decide) (by decide)
  · exact hrefute (t := points "34".toList) (by decide) (by decide) (by decide) (by decide)

end Gambit.Bench
