import Gambit.Lib.JsonScan

/-!
# Reading fields from the text of a JSON value

What a field pattern reads in a window of the text of a value, for patterns that are apt for the value: at
each entry with the name of an alternative the value is of its kind, or cannot be taken for one. An entry
that lies in the window is read as it was written. Of one that is cut nothing is read, or, where its value
is a number, the digits that are left.
-/

namespace Gambit.Lib
open Utf8

/-- The values that a pattern of the kind reads. -/
def Kind.accepts : Kind → Json → Bool
  | .digits, .int (.ofNat _) => true
  | .boolean, .bool _ => true
  | .string, .str _ => true
  | .nullOrString, .null => true
  | .nullOrString, .str _ => true
  | _, _ => false

/-- Values in whose texts a pattern of the kind finds nothing. -/
def Kind.rejects : Kind → Json → Bool
  | _, .dict _ => true
  | .string, .null => true
  | _, _ => false

mutual

/-- The entries of all objects in a value. -/
def Json.entries : Json → List (List Char × Json)
  | .list xs => xs.entries
  | .dict es => es.entries
  | _ => []

def Items.entries : Items → List (List Char × Json)
  | .nil => []
  | .cons j rest => j.entries ++ rest.entries

def Entries.entries : Entries → List (List Char × Json)
  | .nil => []
  | .cons key j rest => (key, j) :: (j.entries ++ rest.entries)

end

variable {C : Charset} {p : FieldPattern} {A : List FieldPattern} {e : Encoding} {j : Json}

mutual

/-- The entries of a value are the ones that stand in its text. -/
lemma Json.fields_entries (level pos : Nat) (after : List Nat) : ∀ j : Json,
    (j.fields e level pos after).map (fun f => (f.key, f.value)) = j.entries
  | .null => rfl
  | .bool _ => rfl
  | .int _ => rfl
  | .float _ => rfl
  | .str _ => rfl
  | .list xs => Items.fields_entries _ _ _ _ xs
  | .dict es => Entries.fields_entries _ _ _ _ es

lemma Items.fields_entries (level pos : Nat) (sep : List Char) (after : List Nat) : ∀ xs : Items,
    (xs.fields e level pos sep after).map (fun f => (f.key, f.value)) = xs.entries
  | .nil => rfl
  | .cons j rest => by
    rw [Items.fields, List.map_append, Json.fields_entries, Items.fields_entries, Items.entries]

lemma Entries.fields_entries (level pos : Nat) (sep : List Char) (after : List Nat) : ∀ es : Entries,
    (es.fields e level pos sep after).map (fun f => (f.key, f.value)) = es.entries
  | .nil => rfl
  | .cons key j rest => by
    rw [Entries.fields, List.map_cons, List.map_append, Json.fields_entries, Entries.fields_entries, Entries.entries]

end

/-- Units that are neither quotes nor backslashes are content of a literal. -/
lemma stringTail_skip {x : List Nat} (hx : ∀ u ∈ x, u ≠ 34 ∧ u ≠ 92) (l : List Nat) :
    stringTail false (x ++ l) = (stringTail false l).map (x ++ ·) := by
  induction x with
  | nil => rw [List.nil_append]; cases stringTail false l <;> rfl
  | cons u x ih =>
    obtain ⟨h34, h92⟩ := hx u (.head _)
    rw [List.cons_append, stringTail, if_neg h34, beq_false_of_ne h92, ih fun v hv => hx v (.tail _ hv)]
    cases stringTail false l <;> rfl

/-- An escape is a backslash with a character behind it and some digits, or the character itself. -/
lemma escapeChar_form (c : Char) :
    (∃ d y, Json.escapeChar c = '\\' :: d :: y ∧ d ≠ '\n' ∧ d.toNat < 128 ∧
      ∀ x ∈ y, x ≠ '"' ∧ x ≠ '\\' ∧ x.toNat < 128) ∨ Json.escapeChar c = [c] ∧ c ≠ '"' ∧ c ≠ '\\' := by
  unfold Json.escapeChar
  split_ifs with h1 h2 h3 h4 h5 h6 h7 h8
  · exact .inl ⟨_, _, rfl, by decide, by decide, nofun⟩
  · exact .inl ⟨_, _, rfl, by decide, by decide, nofun⟩
  · exact .inl ⟨_, _, rfl, by decide, by decide, nofun⟩
  · exact .inl ⟨_, _, rfl, by decide, by decide, nofun⟩
  · exact .inl ⟨_, _, rfl, by decide, by decide, nofun⟩
  · exact .inl ⟨_, _, rfl, by decide, by decide, nofun⟩
  · exact .inl ⟨_, _, rfl, by decide, by decide, nofun⟩
  · have hhex : ∀ n < 32, ['0', '0', Nat.digitChar (n / 16), Nat.digitChar (n % 16)].all fun x =>
        decide (x ≠ '"' ∧ x ≠ '\\' ∧ x.toNat < 128) := by decide
    exact .inl ⟨_, _, rfl, by decide, by decide, forall_of_all (hhex _ h8)⟩
  · exact .inr ⟨rfl, h1, h2⟩

/-- Units that are neither quotes nor backslashes. -/
lemma encode_content {x : List Char} (hx : ∀ c ∈ x, c ≠ '"' ∧ c ≠ '\\') : ∀ u ∈ e.encode x, u ≠ 34 ∧ u ≠ 92 := by
  intro u hu
  constructor
  · rintro rfl
    obtain ⟨c, hc, h⟩ := e.mem_encode hu (by omega)
    exact (hx c hc).1 (Char.toNat_inj.1 h)
  · rintro rfl
    obtain ⟨c, hc, h⟩ := e.mem_encode hu (by omega)
    exact (hx c hc).2 (Char.toNat_inj.1 h)

/-- The content of a literal ends at its closing quote. -/
lemma stringTail_escape (t : List Char) (r : List Nat) :
    stringTail false (e.encode (Json.escape t) ++ 34 :: r) = some (e.encode (Json.escape t)) := by
  induction t with
  | nil => rfl
  | cons c t ih =>
    rw [Json.escape_cons, Encoding.encode_append, List.append_assoc]
    obtain ⟨d, y, hc, hd, hd', hy⟩ | ⟨hc, hq⟩ := escapeChar_form c
    · have hne : d.toNat ≠ 10 := fun h => hd (Char.toNat_inj.1 h)
      have hy' : ∀ u ∈ e.encode y, u ≠ 34 ∧ u ≠ 92 := encode_content fun x hx => ⟨(hy x hx).1, (hy x hx).2.1⟩
      rw [hc, Encoding.encode_cons, Encoding.encode_cons, e.ascii d hd', e.ascii '\\' (by decide)]
      show (stringTail true (d.toNat :: (e.encode y ++ _))).map (92 :: ·) = _
      rw [stringTail, if_neg hne, stringTail_skip hy', ih]
      rfl
    · rw [hc, stringTail_skip (encode_content fun x hx => List.mem_singleton.1 hx ▸ hq), ih]
      rfl

/-- The digits of a number. -/
lemma toDigits_ascii {n : Nat} {c : Char} (h : c ∈ Nat.toDigits 10 n) : 48 ≤ c.toNat ∧ c.toNat ≤ 57 := by
  have hd := Nat.isDigit_of_mem_toDigits (by omega) (by omega) h
  simp only [Char.isDigit, Bool.and_eq_true, decide_eq_true_eq] at hd
  exact hd

/-- The stored text of a value that a pattern reads is one of its kind. -/
lemma Kind.value_of_accepts {k : Kind} {v : Json} (h : k.accepts v) (level : Nat) :
    k.Value C (e.encode (v.dump level)) := by
  have hstr : ∀ t, ∃ t', e.encode ((Json.str t).dump level) = 34 :: (t' ++ [34]) ∧
      stringTail false (t' ++ [34]) = some t' := fun t =>
    ⟨e.encode (Json.escape t), encode_quote t, stringTail_escape t []⟩
  cases k with
  | digits =>
    cases v with
    | int n =>
      cases n with
      | ofNat n =>
        have henc : e.encode ((Json.int (.ofNat n)).dump level) = points (Nat.toDigits 10 n) :=
          e.encode_ascii fun c hc => by have := toDigits_ascii hc; omega
        rw [henc]
        refine ⟨fun h => Nat.toDigits_ne_nil (List.map_eq_nil_iff.1 h), ?_⟩
        intro u hu
        obtain ⟨c, hc, rfl⟩ := List.mem_map.1 hu
        have := toDigits_ascii hc
        rw [C.decimal _ (by omega), if_pos this]
        rfl
      | negSucc n => cases h
    | _ => cases h
  | boolean =>
    cases v with
    | bool b =>
      cases b with
      | true => exact .inl (e.encode_ascii (t := "true".toList) (forall_of_all rfl))
      | false => exact .inr (e.encode_ascii (t := "false".toList) (forall_of_all rfl))
    | _ => cases h
  | string =>
    cases v with
    | str t => exact hstr t
    | _ => cases h
  | nullOrString =>
    cases v with
    | null => exact .inl (e.encode_ascii (t := "null".toList) (forall_of_all rfl))
    | str t => exact .inr (hstr t)
    | _ => cases h

/-- In the text of a value that a pattern cannot take for one it finds nothing. -/
lemma Kind.read_of_rejects {k : Kind} {v : Json} (h : k.rejects v) (level : Nat) (r : List Nat) :
    (e.encode (v.dump level) ++ r).dropWhile C.space = e.encode (v.dump level) ++ r ∧
      k.read C (e.encode (v.dump level) ++ r) = none := by
  cases v with
  | dict es =>
    rw [Json.dump, Encoding.encode_cons, e.ascii '{' (by decide), List.append_assoc]
    refine ⟨?_, Kind.read_brace k _⟩
    show List.dropWhile _ (123 :: _) = _
    rw [List.dropWhile_cons, C.graphic 123 (by omega) (by omega)]
    rfl
  | null =>
    cases k with
    | string =>
      have henc : e.encode (Json.null.dump level) = points "null".toList := e.encode_ascii (t := "null".toList) (forall_of_all rfl)
      rw [henc]
      refine ⟨?_, rfl⟩
      show List.dropWhile _ (110 :: _) = _
      rw [List.dropWhile_cons, C.graphic 110 (by omega) (by omega)]
      rfl
    | _ => cases h
  | _ => cases k <;> cases h

/-- The value of the digits of a number. -/
lemma int_toDigits (n : Nat) : C.int (points (Nat.toDigits 10 n)) = n := by
  have h : ∀ (l : List Char) (m : Nat), (∀ c ∈ l, 48 ≤ c.toNat ∧ c.toNat ≤ 57) →
      (points l).foldl (fun n u => 10 * n + (C.digit u).getD 0) m = Nat.ofDigitChars 10 l m := by
    intro l
    induction l with
    | nil => exact fun _ _ => rfl
    | cons c l ih =>
      intro m hl
      have hc := hl c (.head _)
      show (points l).foldl _ (10 * m + (C.digit c.toNat).getD 0) = _
      rw [C.decimal _ (by omega), if_pos hc, ih _ fun d hd => hl d (.tail _ hd)]
      rfl
  rw [Charset.int, h _ _ fun c hc => toDigits_ascii hc, Nat.ofDigitChars_ten_toDigits]

/-- The value of the first digits of a number. -/
lemma int_take_le (n k : Nat) : C.int ((points (Nat.toDigits 10 n)).take k) ≤ n := by
  induction n using Nat.strong_induction_on with
  | _ n ih =>
    rcases Nat.lt_or_ge k (points (Nat.toDigits 10 n)).length with hk | hk
    · rcases Nat.lt_or_ge n 10 with hn | hn
      · rw [Nat.toDigits_of_lt_base hn] at hk ⊢
        obtain rfl : k = 0 := by simpa [points] using hk
        exact Nat.zero_le _
      · have hlast : points (Nat.toDigits 10 n) = points (Nat.toDigits 10 (n / 10)) ++ [(Nat.digitChar (n % 10)).toNat] := by
          rw [Nat.toDigits_of_base_le (by omega) hn, points, List.map_append]
          rfl
        rw [hlast, List.length_append, List.length_singleton] at hk
        rw [hlast, List.take_append_of_le_length (by omega)]
        exact (ih (n / 10) (by omega)).trans (Nat.div_le_self n 10)
    · rw [List.take_of_length_le hk, int_toDigits]

/-- A number that has lost digits is another number. -/
lemma int_take_ne {n k : Nat} (hk : k < (points (Nat.toDigits 10 n)).length) (hpos : k ≠ 0) :
    C.int ((points (Nat.toDigits 10 n)).take k) ≠ n := by
  rcases Nat.lt_or_ge n 10 with hn | hn
  · rw [Nat.toDigits_of_lt_base hn] at hk
    exact absurd (by simpa [points] using hk) hpos
  · have hlast : points (Nat.toDigits 10 n) = points (Nat.toDigits 10 (n / 10)) ++ [(Nat.digitChar (n % 10)).toNat] := by
      rw [Nat.toDigits_of_base_le (by omega) hn, points, List.map_append]
      rfl
    rw [hlast, List.length_append, List.length_singleton] at hk
    rw [hlast, List.take_append_of_le_length (by omega)]
    have h := int_take_le (C := C) (n / 10) k
    omega

/-- A list of alternatives is apt for a value if it tells the entries with their names by their kinds. -/
structure Apt (A : List FieldPattern) (j : Json) : Prop where
  plain : j.Plain
  distinct : ∀ p ∈ A, ∀ q ∈ A, p.name = q.name → p = q
  typed : ∀ x ∈ j.entries, ∀ p ∈ A, x.1 = p.name → p.kind.accepts x.2 ∨ p.kind.rejects x.2

/-- An entry is one of a pattern. -/
def FieldPattern.Fits (p : FieldPattern) (f : Field) : Prop := f.key = p.name ∧ p.kind.accepts f.value

instance (p : FieldPattern) (f : Field) : Decidable (p.Fits f) := inferInstanceAs (Decidable (_ ∧ _))

/-- The stored text of an entry of a pattern. -/
lemma FieldPattern.Fits.text {f : Field} (h : p.Fits f) :
    f.text e = p.quoted ++ 58 :: 32 :: e.encode (f.value.dump f.level) := by
  rw [Field.text, h.1, encode_quote, Json.escape_word p.word,
    e.encode_ascii fun c hc => (p.word c hc).2.trans_lt (by omega)]
  rfl

/-- Where an alternative matches in an entry, the entry is one of it. -/
lemma fits_of_read {f : Field} (hj : Apt A j) (hf : (f.key, f.value) ∈ j.entries) {q : FieldPattern} (hq : q ∈ A)
    (h : (q.read C (f.text e ++ f.after)).isSome) : q.Fits f := by
  have htext : f.text e ++ f.after = 34 :: (e.encode (Json.escape f.key) ++ 34 :: 58 :: 32 ::
      (e.encode (f.value.dump f.level) ++ f.after)) := by
    rw [Field.text, encode_quote]
    simp only [List.cons_append, List.append_assoc, List.nil_append]
  have hany : (readAny C [q] (f.text e ++ f.after)).isSome := readAny_isSome_iff.2 ⟨q, .head _, h⟩
  rw [htext] at hany
  obtain ⟨q', hq', hkey, r', hr', hread⟩ := readAny_content hany
  obtain rfl := List.mem_singleton.1 hq'
  rw [List.dropWhile_cons, C.graphic 58 (by omega) (by omega)] at hr'
  obtain rfl := (List.cons.inj hr').2
  rw [List.dropWhile_cons, C.blank, if_pos rfl] at hread
  refine ⟨hkey, (hj.typed _ hf _ hq hkey).resolve_right fun hrej => ?_⟩
  obtain ⟨hdrop, hnone⟩ := Kind.read_of_rejects (C := C) (e := e) hrej f.level f.after
  rw [hdrop, hnone] at hread
  cases hread

/-- What follows an entry starts with no digit. -/
lemma Closes.no_digit {r : List Nat} (h : Closes r) : ∀ u, r.head? = some u → C.digit u = none := by
  intro u hu
  obtain rfl | rfl := h.head hu
  · exact C.decimal 44 (by omega)
  · exact C.decimal 10 (by omega)

/-- In a window of an entry only its own alternative matches. -/
lemma readAny_take {f : Field} (hj : Apt A j) (hf : (f.key, f.value) ∈ j.entries) (hp : p ∈ A) (hfit : p.Fits f)
    (n : Nat) : readAny C A ((f.text e ++ f.after).take n) = p.read C ((f.text e ++ f.after).take n) := by
  have honly : ∀ q ∈ A, (q.read C ((f.text e ++ f.after).take n)).isSome → q = p := by
    intro q hq h
    have h' := FieldPattern.read_append h ((f.text e ++ f.after).drop n)
    rw [List.take_append_drop] at h'
    exact hj.distinct q hq p hp ((fits_of_read hj hf hq h').1.symm.trans hfit.1)
  generalize (f.text e ++ f.after).take n = w at honly
  rw [readAny]
  cases h : p.read C w with
  | none =>
    rw [List.findSome?_eq_none_iff]
    intro q hq
    rw [← Option.not_isSome_iff_eq_none]
    intro hs
    rw [honly q hq hs, h] at hs
    cases hs
  | some m =>
    cases hm : A.findSome? (·.read C w) with
    | none =>
      rw [List.findSome?_eq_none_iff.1 hm p hp] at h
      cases h
    | some m' =>
      obtain ⟨q, hq, hm'⟩ := List.exists_of_findSome?_eq_some hm
      rw [honly q hq (by rw [hm']; rfl), h] at hm'
      exact hm'.symm

/-- What reading an entry in a window that ends at `b` finds: the value, or the digits that are left of it. -/
def Field.found (A : List FieldPattern) (e : Encoding) (b : Nat) (f : Field) : Option (FieldPattern × List Nat) :=
  (A.find? fun p => p.Fits f).bind fun p =>
    let value := e.encode (f.value.dump f.level)
    if f.stop e ≤ b then some (p, value)
    else if p.kind = .digits ∧ f.start + (p.quoted.length + 2) < b then
      some (p, value.take (b - (f.start + (p.quoted.length + 2))))
    else none

/-- The alternative of an entry. -/
lemma find?_fits {f : Field} (hj : Apt A j) (hp : p ∈ A) (hfit : p.Fits f) :
    (A.find? fun q => q.Fits f) = some p := by
  cases h : A.find? fun q => q.Fits f with
  | none => exact absurd (decide_eq_true hfit) (List.find?_eq_none.1 h p hp)
  | some q =>
    have hq : q.Fits f := by simpa using List.find?_some h
    rw [hj.distinct q (List.mem_of_find?_eq_some h) p hp (hq.1.symm.trans hfit.1)]

/-- The pattern matches at the entries of its alternatives. -/
lemma spot?_eq {f : Field} (hj : Apt A j) (hf : (f.key, f.value) ∈ j.entries) (hc : Closes f.after) :
    f.spot? C A e = if ∃ p ∈ A, p.Fits f then some (f.start, f.text e ++ f.after) else none := by
  unfold Field.spot?
  congr 1
  rw [eq_iff_iff]
  constructor
  · intro h
    obtain ⟨p, hp, h⟩ := readAny_isSome_iff.1 h
    exact ⟨p, hp, fits_of_read hj hf hp h⟩
  · rintro ⟨p, hp, hfit⟩
    have hv := Kind.value_of_accepts (C := C) (e := e) hfit.2 f.level
    have h := FieldPattern.read_take_group hv hc.no_digit (f.text e ++ f.after).length
    rw [if_pos (by rw [List.length_append, hfit.text]; simp only [List.length_append, List.length_cons]; omega)] at h
    have htext : f.text e ++ f.after = p.quoted ++ 58 :: 32 :: (e.encode (f.value.dump f.level) ++ f.after) := by
      rw [hfit.text, List.append_assoc]
      rfl
    rw [← htext, List.take_length] at h
    refine readAny_isSome_iff.2 ⟨p, hp, ?_⟩
    rw [← Option.isSome_map, h]
    rfl

/-- What is read at an entry in a window. -/
lemma inWindow_eq {f : Field} (hj : Apt A j) (hf : (f.key, f.value) ∈ j.entries) (hc : Closes f.after) (b : Nat) :
    ((f.spot? C A e).bind (inWindow C A b)).map (fun x => (x.1, x.2.field, x.2.group)) =
      (f.found A e b).map (f.start, ·) := by
  rw [spot?_eq hj hf hc]
  by_cases h : ∃ p ∈ A, p.Fits f
  · obtain ⟨p, hp, hfit⟩ := h
    have hv := Kind.value_of_accepts (C := C) (e := e) hfit.2 f.level
    have htext : f.text e ++ f.after = p.quoted ++ 58 :: 32 :: (e.encode (f.value.dump f.level) ++ f.after) := by
      rw [hfit.text, List.append_assoc]
      rfl
    have hread := FieldPattern.read_take_group hv hc.no_digit (b - f.start)
    rw [if_pos ⟨p, hp, hfit⟩, Option.bind_some, inWindow, readAny_take hj hf hp hfit, Field.found,
      find?_fits hj hp hfit, Option.bind_some, htext]
    have hstop : f.stop e = f.start + (p.quoted.length + 2 + (e.encode (f.value.dump f.level)).length) := by
      rw [Field.stop, hfit.text, List.length_append, List.length_cons, List.length_cons]
      omega
    -- the conditions on the window, in the positions of the text
    have hcond : p.quoted.length + 2 + (e.encode (f.value.dump f.level)).length ≤ b - f.start ↔ f.stop e ≤ b := by omega
    have hcond' : p.quoted.length + 2 < b - f.start ↔ f.start + (p.quoted.length + 2) < b := by omega
    simp only [hcond, hcond', Nat.sub_sub] at hread
    have hfield := fun m => FieldPattern.read_field (C := C) (p := p) (m := m)
      (l := (p.quoted ++ 58 :: 32 :: (e.encode (f.value.dump f.level) ++ f.after)).take (b - f.start))
    generalize p.read C _ = res at hread hfield ⊢
    cases res with
    | none =>
      simp only [Option.map_none] at hread ⊢
      split_ifs at hread ⊢
      rfl
    | some m =>
      simp only [Option.map_some, hfield m rfl] at hread ⊢
      split_ifs at hread ⊢
      · rw [Option.some.inj hread]
        rfl
      · rw [Option.some.inj hread]
        rfl
  · have hnone : (A.find? fun p => p.Fits f) = none :=
      List.find?_eq_none.2 fun p hp hfit => h ⟨p, hp, of_decide_eq_true hfit⟩
    rw [if_neg h, Field.found, hnone]
    rfl

variable (C A) in
/-- The places where an apt pattern matches in the stored text of a value. -/
lemma spots_text (hj : Apt A j) :
    spots C A 0 (e.encode (j.dump 0)) = (j.fields e 0 0 []).filterMap (·.spot? C A e) := by
  have h := Json.spots_dump (C := C) (A := A) (e := e) .nil 0 0 j hj.plain
  rw [List.append_nil] at h
  rw [h, spots, List.append_nil]

/-- The entries of a stored text. -/
lemma field_at {f : Field} (hf : f ∈ j.fields e 0 0 []) :
    f.At e 0 (e.encode (j.dump 0)) ∧ (f.key, f.value) ∈ j.entries := by
  have h : f.At e 0 (e.encode (j.dump 0) ++ []) := Json.fields_at 0 0 j f hf
  rw [List.append_nil] at h
  exact ⟨h, Json.fields_entries 0 0 [] j ▸ List.mem_map_of_mem hf⟩

/-- A match in the text of a value is one at an entry. -/
lemma exists_field (hj : Apt A j) {x s : List Nat} (ht : e.encode (j.dump 0) = x ++ s) (hs : (readAny C A s).isSome) :
    ∃ f ∈ j.fields e 0 0 [], f.start = x.length ∧ s = f.text e ++ f.after ∧ ∃ p ∈ A, p.Fits f := by
  have hmem := mem_spots hs x 0
  rw [← ht, spots_text C A hj, Nat.zero_add] at hmem
  obtain ⟨f, hf, hspot⟩ := List.mem_filterMap.1 hmem
  obtain ⟨hat, hent⟩ := field_at hf
  rw [spot?_eq hj hent hat.closes] at hspot
  split_ifs at hspot with hfit
  obtain ⟨h₁, h₂⟩ := Prod.mk.inj (Option.some.inj hspot)
  exact ⟨f, hf, h₁, h₂.symm, hfit⟩

/-- A value that a pattern reads has no entries. -/
lemma fields_of_accepts {k : Kind} {v : Json} (h : k.accepts v) (level pos : Nat) (after : List Nat) :
    v.fields e level pos after = [] := by
  cases v with
  | list xs => cases k <;> cases h
  | dict es => cases k <;> cases h
  | _ => rfl

/-- The next match after an entry stands behind it. -/
lemma spots_entry {f : Field} (hfit : p.Fits f) (hc : Closes f.after) (pos : Nat) {x : Nat × List Nat}
    (hx : x ∈ spots C A pos (f.text e ++ f.after)) : x.1 = pos ∨ pos + (f.text e).length ≤ x.1 := by
  have hv : f.value.Plain := by
    obtain ⟨start, level, key, v, after⟩ := f
    cases v with
    | list xs => cases h : p.kind <;> simp [FieldPattern.Fits, h, Kind.accepts] at hfit
    | dict es => cases h : p.kind <;> simp [FieldPattern.Fits, h, Kind.accepts] at hfit
    | _ => trivial
  have htext : f.text e ++ f.after =
      e.encode (Json.quote f.key) ++ 58 :: 32 :: (e.encode (f.value.dump f.level) ++ f.after) := by
    rw [Field.text, List.append_assoc]
    rfl
  have hkey : '"' ∈ f.key → ∃ es, f.value = .dict es := by
    intro h
    rw [hfit.1] at h
    exact absurd (p.word _ h) (by decide)
  rw [htext, spots_key hkey, Json.spots_dump hc f.level _ f.value hv, fields_of_accepts hfit.2, List.filterMap_nil,
    List.nil_append, List.mem_append] at hx
  obtain hx | hx := hx
  · left
    unfold Field.spot? at hx
    split_ifs at hx
    · obtain rfl := List.mem_singleton.1 hx
      rfl
    · cases hx
  · right
    have h := (of_mem_spots hx).1
    rw [Field.text, List.length_append, List.length_cons, List.length_cons]
    omega

/-- The matches of an apt pattern in the stored text of a value are separate. -/
theorem separate (hj : Apt A j) : Separate C A (e.encode (j.dump 0)) where
  unescaped x s ht := by
    rw [← Option.not_isSome_iff_eq_none]
    intro hs
    have ht' : e.encode (j.dump 0) = (x ++ [92]) ++ s := by rw [ht, List.append_assoc]; rfl
    obtain ⟨f, hf, hstart, rfl, -⟩ := exists_field hj ht' hs
    obtain ⟨⟨x', hl, hx', -, hlast⟩, -⟩ := (field_at hf).1
    rw [ht'] at hl
    have hlen : (x ++ [92]).length = x'.length := by omega
    obtain ⟨rfl, -⟩ := List.append_inj hl hlen
    exact hlast List.getLast?_concat
  apart x y s ht hy hs n m hm := by
    have hread : (readAny C A (y ++ s)).isSome := by
      rw [← List.take_append_drop n (y ++ s)]
      exact readAny_append (by rw [hm]; rfl) _
    obtain ⟨f, hf, hstart, hys, p, hp, hfit⟩ := exists_field hj ht hread
    obtain ⟨hat, hent⟩ := field_at hf
    have hmem := mem_spots hs y x.length
    rw [hys] at hmem hm ⊢
    have hnext := spots_entry hfit hat.closes x.length hmem
    have hpos : y.length ≠ 0 := fun h => hy (List.eq_nil_of_length_eq_zero h)
    have hle : (f.text e).length ≤ y.length := by
      obtain h | h := hnext
      · omega
      · exact Nat.le_of_add_le_add_left h
    rw [readAny_take hj hent hp hfit] at hm
    have htext : f.text e ++ f.after = p.quoted ++ 58 :: 32 :: (e.encode (f.value.dump f.level) ++ f.after) := by
      rw [hfit.text, List.append_assoc]
      rfl
    rw [htext] at hm ⊢
    have hv := Kind.value_of_accepts (C := C) (e := e) hfit.2 f.level
    have h := FieldPattern.read_take_length hv hat.closes.no_digit hm
    rw [hfit.text, List.length_append, List.length_cons, List.length_cons] at hle
    omega

/-- What is read in a window, with its position. -/
lemma filterMap_inWindow (hj : Apt A j) (a b : Nat) :
    ((spots C A a ((e.encode (j.dump 0)).drop a)).filterMap (inWindow C A b)).map
        (fun x => (x.1, x.2.field, x.2.group)) =
      ((j.fields e 0 0 []).filter (a ≤ ·.start)).filterMap fun f => (f.found A e b).map (f.start, ·) := by
  have hspots : ∀ fs : List Field, (∀ f ∈ fs, f ∈ j.fields e 0 0 []) →
      (((fs.filterMap (·.spot? C A e)).filter (a ≤ ·.1)).filterMap (inWindow C A b)).map
        (fun x => (x.1, x.2.field, x.2.group)) =
      (fs.filter (a ≤ ·.start)).filterMap fun f => (f.found A e b).map (f.start, ·) := by
    intro fs
    induction fs with
    | nil => exact fun _ => rfl
    | cons f fs ih =>
      intro hfs
      obtain ⟨hat, hent⟩ := field_at (hfs f (.head _))
      have ih' := ih fun g hg => hfs g (.tail _ hg)
      have hw := inWindow_eq (C := C) (e := e) hj hent hat.closes b
      have hstart : ∀ x, f.spot? C A e = some x → x.1 = f.start := fun x hx => by
        unfold Field.spot? at hx
        split_ifs at hx
        exact Option.some.inj hx ▸ rfl
      cases hsp : f.spot? C A e with
      | none =>
        rw [hsp] at hw
        rw [List.filterMap_cons_none hsp, ih', List.filter_cons]
        split_ifs
        · rw [List.filterMap_cons, ← hw]
          rfl
        · rfl
      | some x =>
        rw [hsp, Option.bind_some] at hw
        rw [List.filterMap_cons_some hsp, List.filter_cons, List.filter_cons, hstart x hsp]
        split_ifs
        · rw [List.filterMap_cons, List.filterMap_cons, ← hw]
          cases inWindow C A b x with
          | none => exact ih'
          | some y => exact congrArg (_ :: ·) ih'
        · exact ih'
  have h := spots_drop (C := C) (A := A) a (e.encode (j.dump 0)) 0
  rw [Nat.zero_add, spots_text C A hj] at h
  rw [h]
  exact hspots _ fun f hf => hf

variable (A e j) in
/-- The entries of a value that some alternative reads. -/
def Json.hits : List Field := (j.fields e 0 0 []).filter fun f => A.any fun p => p.Fits f

/-- An entry that some alternative reads. -/
lemma mem_hits {f : Field} : f ∈ j.hits A e ↔ f ∈ j.fields e 0 0 [] ∧ ∃ p ∈ A, p.Fits f := by
  simp only [Json.hits, List.mem_filter, List.any_eq_true, decide_eq_true_eq]

/-- Nothing is found at the other entries. -/
lemma found_of_not_fits {f : Field} (h : ¬ ∃ p ∈ A, p.Fits f) (b : Nat) : f.found A e b = none := by
  have hnone : (A.find? fun p => p.Fits f) = none :=
    List.find?_eq_none.2 fun p hp hfit => h ⟨p, hp, of_decide_eq_true hfit⟩
  rw [Field.found, hnone]
  rfl

/-- What is found at the entries is found at those that some alternative reads. -/
lemma filterMap_hits {α : Type} (q : Field → Bool) (g : Field → Option α)
    (hg : ∀ f, (¬ ∃ p ∈ A, p.Fits f) → g f = none) :
    ((j.hits A e).filter q).filterMap g = ((j.fields e 0 0 []).filter q).filterMap g := by
  rw [Json.hits, List.filter_filter]
  induction j.fields e 0 0 [] with
  | nil => rfl
  | cons f fs ih =>
    rw [List.filter_cons, List.filter_cons]
    by_cases hq : q f
    · by_cases hfit : A.any fun p => p.Fits f
      · rw [if_pos (by rw [hq, hfit]; rfl), if_pos hq, List.filterMap_cons, List.filterMap_cons, ih]
      · have hnone : g f = none := hg f fun ⟨p, hp, h⟩ => hfit (List.any_eq_true.2 ⟨p, hp, decide_eq_true h⟩)
        rw [if_neg (by rw [hq, Bool.eq_false_iff.2 hfit]; decide), if_pos hq, List.filterMap_cons_none hnone, ih]
    · rw [if_neg (by rw [Bool.eq_false_iff.2 hq]; simp), if_neg hq, ih]

/-- The entries that are read stand one behind the other. -/
lemma hits_sorted (hj : Apt A j) : (j.hits A e).Pairwise fun f g => f.start < g.start := by
  have hspots : ∀ (l : List Nat) (pos : Nat), (spots .ascii A pos l).Pairwise fun x y => x.1 < y.1 := by
    intro l
    induction l with
    | nil => exact fun _ => .nil
    | cons u l ih =>
      intro pos
      rw [spots]
      split_ifs
      · exact .cons (fun x hx => (of_mem_spots hx).1) (ih _)
      · exact ih _
  have h := hspots (e.encode (j.dump 0)) 0
  rw [spots_text .ascii A hj] at h
  have hmap : (j.hits A e).map (·.start) = ((j.fields e 0 0 []).filterMap (·.spot? .ascii A e)).map (·.1) := by
    have hall : ∀ fs : List Field, (∀ f ∈ fs, f ∈ j.fields e 0 0 []) →
        (fs.filter fun f => A.any fun p => p.Fits f).map (·.start) = (fs.filterMap (·.spot? .ascii A e)).map (·.1) := by
      intro fs
      induction fs with
      | nil => exact fun _ => rfl
      | cons f fs ih =>
        intro hfs
        obtain ⟨hat, hent⟩ := field_at (hfs f (.head _))
        have hspot := spot?_eq (C := .ascii) (e := e) hj hent hat.closes
        rw [List.filter_cons]
        split_ifs with hfit
        · have hfit' : ∃ p ∈ A, p.Fits f := by simpa only [List.any_eq_true, decide_eq_true_eq] using hfit
          rw [if_pos hfit'] at hspot
          rw [List.filterMap_cons_some hspot, List.map_cons, List.map_cons, ih fun g hg => hfs g (.tail _ hg)]
        · have hfit' : ¬ ∃ p ∈ A, p.Fits f := by simpa only [List.any_eq_true, decide_eq_true_eq] using hfit
          rw [if_neg hfit'] at hspot
          rw [List.filterMap_cons_none hspot, ih fun g hg => hfs g (.tail _ hg)]
    exact hall _ fun f hf => hf
  have h' := List.pairwise_map.2 h
  rw [← hmap] at h'
  exact List.pairwise_map.1 h'

/-- `finditer` in a window finds the entries that start in it. -/
theorem finditer_dump (hj : Apt A j) (a b : Nat) :
    (finditer C A a none 0 (((e.encode (j.dump 0)).take b).drop a)).map (fun x => (x.1, x.2.field, x.2.group)) =
      ((j.hits A e).filter (a ≤ ·.start)).filterMap fun f => (f.found A e b).map (f.start, ·) := by
  rw [finditer_window (separate hj), filterMap_hits]
  · exact filterMap_inWindow hj a b
  · exact fun f hf => by rw [found_of_not_fits hf]; rfl

/-- `search` in a window finds the first entry. -/
theorem search_dump (hj : Apt A j) (b : Nat) :
    (search C A ((e.encode (j.dump 0)).take b)).map (fun m => (m.field, m.group)) =
      ((j.hits A e).filterMap (·.found A e b)).head? := by
  have h := filterMap_inWindow (C := C) (e := e) hj 0 b
  have hall : (j.fields e 0 0 []).filter (fun f => decide (0 ≤ f.start)) = j.fields e 0 0 [] :=
    List.filter_eq_self.2 fun f _ => decide_eq_true (Nat.zero_le _)
  rw [hall, List.drop_zero] at h
  have hs := search_take (C := C) (A := A) b (e.encode (j.dump 0)) 0
  rw [Nat.sub_zero] at hs
  have h' := congrArg (fun l => (List.head? l).map Prod.snd) h
  simp only [List.head?_map, Option.map_map] at h'
  have hhits := filterMap_hits (e := e) (j := j) (fun _ => true) (fun f => f.found A e b) fun f hf =>
    found_of_not_fits hf b
  rw [List.filter_true, List.filter_true] at hhits
  rw [hs, Option.map_map, hhits]
  refine h'.trans ?_
  rw [← List.head?_map, List.map_filterMap]
  refine congrArg List.head? (List.filterMap_congr fun f _ => ?_)
  cases f.found A e b <;> rfl

end Gambit.Lib
