import Gambit.Lib.Scan

/-!
# Searching the text of a JSON value

Escaping keeps the content of a string from looking like a field: where a string holds a quote, its literal
holds an escaped one, so a quoted name inside it is never closed by the quote of the name. `Json.spots_dump`
says that a field pattern matches in the text of a JSON value only at the entries of its objects.
-/

namespace Gambit.Lib
open Utf8

/-- How characters are stored: ASCII characters as themselves, the others as units that are no ASCII characters. -/
structure Encoding where
  units : Char → List Nat
  ascii : ∀ c, c.toNat < 128 → units c = [c.toNat]
  wide : ∀ c, 128 ≤ c.toNat → units c ≠ [] ∧ ∀ u ∈ units c, 128 ≤ u

namespace Encoding

/-- The units of a text. -/
def encode (e : Encoding) (t : List Char) : List Nat := t.flatMap e.units

/-- A text as its code points. -/
def points : Encoding where
  units c := [c.toNat]
  ascii _ _ := rfl
  wide _ h := ⟨List.cons_ne_nil _ _, fun _ hu => List.mem_singleton.1 hu ▸ h⟩

/-- An ASCII character is one byte. -/
lemma encodeChar_ascii {c : Char} (h : c.toNat < 0x80) : encodeChar c = [c.toNat] := if_pos h

/-- The bytes of another character are all outside ASCII. -/
lemma encodeChar_wide {c : Char} (h : 0x80 ≤ c.toNat) : encodeChar c ≠ [] ∧ ∀ u ∈ encodeChar c, 0x80 ≤ u := by
  simp only [encodeChar]
  split_ifs with h1 h2 h3
  · omega
  · refine ⟨List.cons_ne_nil _ _, ?_⟩
    simp only [List.mem_cons, List.not_mem_nil, or_false]
    omega
  · refine ⟨List.cons_ne_nil _ _, ?_⟩
    simp only [List.mem_cons, List.not_mem_nil, or_false]
    omega
  · refine ⟨List.cons_ne_nil _ _, ?_⟩
    simp only [List.mem_cons, List.not_mem_nil, or_false]
    omega

/-- A text as bytes. -/
def utf8 : Encoding where
  units := encodeChar
  ascii := @encodeChar_ascii
  wide := @encodeChar_wide

variable (e : Encoding)

@[simp] lemma encode_nil : e.encode [] = [] := rfl

@[simp] lemma encode_cons (c : Char) (t : List Char) : e.encode (c :: t) = e.units c ++ e.encode t :=
  List.flatMap_cons

@[simp] lemma encode_append (t t' : List Char) : e.encode (t ++ t') = e.encode t ++ e.encode t' :=
  List.flatMap_append

lemma points_encode (t : List Char) : points.encode t = Utf8.points t := by
  induction t with
  | nil => rfl
  | cons c t ih => exact congrArg (c.toNat :: ·) ih

/-- An ASCII text is stored as its code points. -/
lemma encode_ascii {t : List Char} (h : ∀ c ∈ t, c.toNat < 128) : e.encode t = Utf8.points t := by
  induction t with
  | nil => rfl
  | cons c t ih =>
    rw [encode_cons, e.ascii c (h c (.head _)), ih fun d hd => h d (.tail _ hd)]
    rfl

/-- An ASCII unit is a character of the text. -/
lemma mem_encode {t : List Char} {u : Nat} (h : u ∈ e.encode t) (hu : u < 128) : ∃ c ∈ t, c.toNat = u := by
  obtain ⟨c, hc, h⟩ := List.mem_flatMap.1 h
  rcases Nat.lt_or_ge c.toNat 128 with hlt | hge
  · rw [e.ascii c hlt] at h
    exact ⟨c, hc, (List.mem_singleton.1 h).symm⟩
  · have := (e.wide c hge).2 u h
    omega

/-- A text without quotes has no quote among its units. -/
lemma quote_not_mem {t : List Char} (h : '"' ∉ t) : 34 ∉ e.encode t := by
  intro h'
  obtain ⟨c, hc, hu⟩ := e.mem_encode h' (by omega)
  obtain rfl : c = '"' := Char.toNat_inj.1 hu
  exact h hc

end Encoding

namespace Json

/-- The escape of a character: a quote behind a backslash, another escape, or the character. -/
lemma escapeChar_cases (c : Char) :
    (c = '"' ∧ escapeChar c = ['\\', '"']) ∨ (∃ x, escapeChar c = '\\' :: x ∧ '"' ∉ x) ∧ c ≠ '"' ∨
      escapeChar c = [c] ∧ c ≠ '"' ∧ c ≠ '\\' := by
  unfold escapeChar
  split_ifs with h1 h2 h3 h4 h5 h6 h7 h8
  · exact .inl ⟨h1, rfl⟩
  · exact .inr (.inl ⟨⟨_, rfl, by decide⟩, h1⟩)
  · exact .inr (.inl ⟨⟨_, rfl, by decide⟩, h1⟩)
  · exact .inr (.inl ⟨⟨_, rfl, by decide⟩, h1⟩)
  · exact .inr (.inl ⟨⟨_, rfl, by decide⟩, h1⟩)
  · exact .inr (.inl ⟨⟨_, rfl, by decide⟩, h1⟩)
  · exact .inr (.inl ⟨⟨_, rfl, by decide⟩, h1⟩)
  · have hhex : ∀ n < 32, '"' ∉ ['u', '0', '0', Nat.digitChar (n / 16), Nat.digitChar (n % 16)] := by decide
    exact .inr (.inl ⟨⟨_, rfl, hhex _ h8⟩, h1⟩)
  · exact .inr (.inr ⟨rfl, h1, h2⟩)

@[simp] lemma escape_cons (c : Char) (t : List Char) : escape (c :: t) = escapeChar c ++ escape t := List.flatMap_cons

/-- A word is not escaped. -/
lemma escape_word {w : List Char} (h : ∀ c ∈ w, 95 ≤ c.toNat ∧ c.toNat ≤ 122) : escape w = w := by
  induction w with
  | nil => rfl
  | cons c w ih =>
    have hc := h c (.head _)
    rw [escape_cons, ih fun d hd => h d (.tail _ hd)]
    have e : escapeChar c = [c] := by
      have hne : ∀ d : Char, d.toNat < 95 → c ≠ d := by
        rintro d hd rfl
        omega
      unfold escapeChar
      rw [if_neg (hne _ (by decide)), if_neg (hne _ (by decide)), if_neg (hne _ (by decide)), if_neg (hne _ (by decide)),
        if_neg (hne _ (by decide)), if_neg (hne _ (by decide)), if_neg (hne _ (by decide)), if_neg (by omega)]
    rw [e]
    rfl

end Json

variable {C : Charset} {p : FieldPattern} {A : List FieldPattern} {e : Encoding}

/-- The first unit of a literal's content. -/
lemma head_escape (c : Char) (t : List Char) (r : List Nat) :
    ∃ u s, e.encode (Json.escape (c :: t)) ++ r = u :: s ∧ u ≠ 34 ∧
      (95 ≤ u → u < 128 → u = c.toNat ∧ s = e.encode (Json.escape t) ++ r) := by
  rw [Json.escape_cons, Encoding.encode_append]
  obtain ⟨-, h⟩ | ⟨⟨x, h, -⟩, -⟩ | ⟨h, hq, -⟩ := Json.escapeChar_cases c
  · rw [h, Encoding.encode_cons, e.ascii '\\' (by decide)]
    exact ⟨92, _, rfl, by decide, fun hle => absurd hle (by decide)⟩
  · rw [h, Encoding.encode_cons, e.ascii '\\' (by decide)]
    exact ⟨92, _, rfl, by decide, fun hle => absurd hle (by decide)⟩
  · rw [h, Encoding.encode_cons, Encoding.encode_nil, List.append_nil]
    rcases Nat.lt_or_ge c.toNat 128 with hlt | hge
    · rw [e.ascii c hlt]
      exact ⟨c.toNat, _, rfl, fun h34 => hq (Char.toNat_inj.1 h34), fun _ _ => ⟨rfl, rfl⟩⟩
    · obtain ⟨hne, hu⟩ := e.wide c hge
      obtain ⟨u, us, hus⟩ := List.exists_cons_of_ne_nil hne
      have h128 := hu u (hus ▸ .head _)
      rw [hus]
      exact ⟨u, _, rfl, by omega, fun _ hlt => by omega⟩

/-- A literal that starts with a word and a quote is the literal of the word. -/
lemma eq_of_prefix_literal {w t : List Char} {r : List Nat} (hw : ∀ c ∈ w, 95 ≤ c.toNat ∧ c.toNat ≤ 122)
    (h : points w ++ [34] <+: e.encode (Json.escape t) ++ 34 :: r) : t = w := by
  induction w generalizing t with
  | nil =>
    cases t with
    | nil => rfl
    | cons c t =>
      obtain ⟨u, s, hs, hu, -⟩ := head_escape (e := e) c t (34 :: r)
      rw [hs] at h
      exact absurd (List.cons_prefix_cons.1 h).1.symm hu
  | cons a w ih =>
    have ha := hw a (.head _)
    cases t with
    | nil =>
      have h34 : a.toNat = 34 := (List.cons_prefix_cons.1 h).1
      omega
    | cons c t =>
      obtain ⟨u, s, hs, -, hu⟩ := head_escape (e := e) c t (34 :: r)
      rw [hs] at h
      obtain ⟨hau, h⟩ := List.cons_prefix_cons.1 h
      obtain ⟨huc, rfl⟩ := hu (by omega) (by omega)
      rw [ih (fun d hd => hw d (.tail _ hd)) h, Char.toNat_inj.1 (huc.symm.trans hau.symm)]

/-- A match at the quote before the content of a literal. -/
lemma readAny_content {t : List Char} {r : List Nat}
    (h : (readAny C A (34 :: (e.encode (Json.escape t) ++ 34 :: r))).isSome) :
    ∃ p ∈ A, t = p.name ∧ ∃ r', r.dropWhile C.space = 58 :: r' ∧ (p.kind.read C (r'.dropWhile C.space)).isSome := by
  obtain ⟨p, hp, h⟩ := readAny_isSome_iff.1 h
  obtain ⟨l₁, l₂, hl, h₁, h₂⟩ := FieldPattern.read_isSome_iff.1 h
  have hl' : e.encode (Json.escape t) ++ 34 :: r = points p.name ++ [34] ++ l₁ := (List.cons.inj hl).2
  obtain rfl := eq_of_prefix_literal p.word ⟨l₁, hl'.symm⟩
  have hname : e.encode (Json.escape p.name) = points p.name := by
    rw [Json.escape_word p.word, e.encode_ascii fun c hc => (p.word c hc).2.trans_lt (by omega)]
  rw [hname, List.append_assoc] at hl'
  cases List.append_cancel_left hl'
  exact ⟨p, hp, rfl, l₂, h₁, h₂⟩

/-- A match at a quote that is followed by no word. -/
lemma readAny_quote {r : List Nat} (h : ∀ u, r.head? = some u → u < 95) : readAny C A (34 :: r) = none := by
  rw [← Option.not_isSome_iff_eq_none, readAny_isSome_iff]
  rintro ⟨p, -, hs⟩
  obtain ⟨l₁, l₂, hl, -⟩ := FieldPattern.read_isSome_iff.1 hs
  obtain ⟨c, w, hw⟩ := List.exists_cons_of_ne_nil p.nonempty
  have hr : r = points p.name ++ [34] ++ l₁ := (List.cons.inj hl).2
  have hlt := h c.toNat (by rw [hr, hw]; rfl)
  have hge := (p.word c (hw ▸ .head _)).1
  omega

/-- A match starts with a quote. -/
lemma readAny_of_head {u : Nat} {l : List Nat} (h : u ≠ 34) : readAny C A (u :: l) = none := by
  rw [Option.eq_none_iff_forall_ne_some]
  intro m hm
  exact h (Option.some.inj (readAny_eq_some hm).1)

/-- There is no match in a text without quotes. -/
lemma spots_skip {x : List Nat} (hx : 34 ∉ x) (pos : Nat) (l : List Nat) :
    spots C A pos (x ++ l) = spots C A (pos + x.length) l := by
  induction x generalizing pos with
  | nil => rfl
  | cons u x ih =>
    rw [List.mem_cons, not_or] at hx
    rw [List.cons_append, spots, readAny_of_head (fun h => hx.1 h.symm), ih hx.2, List.length_cons]
    exact congrArg (spots C A · l) (by omega)

/-- There is no match in the content of a literal where the quotes in it are followed by no field. -/
lemma spots_content {t : List Char} {r : List Nat} (hr : ∀ u, r.head? = some u → u < 95)
    (h : ∀ x t', t = x ++ '"' :: t' → readAny C A (34 :: (e.encode (Json.escape t') ++ 34 :: r)) = none) (pos : Nat) :
    spots C A pos (e.encode (Json.escape t) ++ 34 :: r) =
      spots C A (pos + (e.encode (Json.escape t)).length + 1) r := by
  induction t generalizing pos with
  | nil =>
    show spots C A pos (34 :: r) = _
    rw [spots, readAny_quote hr]
    rfl
  | cons c t ih =>
    have ih' := ih fun x t' ht => h (c :: x) t' (ht ▸ rfl)
    rw [Json.escape_cons, Encoding.encode_append, List.append_assoc, List.length_append]
    have hskip : '"' ∉ Json.escapeChar c → spots C A pos (e.encode (Json.escapeChar c) ++
        (e.encode (Json.escape t) ++ 34 :: r)) = spots C A (pos + ((e.encode (Json.escapeChar c)).length +
          (e.encode (Json.escape t)).length) + 1) r := by
      intro hq
      rw [spots_skip (e.quote_not_mem hq), ih']
      exact congrArg (spots C A · r) (by omega)
    obtain ⟨rfl, hc⟩ | ⟨⟨x, hc, hx⟩, -⟩ | ⟨hc, hq, -⟩ := Json.escapeChar_cases c
    · -- the escaped quote
      have he : e.encode (Json.escapeChar '"') = [92, 34] := e.encode_ascii (t := ['\\', '"']) (forall_of_all rfl)
      rw [he]
      show spots C A pos (92 :: 34 :: (e.encode (Json.escape t) ++ 34 :: r)) = _
      rw [spots, readAny_of_head (by decide), spots, h [] t rfl]
      show spots C A (pos + 1 + 1) _ = _
      rw [ih']
      exact congrArg (spots C A · r) (by simp only [List.length_cons, List.length_nil]; omega)
    · apply hskip
      rw [hc, List.mem_cons, not_or]
      exact ⟨by decide, hx⟩
    · apply hskip
      rw [hc, List.mem_singleton]
      exact fun h' => hq h'.symm

/-- An entry of an object, with its place in the text and what follows it. -/
structure Field where
  start : Nat
  level : Nat
  key : List Char
  value : Json
  after : List Nat

/-- The stored text of an entry. -/
def Field.text (e : Encoding) (f : Field) : List Nat :=
  e.encode (Json.quote f.key) ++ 58 :: 32 :: e.encode (f.value.dump f.level)

/-- Where the text of an entry ends. -/
def Field.stop (e : Encoding) (f : Field) : Nat := f.start + (f.text e).length

mutual

/-- The entries of all objects in a value, in the order of their texts. The text of the value starts at `pos`,
and `after` follows it. -/
def Json.fields (e : Encoding) (level pos : Nat) (after : List Nat) : Json → List Field
  | .list xs => xs.fields e (level + 1) (pos + 1) [] (e.encode (xs.close level) ++ after)
  | .dict es => es.fields e (level + 1) (pos + 1) [] (e.encode (es.close level) ++ after)
  | _ => []

/-- The entries in the items of an array. -/
def Items.fields (e : Encoding) (level pos : Nat) (sep : List Char) (after : List Nat) : Items → List Field
  | .nil => []
  | .cons j rest =>
    let start := pos + (e.encode (sep ++ Json.newline level)).length
    j.fields e level start (e.encode (rest.dump level [',']) ++ after) ++
      rest.fields e level (start + (e.encode (j.dump level)).length) [','] after

/-- The entries of an object and those in their values. -/
def Entries.fields (e : Encoding) (level pos : Nat) (sep : List Char) (after : List Nat) : Entries → List Field
  | .nil => []
  | .cons key j rest =>
    let start := pos + (e.encode (sep ++ Json.newline level)).length
    let value := start + (e.encode (Json.quote key)).length + 2
    ⟨start, level, key, j, e.encode (rest.dump level [',']) ++ after⟩ ::
      (j.fields e level value (e.encode (rest.dump level [',']) ++ after) ++
        rest.fields e level (value + (e.encode (j.dump level)).length) [','] after)

end

mutual

/-- Are the keys that hold a quote keys of objects? -/
def Json.Plain : Json → Prop
  | .list xs => xs.Plain
  | .dict es => es.Plain
  | _ => True

def Items.Plain : Items → Prop
  | .nil => True
  | .cons j rest => j.Plain ∧ rest.Plain

def Entries.Plain : Entries → Prop
  | .nil => True
  | .cons key j rest => ('"' ∈ key → ∃ es, j = .dict es) ∧ j.Plain ∧ rest.Plain

end

/-- What follows a value: nothing, a comma, or a new line that ends an array or an object. -/
inductive Closes : List Nat → Prop where
  | nil : Closes []
  | comma (r : List Nat) : Closes (44 :: r)
  | bracket {u : Nat} (n : Nat) (r : List Nat) : u = 93 ∨ u = 125 → Closes (10 :: (List.replicate n 32 ++ u :: r))

/-- No colon follows a value. -/
lemma Closes.no_colon {r : List Nat} (h : Closes r) {r' : List Nat} : r.dropWhile C.space ≠ 58 :: r' := by
  cases h with
  | nil => exact List.cons_ne_nil _ _ ∘ Eq.symm
  | comma r =>
    rw [List.dropWhile_cons, C.graphic 44 (by omega) (by omega)]
    exact fun h => absurd (List.cons.inj h).1 (by decide)
  | @bracket u n r hu =>
    have hb : ∀ n : Nat, (List.replicate n 32 ++ u :: r).dropWhile C.space = u :: r := by
      intro n
      induction n with
      | zero =>
        rw [List.replicate_zero, List.nil_append, List.dropWhile_cons, C.graphic u (by omega) (by omega)]
        rfl
      | succ n ih =>
        rw [List.replicate_succ, List.cons_append, List.dropWhile_cons, C.blank]
        exact ih
    rw [List.dropWhile_cons, C.newline, if_pos rfl, hb]
    rintro h
    obtain ⟨rfl, -⟩ := List.cons.inj h
    omega

/-- What follows a value starts with no word and no digit. -/
lemma Closes.head {r : List Nat} (h : Closes r) {u : Nat} (hu : r.head? = some u) : u = 44 ∨ u = 10 := by
  cases h with
  | nil => cases hu
  | comma r => exact .inl (Option.some.inj hu).symm
  | bracket n r h => exact .inr (Option.some.inj hu).symm

/-- The place of an entry where a pattern matches. -/
def Field.spot? (C : Charset) (A : List FieldPattern) (e : Encoding) (f : Field) : Option (Nat × List Nat) :=
  if (readAny C A (f.text e ++ f.after)).isSome then some (f.start, f.text e ++ f.after) else none

/-- There is no value where an object starts. -/
lemma Kind.read_brace (k : Kind) (l : List Nat) : k.read C (123 :: l) = none := by
  cases k with
  | digits =>
    rw [Kind.read, List.takeWhile_cons, C.decimal 123 (by omega)]
    rfl
  | boolean =>
    rw [Kind.read, readWord_of_head (u := 116) rfl (by simp), readWord_of_head (u := 102) rfl (by simp)]
    rfl
  | string => rfl
  | nullOrString =>
    rw [Kind.read, readWord_of_head (u := 110) rfl (by simp), readString_of_head (by simp)]
    rfl

/-- There is no quote in the indentation of a line. -/
lemma quote_not_mem_newline (level : Nat) : '"' ∉ Json.newline level := by
  rw [Json.newline, List.mem_cons, not_or]
  exact ⟨by decide, fun h => absurd (List.eq_of_mem_replicate h) (by decide)⟩

/-- There is no quote between two entries. -/
lemma quote_not_mem_sep {sep : List Char} (hsep : '"' ∉ sep) (level : Nat) :
    34 ∉ e.encode (sep ++ Json.newline level) := by
  apply e.quote_not_mem
  rw [List.mem_append, not_or]
  exact ⟨hsep, quote_not_mem_newline level⟩

/-- There is no quote in the text of a number. -/
lemma quote_not_mem_intText (n : Int) : '"' ∉ Json.intText n := by
  have hd : ∀ m, '"' ∉ Nat.toDigits 10 m := fun m h =>
    absurd (Nat.isDigit_of_mem_toDigits (by omega) (by omega) h) (by decide)
  cases n with
  | ofNat n => exact hd n
  | negSucc n =>
    show '"' ∉ '-' :: Nat.toDigits 10 (n + 1)
    rw [List.mem_cons, not_or]
    exact ⟨by decide, hd _⟩

/-- There is no quote in the text of a `float`. -/
lemma quote_not_mem_float (f : FloatText) : '"' ∉ f.text := fun h => absurd (f.plain _ h) (by decide)

/-- The stored text of a string literal. -/
lemma encode_quote (t : List Char) : e.encode (Json.quote t) = 34 :: (e.encode (Json.escape t) ++ [34]) := by
  rw [Json.quote, Encoding.encode_cons, Encoding.encode_append, e.ascii '"' (by decide)]
  show 34 :: (_ ++ e.encode ['"']) = _
  rw [e.encode_ascii (t := ['"']) (forall_of_all rfl)]
  rfl

/-- There is no match in the text of a string value. -/
lemma spots_quote {t : List Char} {after : List Nat} (hc : Closes after) (pos : Nat) :
    spots C A pos (e.encode (Json.quote t) ++ after) = spots C A (pos + (e.encode (Json.quote t)).length) after := by
  have hnone : ∀ t', readAny C A (34 :: (e.encode (Json.escape t') ++ 34 :: after)) = none := by
    intro t'
    rw [← Option.not_isSome_iff_eq_none]
    intro h
    obtain ⟨-, -, -, r', hr', -⟩ := readAny_content h
    exact hc.no_colon hr'
  have hhead : ∀ u, after.head? = some u → u < 95 := fun u hu => by
    have := hc.head hu
    omega
  rw [encode_quote, List.cons_append, List.append_assoc, List.singleton_append, spots, hnone t]
  show spots C A (pos + 1) _ = _
  rw [spots_content hhead fun _ t' _ => hnone t']
  exact congrArg (spots C A · after) (by simp only [List.length_cons, List.length_append, List.length_nil]; omega)

/-- A key: there is a match at its start if it is a field, and nowhere in it. -/
lemma spots_key {key : List Char} {j : Json} (hk : '"' ∈ key → ∃ es, j = .dict es) (level pos : Nat) (l : List Nat) :
    spots C A pos (e.encode (Json.quote key) ++ 58 :: 32 :: (e.encode (j.dump level) ++ l)) =
      ((Field.mk pos level key j l).spot? C A e).toList ++
        spots C A (pos + (e.encode (Json.quote key)).length + 2) (e.encode (j.dump level) ++ l) := by
  have htext : (Field.mk pos level key j l).text e ++ l =
      e.encode (Json.quote key) ++ 58 :: 32 :: (e.encode (j.dump level) ++ l) := by
    rw [Field.text, List.append_assoc]
    rfl
  have hin : ∀ x t', key = x ++ '"' :: t' → readAny C A
      (34 :: (e.encode (Json.escape t') ++ 34 :: 58 :: 32 :: (e.encode (j.dump level) ++ l))) = none := by
    rintro x t' rfl
    obtain ⟨es, rfl⟩ := hk (by simp)
    rw [← Option.not_isSome_iff_eq_none]
    intro h
    obtain ⟨p, -, -, r', hr', h⟩ := readAny_content h
    have hbrace : e.encode ((Json.dict es).dump level) = 123 :: e.encode (es.dump (level + 1) [] ++ es.close level) := by
      rw [Json.dump, Encoding.encode_cons, e.ascii '{' (by decide)]
      rfl
    rw [List.dropWhile_cons, C.graphic 58 (by omega) (by omega)] at hr'
    obtain rfl := (List.cons.inj hr').2
    rw [List.dropWhile_cons, C.blank, if_pos rfl, hbrace, List.cons_append, List.dropWhile_cons,
      C.graphic 123 (by omega) (by omega)] at h
    rw [if_neg (by decide), Kind.read_brace] at h
    cases h
  have hrest : spots C A (pos + 1) (e.encode (Json.escape key) ++ 34 :: 58 :: 32 :: (e.encode (j.dump level) ++ l)) =
      spots C A (pos + (e.encode (Json.quote key)).length + 2) (e.encode (j.dump level) ++ l) := by
    rw [spots_content (fun u hu => by obtain rfl := Option.some.inj hu; omega) hin]
    rw [show (58 :: 32 :: (e.encode (j.dump level) ++ l)) = [58, 32] ++ (e.encode (j.dump level) ++ l) from rfl,
      spots_skip (by decide), encode_quote]
    exact congrArg (spots C A · _) (by simp only [List.length_cons, List.length_append, List.length_nil]; omega)
  rw [← hrest, Field.spot?, htext, encode_quote, List.cons_append, List.append_assoc, List.singleton_append, spots]
  split_ifs <;> rfl

/-- What follows an entry. -/
lemma closes_entries (rest : Entries) (level : Nat) {after : List Nat} (hc : Closes after) :
    Closes (e.encode (rest.dump level [',']) ++ after) := by
  cases rest with
  | nil => exact hc
  | cons key j rest =>
    rw [Entries.dump, List.cons_append, Encoding.encode_cons, e.ascii ',' (by decide)]
    exact .comma _

/-- What follows an item. -/
lemma closes_items (rest : Items) (level : Nat) {after : List Nat} (hc : Closes after) :
    Closes (e.encode (rest.dump level [',']) ++ after) := by
  cases rest with
  | nil => exact hc
  | cons j rest =>
    rw [Items.dump, List.cons_append, Encoding.encode_cons, e.ascii ',' (by decide)]
    exact .comma _

/-- A closing bracket in a line of its own. -/
lemma closes_bracket {c : Char} (hc : c = ']' ∨ c = '}') (level : Nat) (after : List Nat) :
    Closes (e.encode (Json.newline level ++ [c]) ++ after) := by
  have h : e.encode (Json.newline level ++ [c]) = 10 :: (List.replicate (2 * level) 32 ++ [c.toNat]) := by
    rw [e.encode_ascii]
    · simp only [points, Json.newline, List.cons_append, List.map_cons, List.map_append, List.map_replicate, List.map_nil]
      rfl
    · intro d hd
      simp only [Json.newline, List.cons_append, List.mem_cons, List.mem_append, List.mem_replicate,
        List.not_mem_nil, or_false] at hd
      obtain rfl | ⟨-, rfl⟩ | rfl := hd
      · decide
      · decide
      · obtain rfl | rfl := hc <;> decide
  rw [h, List.cons_append, List.append_assoc]
  apply Closes.bracket
  obtain rfl | rfl := hc
  · exact .inl rfl
  · exact .inr rfl

/-- The end of an array. -/
lemma Items.close_spec (xs : Items) (level : Nat) (after : List Nat) :
    34 ∉ e.encode (xs.close level) ∧ (xs ≠ .nil → Closes (e.encode (xs.close level) ++ after)) := by
  cases xs with
  | nil => exact ⟨e.quote_not_mem (show '"' ∉ [']'] by decide), fun h => absurd rfl h⟩
  | cons j rest =>
    refine ⟨e.quote_not_mem ?_, fun _ => closes_bracket (.inl rfl) level after⟩
    rw [Items.close, List.mem_append, not_or]
    exact ⟨quote_not_mem_newline level, by decide⟩

/-- The end of an object. -/
lemma Entries.close_spec (es : Entries) (level : Nat) (after : List Nat) :
    34 ∉ e.encode (es.close level) ∧ (es ≠ .nil → Closes (e.encode (es.close level) ++ after)) := by
  cases es with
  | nil => exact ⟨e.quote_not_mem (show '"' ∉ ['}'] by decide), fun h => absurd rfl h⟩
  | cons key j rest =>
    refine ⟨e.quote_not_mem ?_, fun _ => closes_bracket (.inr rfl) level after⟩
    rw [Entries.close, List.mem_append, not_or]
    exact ⟨quote_not_mem_newline level, by decide⟩

mutual

/-- A pattern matches in the text of a value only at the entries of its objects. -/
theorem Json.spots_dump {after : List Nat} (hc : Closes after) (level pos : Nat) : ∀ j : Json, j.Plain →
    spots C A pos (e.encode (j.dump level) ++ after) =
      (j.fields e level pos after).filterMap (·.spot? C A e) ++
        spots C A (pos + (e.encode (j.dump level)).length) after
  | .null, _ => spots_skip (e.quote_not_mem (show '"' ∉ "null".toList by decide)) pos after
  | .bool true, _ => spots_skip (e.quote_not_mem (show '"' ∉ "true".toList by decide)) pos after
  | .bool false, _ => spots_skip (e.quote_not_mem (show '"' ∉ "false".toList by decide)) pos after
  | .int n, _ => spots_skip (e.quote_not_mem (quote_not_mem_intText n)) pos after
  | .float f, _ => spots_skip (e.quote_not_mem (quote_not_mem_float f)) pos after
  | .str t, _ => spots_quote hc pos
  | .list xs, h => by
    obtain ⟨hend, hclose⟩ := xs.close_spec (e := e) level after
    have htext : e.encode ((Json.list xs).dump level) =
        [91] ++ (e.encode (xs.dump (level + 1) []) ++ e.encode (xs.close level)) := by
      rw [Json.dump, Encoding.encode_cons, Encoding.encode_append, e.ascii '[' (by decide)]
      rfl
    rw [htext, List.append_assoc, List.append_assoc, spots_skip (by decide),
      Items.spots_dump (by decide) (level + 1) _ xs h hclose, spots_skip hend, Json.fields]
    simp only [List.length_append, List.length_singleton, Nat.add_assoc]
  | .dict es, h => by
    obtain ⟨hend, hclose⟩ := es.close_spec (e := e) level after
    have htext : e.encode ((Json.dict es).dump level) =
        [123] ++ (e.encode (es.dump (level + 1) []) ++ e.encode (es.close level)) := by
      rw [Json.dump, Encoding.encode_cons, Encoding.encode_append, e.ascii '{' (by decide)]
      rfl
    rw [htext, List.append_assoc, List.append_assoc, spots_skip (by decide),
      Entries.spots_dump (by decide) (level + 1) _ es h hclose, spots_skip hend, Json.fields]
    simp only [List.length_append, List.length_singleton, Nat.add_assoc]

theorem Items.spots_dump {after : List Nat} {sep : List Char} (hsep : '"' ∉ sep) (level pos : Nat) : ∀ xs : Items,
    xs.Plain → (xs ≠ .nil → Closes after) →
    spots C A pos (e.encode (xs.dump level sep) ++ after) =
      (xs.fields e level pos sep after).filterMap (·.spot? C A e) ++
        spots C A (pos + (e.encode (xs.dump level sep)).length) after
  | .nil, _, _ => rfl
  | .cons j rest, ⟨hj, hrest⟩, hc => by
    have hc' := hc (fun h => by cases h)
    have hv := closes_items (e := e) rest level hc'
    have htext : e.encode ((Items.cons j rest).dump level sep) =
        e.encode (sep ++ Json.newline level) ++ (e.encode (j.dump level) ++ e.encode (rest.dump level [','])) := by
      simp only [Items.dump, Encoding.encode_append, List.append_assoc]
    rw [htext, List.append_assoc, List.append_assoc, spots_skip (quote_not_mem_sep hsep level),
      Json.spots_dump hv level _ j hj, Items.spots_dump (by decide) level _ rest hrest fun _ => hc', Items.fields,
      List.filterMap_append, List.append_assoc]
    simp only [List.length_append, Nat.add_assoc]

theorem Entries.spots_dump {after : List Nat} {sep : List Char} (hsep : '"' ∉ sep) (level pos : Nat) : ∀ es : Entries,
    es.Plain → (es ≠ .nil → Closes after) →
    spots C A pos (e.encode (es.dump level sep) ++ after) =
      (es.fields e level pos sep after).filterMap (·.spot? C A e) ++
        spots C A (pos + (e.encode (es.dump level sep)).length) after
  | .nil, _, _ => rfl
  | .cons key j rest, ⟨hk, hj, hrest⟩, hc => by
    have hc' := hc (fun h => by cases h)
    have hv := closes_entries (e := e) rest level hc'
    have htext : e.encode ((Entries.cons key j rest).dump level sep) =
        e.encode (sep ++ Json.newline level) ++ (e.encode (Json.quote key) ++ 58 :: 32 ::
          (e.encode (j.dump level) ++ e.encode (rest.dump level [',']))) := by
      have hsp : e.encode [':', ' '] = [58, 32] := e.encode_ascii (forall_of_all rfl)
      rw [Entries.dump, Encoding.encode_append, Encoding.encode_append, Encoding.encode_append, Encoding.encode_append,
        Encoding.encode_append, Encoding.encode_append, hsp, List.append_assoc]
      rfl
    rw [htext, List.append_assoc, List.append_assoc, List.cons_append, List.cons_append, List.append_assoc,
      spots_skip (quote_not_mem_sep hsep level), spots_key hk, Json.spots_dump hv level _ j hj,
      Entries.spots_dump (by decide) level _ rest hrest fun _ => hc', Entries.fields]
    simp only [List.filterMap_cons, List.filterMap_append, List.length_append, List.length_cons]
    have hend : ∀ a b c d : Nat, pos + a + b + 2 + c + d = pos + (a + (b + (c + d + 1 + 1))) := by omega
    rw [hend]
    cases Field.spot? C A e _ with
    | none => simp only [Option.toList_none, List.nil_append, List.append_assoc]
    | some x => simp only [Option.toList_some, List.nil_append, List.cons_append, List.append_assoc]

end

/-- An entry stands in a text, behind a character that is no backslash. -/
structure Field.At (e : Encoding) (pos : Nat) (l : List Nat) (f : Field) : Prop where
  before : ∃ x, l = x ++ (f.text e ++ f.after) ∧ f.start = pos + x.length ∧ x ≠ [] ∧ x.getLast? ≠ some 92
  closes : Closes f.after

/-- An entry of a part of a text. -/
lemma Field.At.append {pos : Nat} {l : List Nat} {f : Field} (y : List Nat) (h : f.At e (pos + y.length) l) :
    f.At e pos (y ++ l) := by
  obtain ⟨⟨x, hl, hs, hne, hx⟩, hc⟩ := h
  refine ⟨⟨y ++ x, by rw [hl, List.append_assoc], by rw [hs, List.length_append, Nat.add_assoc], ?_, ?_⟩, hc⟩
  · exact List.append_ne_nil_of_right_ne_nil y hne
  · rw [List.getLast?_append_of_ne_nil _ hne]
    exact hx

/-- There is no backslash between two entries. -/
lemma backslash_not_mem_sep {sep : List Char} (hsep : sep = [] ∨ sep = [',']) (level : Nat) :
    92 ∉ e.encode (sep ++ Json.newline level) := by
  intro h
  obtain ⟨c, hc, hu⟩ := e.mem_encode h (by omega)
  obtain rfl : c = '\\' := Char.toNat_inj.1 hu
  rw [List.mem_append, Json.newline, List.mem_cons] at hc
  obtain hc | hc | hc := hc
  · obtain rfl | rfl := hsep
    · cases hc
    · exact absurd hc (by decide)
  · exact absurd hc (by decide)
  · exact absurd (List.eq_of_mem_replicate hc) (by decide)

mutual

/-- The entries of a value stand in its text. -/
theorem Json.fields_at {after : List Nat} (level pos : Nat) : ∀ j : Json,
    ∀ f ∈ j.fields e level pos after, f.At e pos (e.encode (j.dump level) ++ after)
  | .null, _, hf => nomatch hf
  | .bool _, _, hf => nomatch hf
  | .int _, _, hf => nomatch hf
  | .float _, _, hf => nomatch hf
  | .str _, _, hf => nomatch hf
  | .list xs, f, hf => by
    have h := Items.fields_at (level + 1) (pos + 1) xs f hf
    rw [Json.dump, Encoding.encode_cons, Encoding.encode_append, e.ascii '[' (by decide), List.append_assoc,
      List.append_assoc]
    exact Field.At.append [91] h
  | .dict es, f, hf => by
    have h := Entries.fields_at (.inl rfl) (level + 1) (pos + 1) es ((es.close_spec (e := e) level after).2) f hf
    rw [Json.dump, Encoding.encode_cons, Encoding.encode_append, e.ascii '{' (by decide), List.append_assoc,
      List.append_assoc]
    exact Field.At.append [123] h

theorem Items.fields_at {after : List Nat} {sep : List Char} (level pos : Nat) : ∀ xs : Items,
    ∀ f ∈ xs.fields e level pos sep after, f.At e pos (e.encode (xs.dump level sep) ++ after)
  | .nil, _, hf => nomatch hf
  | .cons j rest, f, hf => by
    have htext : e.encode ((Items.cons j rest).dump level sep) ++ after = e.encode (sep ++ Json.newline level) ++
        (e.encode (j.dump level) ++ (e.encode (rest.dump level [',']) ++ after)) := by
      simp only [Items.dump, Encoding.encode_append, List.append_assoc]
    rw [htext]
    apply Field.At.append
    rw [Items.fields, List.mem_append] at hf
    obtain hf | hf := hf
    · exact Json.fields_at level _ j f hf
    · apply Field.At.append
      exact Items.fields_at level _ rest f hf

theorem Entries.fields_at {after : List Nat} {sep : List Char} (hsep : sep = [] ∨ sep = [',']) (level pos : Nat) :
    ∀ es : Entries, (es ≠ .nil → Closes after) →
    ∀ f ∈ es.fields e level pos sep after, f.At e pos (e.encode (es.dump level sep) ++ after)
  | .nil, _, _, hf => nomatch hf
  | .cons key j rest, hc, f, hf => by
    have hc' := hc (fun h => by cases h)
    have htext : e.encode ((Entries.cons key j rest).dump level sep) ++ after =
        e.encode (sep ++ Json.newline level) ++ ((e.encode (Json.quote key) ++ [58, 32]) ++
          (e.encode (j.dump level) ++ (e.encode (rest.dump level [',']) ++ after))) := by
      have hsp : e.encode [':', ' '] = [58, 32] := e.encode_ascii (forall_of_all rfl)
      rw [Entries.dump, Encoding.encode_append, Encoding.encode_append, Encoding.encode_append, Encoding.encode_append,
        Encoding.encode_append, Encoding.encode_append, hsp]
      simp only [List.append_assoc]
    rw [htext]
    rw [Entries.fields, List.mem_cons, List.mem_append] at hf
    obtain rfl | hf | hf := hf
    · -- the entry itself
      refine ⟨⟨_, ?_, rfl, ?_, ?_⟩, closes_entries rest level hc'⟩
      · simp only [Field.text, List.append_assoc, List.cons_append, List.nil_append]
      · rw [Json.newline, Encoding.encode_append, Encoding.encode_cons, e.ascii '\n' (by decide)]
        exact List.append_ne_nil_of_right_ne_nil _ (List.cons_ne_nil _ _)
      · exact fun h => backslash_not_mem_sep hsep level (List.mem_of_getLast? h)
    · apply Field.At.append
      apply Field.At.append
      rw [List.length_append]
      exact Json.fields_at level _ j f hf
    · apply Field.At.append
      apply Field.At.append
      apply Field.At.append
      rw [List.length_append]
      exact Entries.fields_at (.inr rfl) level _ rest (fun _ => hc') f hf

end

end Gambit.Lib
