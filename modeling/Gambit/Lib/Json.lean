import Gambit.Lib.Utf8

/-!
# JSON values and their texts

`Json.dump` is the language's `json.dump` with `indent=2` and `ensure_ascii=False`, and `loadsString` its
`json.loads` on the text of one string. A number with a fraction is the text its `repr` gives.
`loadsString_quote` reads a string back.
-/

namespace Gambit.Lib
open Utf8

/-- The `repr` of a `float`. -/
structure FloatText where
  text : List Char
  plain : ∀ c ∈ text, c ∈ "+-.0123456789INaefinty".toList

mutual

/-- A JSON value. -/
inductive Json where
  | null
  | bool (b : Bool)
  | int (n : Int)
  | float (f : FloatText)
  | str (t : List Char)
  | list (xs : Items)
  | dict (es : Entries)

/-- The items of a JSON array. -/
inductive Items where
  | nil
  | cons (j : Json) (rest : Items)

/-- The entries of a JSON object, in their order. -/
inductive Entries where
  | nil
  | cons (key : List Char) (j : Json) (rest : Entries)

end

/-- The array of a list of values. -/
def Items.ofList : List Json → Items
  | [] => .nil
  | j :: rest => .cons j (ofList rest)

/-- The object of a list of pairs. -/
def Entries.ofList : List (List Char × Json) → Entries
  | [] => .nil
  | (k, j) :: rest => .cons k j (ofList rest)

namespace Json

/-- An array. -/
def ofItems (xs : List Json) : Json := .list (.ofList xs)

/-- An object. -/
def ofEntries (es : List (List Char × Json)) : Json := .dict (.ofList es)

/-- A value, or `null`. -/
def ofOption {α : Type} (f : α → Json) : Option α → Json
  | none => .null
  | some a => f a

/-- The text of an `int`. -/
def intText : Int → List Char
  | .ofNat n => Nat.toDigits 10 n
  | .negSucc n => '-' :: Nat.toDigits 10 (n + 1)

/-- A character inside a string literal. Only quotes, backslashes and control characters are escaped. -/
def escapeChar (c : Char) : List Char :=
  if c = '"' then ['\\', '"']
  else if c = '\\' then ['\\', '\\']
  else if c = '\n' then ['\\', 'n']
  else if c = '\r' then ['\\', 'r']
  else if c = '\t' then ['\\', 't']
  else if c = '\x0c' then ['\\', 'f']
  else if c = '\x08' then ['\\', 'b']
  else if c.toNat < 32 then ['\\', 'u', '0', '0', Nat.digitChar (c.toNat / 16), Nat.digitChar (c.toNat % 16)]
  else [c]

/-- The content of a string literal. -/
def escape (t : List Char) : List Char := t.flatMap escapeChar

/-- A string literal. -/
def quote (t : List Char) : List Char := '"' :: (escape t ++ ['"'])

/-- A new line, indented. -/
def newline (level : Nat) : List Char := '\n' :: List.replicate (2 * level) ' '

end Json

/-- The end of an array whose first line has the given level. -/
def Items.close (level : Nat) : Items → List Char
  | .nil => [']']
  | .cons _ _ => Json.newline level ++ [']']

/-- The end of an object whose first line has the given level. -/
def Entries.close (level : Nat) : Entries → List Char
  | .nil => ['}']
  | .cons _ _ _ => Json.newline level ++ ['}']

mutual

/-- The text of a value that starts in a line of the given level. -/
def Json.dump (level : Nat) : Json → List Char
  | .null => "null".toList
  | .bool true => "true".toList
  | .bool false => "false".toList
  | .int n => Json.intText n
  | .float f => f.text
  | .str t => Json.quote t
  | .list xs => '[' :: (xs.dump (level + 1) [] ++ xs.close level)
  | .dict es => '{' :: (es.dump (level + 1) [] ++ es.close level)

/-- The items of an array, the first one after the separator given. -/
def Items.dump (level : Nat) (sep : List Char) : Items → List Char
  | .nil => []
  | .cons j rest => sep ++ (Json.newline level ++ (j.dump level ++ rest.dump level [',']))

/-- The entries of an object, the first one after the separator given. -/
def Entries.dump (level : Nat) (sep : List Char) : Entries → List Char
  | .nil => []
  | .cons key j rest =>
    sep ++ (Json.newline level ++ (Json.quote key ++ ([':', ' '] ++ (j.dump level ++ rest.dump level [',']))))

end

/-- The value of a hexadecimal digit. -/
def hexValue (u : Nat) : Option Nat :=
  if 48 ≤ u ∧ u ≤ 57 then some (u - 48)
  else if 97 ≤ u ∧ u ≤ 102 then some (u - 87)
  else if 65 ≤ u ∧ u ≤ 70 then some (u - 55)
  else none

/-- The value of four hexadecimal digits. -/
def hex4 (a b c d : Nat) : Option Nat := do
  let a ← hexValue a
  let b ← hexValue b
  let c ← hexValue c
  let d ← hexValue d
  return ((a * 16 + b) * 16 + c) * 16 + d

/-- The code point that a backslash and `u` stand for. -/
def simpleEscape (u : Nat) : Option Nat :=
  if u = 34 ∨ u = 92 ∨ u = 47 then some u
  else if u = 98 then some 8
  else if u = 102 then some 12
  else if u = 110 then some 10
  else if u = 114 then some 13
  else if u = 116 then some 9
  else none

/-- The content of a string literal up to its closing quote, and what follows it. -/
def scanString : List Nat → Option (List Nat × List Nat)
  | [] => none
  | 34 :: l => some ([], l)
  | 92 :: 117 :: a :: b :: c :: d :: l => do
    let u ← hex4 a b c d
    let (t, rest) ← scanString l
    return (u :: t, rest)
  | 92 :: e :: l => do
    let u ← simpleEscape e
    let (t, rest) ← scanString l
    return (u :: t, rest)
  | u :: l =>
    -- a lone backslash at the end, or a raw control character, is an error
    if u = 92 ∨ u < 32 then none
    else do
      let (t, rest) ← scanString l
      return (u :: t, rest)

/-- Two escapes that form a surrogate pair are one code point. -/
def joinSurrogates : List Nat → List Nat
  | h :: l :: rest =>
    if (0xD800 ≤ h ∧ h < 0xDC00) ∧ 0xDC00 ≤ l ∧ l < 0xE000 then
      (0x10000 + (h - 0xD800) * 1024 + (l - 0xDC00)) :: joinSurrogates rest
    else h :: joinSurrogates (l :: rest)
  | us => us

/-- `json.loads` on a text that starts with a quote. -/
def loadsString : List Nat → Option (List Nat)
  | 34 :: l =>
    match scanString l with
    | some (t, rest) => if rest.all (· ∈ [9, 10, 13, 32]) then some (joinSurrogates t) else none
    | none => none
  | _ => none

/-- The escape of a character is read as the character. -/
lemma scanString_escapeChar (c : Char) (l : List Nat) :
    scanString (points (Json.escapeChar c) ++ l) = (scanString l).map fun r => (c.toNat :: r.1, r.2) := by
  have hsimple : ∀ e u, simpleEscape e = some u → e ≠ 117 →
      scanString (92 :: e :: l) = (scanString l).map fun r => (u :: r.1, r.2) := by
    intro e u he hne
    rw [scanString]
    · rw [he]
      cases scanString l <;> rfl
    · rintro a b c d l' rfl -
      exact hne rfl
  unfold Json.escapeChar
  split_ifs with h1 h2 h3 h4 h5 h6 h7 h8
  · subst h1
    exact hsimple 34 34 rfl (by decide)
  · subst h2
    exact hsimple 92 92 rfl (by decide)
  · subst h3
    exact hsimple 110 10 rfl (by decide)
  · subst h4
    exact hsimple 114 13 rfl (by decide)
  · subst h5
    exact hsimple 116 9 rfl (by decide)
  · subst h6
    exact hsimple 102 12 rfl (by decide)
  · subst h7
    exact hsimple 98 8 rfl (by decide)
  · have hhex : ∀ n < 32, hex4 48 48 (Nat.digitChar (n / 16)).toNat (Nat.digitChar (n % 16)).toNat = some n := by
      decide
    show scanString (92 :: 117 :: 48 :: 48 :: (Nat.digitChar (c.toNat / 16)).toNat ::
      (Nat.digitChar (c.toNat % 16)).toNat :: l) = _
    rw [scanString, hhex _ h8]
    cases scanString l <;> rfl
  · have hq : c.toNat ≠ 34 := fun h => h1 (Char.toNat_inj.1 h)
    have hb : c.toNat ≠ 92 := fun h => h2 (Char.toNat_inj.1 h)
    show scanString (c.toNat :: l) = _
    rw [scanString]
    · rw [if_neg (by omega)]
      cases scanString l <;> rfl
    · exact hq
    · exact fun _ _ _ _ _ h _ => hb h
    · exact fun _ _ h _ => hb h

/-- The content of a literal is read as its text. -/
lemma scanString_escape (t : List Char) (l : List Nat) :
    scanString (points (Json.escape t) ++ 34 :: l) = some (points t, l) := by
  induction t with
  | nil => simp [Json.escape, points, scanString]
  | cons c t ih =>
    rw [Json.escape, List.flatMap_cons, points, List.map_append, List.append_assoc, ← points,
      scanString_escapeChar, ← points, ← Json.escape, ih]
    rfl

/-- A text has no surrogates to join. -/
lemma joinSurrogates_points (t : List Char) : joinSurrogates (points t) = points t := by
  induction t with
  | nil => rfl
  | cons c t ih =>
    cases t with
    | nil => rfl
    | cons d t =>
      have hv : c.toNat < 0xD800 ∨ 0xDFFF < c.toNat ∧ c.toNat < 0x110000 := c.valid
      have hn : ¬ ((0xD800 ≤ c.toNat ∧ c.toNat < 0xDC00) ∧ 0xDC00 ≤ d.toNat ∧ d.toNat < 0xE000) := by omega
      show joinSurrogates (c.toNat :: d.toNat :: points t) = _
      rw [joinSurrogates, if_neg hn]
      exact congrArg _ ih

/-- A string literal is read back. -/
lemma loadsString_quote (t : List Char) : loadsString (points (Json.quote t)) = some (points t) := by
  have h := scanString_escape t []
  have e : points (Json.quote t) = 34 :: (points (Json.escape t) ++ [34]) := by
    simp only [points, Json.quote, List.map_cons, List.map_append, List.map_nil]
    rfl
  rw [e, loadsString, h]
  exact congrArg some (joinSurrogates_points t)

end Gambit.Lib
