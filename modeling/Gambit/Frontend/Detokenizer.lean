import Gambit.Lib.Occurs
import Gambit.Frontend.OutputProcessor

/-!
# The incremental detokenizer

Model of `BaseIncrementalDetokenizer` and `check_stop_strings` in `vllm/v1/engine/detokenizer.py`: tokens become text,
which is searched for stop strings and read piece by piece, some of it held back while a stop string may still
reach into it.

Text is a list of characters of any type. The tokenizer is a parameter: `decodeNext` gives the text of the next token
from a state of its own and the token ids so far, of which the new one is the last.
-/

namespace Gambit.Frontend
open Gambit.Lib

variable {χ σ : Type}

/-- Python `decode_next`: the text of a token, and the state of the tokenizer after it. -/
abbrev DecodeNext (χ σ : Type) := σ → List Token → Token → List χ × σ

/-- Python `BaseIncrementalDetokenizer`. -/
structure BaseIncrementalDetokenizer (χ σ : Type) where
  promptLen : Nat
  tokenIds : List Token
  stop : List (List χ)
  minTokens : Nat
  includeStopStrInOutput : Bool
  stopBufferLength : Int
  lastOutputTextOffset : Int
  outputText : List χ
  stream : σ

namespace BaseIncrementalDetokenizer

/-- Python `BaseIncrementalDetokenizer.__init__`, for a tokenizer that keeps the prompt in `token_ids` or not. -/
def init (promptIds : List Token) (stop : List (List χ)) (minTokens : Nat) (includeStopStrInOutput : Bool)
    (stream : σ) : BaseIncrementalDetokenizer χ σ where
  promptLen := promptIds.length
  tokenIds := promptIds
  stop := stop
  minTokens := minTokens
  includeStopStrInOutput := includeStopStrInOutput
  stopBufferLength :=
    if stop ≠ [] ∧ includeStopStrInOutput = false then ((stop.map List.length).foldr max 0 : Nat) - 1 else 0
  lastOutputTextOffset := 0
  outputText := []
  stream := stream

/-- Python `output_token_ids`. -/
def outputTokenIds (d : BaseIncrementalDetokenizer χ σ) : List Token := d.tokenIds.drop d.promptLen

/-- One iteration of the loop over the new tokens; with it goes `stop_check_offset`. -/
def decodeToken (decodeNext : DecodeNext χ σ) (x : BaseIncrementalDetokenizer χ σ × Nat) (newTokenId : Token) :
    BaseIncrementalDetokenizer χ σ × Nat :=
  let (d, stopCheckOffset) := x
  let tokenIds := d.tokenIds ++ [newTokenId]
  let (text, stream) := decodeNext d.stream tokenIds newTokenId
  let d := { d with tokenIds := tokenIds, outputText := d.outputText ++ text, stream := stream }
  (d, if d.minTokens ≠ 0 ∧ d.outputTokenIds.length ≤ d.minTokens then d.outputText.length else stopCheckOffset)

/-- Python `check_stop_strings`. -/
def checkStopStrings [DecidableEq χ] (outputText : List χ) (newCharCount : Int) (stop : List (List χ))
    (includeInOutput : Bool) : Option (List χ × Int) :=
  if newCharCount = 0 ∨ stop = [] then none
  else
    stop.findSome? fun stopStr =>
      -- avoid searching already-searched text
      (find outputText stopStr (1 - newCharCount - stopStr.length)).map fun stopIndex =>
        if includeInOutput then
          if stopIndex + stopStr.length ≥ outputText.length then (stopStr, -1)
          else (stopStr, (stopIndex + stopStr.length : Nat))
        else (stopStr, stopIndex)

/-- The second half of Python `update`: evaluate the stop strings. -/
def evaluateStopStrings [DecidableEq χ] (d : BaseIncrementalDetokenizer χ σ) (stopCheckOffset : Nat) :
    Option (List χ) × BaseIncrementalDetokenizer χ σ :=
  if d.stop ≠ [] ∧ d.outputTokenIds.length > d.minTokens then
    match checkStopStrings d.outputText (d.outputText.length - stopCheckOffset) d.stop d.includeStopStrInOutput with
    | none => (none, d)
    | some (stopString, truncateTo) =>
      (some stopString, if truncateTo ≠ -1 then { d with outputText := sliceTo d.outputText truncateTo } else d)
  else (none, d)

/-- Python `BaseIncrementalDetokenizer.update`. -/
def update [DecidableEq χ] (decodeNext : DecodeNext χ σ) (d : BaseIncrementalDetokenizer χ σ)
    (newTokenIds : List Token) (stopTerminated : Bool) : Option (List χ) × BaseIncrementalDetokenizer χ σ :=
  if newTokenIds = [] then (none, d)
  else
    -- a stop token is not decoded unless the stop is to be part of the output
    let skip := stopTerminated && !d.includeStopStrInOutput
    let decoded := if skip then newTokenIds.dropLast else newTokenIds
    let (d, stopCheckOffset) := decoded.foldl (decodeToken decodeNext) (d, d.outputText.length)
    let d := if skip then { d with tokenIds := d.tokenIds ++ newTokenIds.getLast?.toList } else d
    d.evaluateStopStrings stopCheckOffset

/-- Python `get_next_output_text`. -/
def getNextOutputText (d : BaseIncrementalDetokenizer χ σ) (finished delta : Bool) :
    List χ × BaseIncrementalDetokenizer χ σ :=
  let bufferLength := if finished then 0 else d.stopBufferLength
  if !delta then (if bufferLength ≠ 0 then sliceTo d.outputText (-bufferLength) else d.outputText, d)
  else
    let length := d.outputText.length - bufferLength
    if d.lastOutputTextOffset < length then
      (slice d.outputText d.lastOutputTextOffset length, { d with lastOutputTextOffset := length })
    else ([], d)

end BaseIncrementalDetokenizer

/-- One call of `update`: the new token ids, and whether a stop token ended them. -/
abbrev UpdateCall := List Token × Bool

/-- The text of a request, a piece for every output token, without regard to stop strings. -/
structure Tape (χ σ : Type) where
  stream : σ
  tokenIds : List Token
  pieces : List (List χ)

namespace Tape

def text (t : Tape χ σ) : List χ := t.pieces.flatten

/-- The length of the text that the first `minTokens` output tokens decode to. -/
def minTokensPart (t : Tape χ σ) (minTokens : Nat) : Nat := (t.pieces.take minTokens).flatten.length

/-- The next token is decoded. -/
def decode (decodeNext : DecodeNext χ σ) (t : Tape χ σ) (tokenId : Token) : Tape χ σ where
  stream := (decodeNext t.stream (t.tokenIds ++ [tokenId]) tokenId).2
  tokenIds := t.tokenIds ++ [tokenId]
  pieces := t.pieces ++ [(decodeNext t.stream (t.tokenIds ++ [tokenId]) tokenId).1]

/-- Tokens that bring no text. -/
def skip (t : Tape χ σ) (tokenIds : List Token) : Tape χ σ :=
  { t with tokenIds := t.tokenIds ++ tokenIds, pieces := t.pieces ++ tokenIds.map fun _ => [] }

/-- The tokens of one call of `update`, the last of which is skipped if it is a stop token to be excluded. -/
def call (decodeNext : DecodeNext χ σ) (includeStopStrInOutput : Bool) (t : Tape χ σ) (c : UpdateCall) : Tape χ σ :=
  if c.2 && !includeStopStrInOutput then (c.1.dropLast.foldl (decode decodeNext) t).skip c.1.getLast?.toList
  else c.1.foldl (decode decodeNext) t

section Parts
variable (decodeNext : DecodeNext χ σ) {t : Tape χ σ} {m : Nat}

lemma minTokensPart_le (t : Tape χ σ) (m : Nat) : t.minTokensPart m ≤ t.text.length :=
  ((List.take_sublist m t.pieces).flatten).length_le

/-- While no more than `m` tokens have come, all the text is theirs. -/
lemma minTokensPart_eq (h : t.pieces.length ≤ m) : t.minTokensPart m = t.text.length := by
  unfold minTokensPart
  rw [List.take_of_length_le h]
  rfl

/-- After `m` tokens their part stays as it is. -/
lemma minTokensPart_decode (h : m ≤ t.pieces.length) (tok : Token) :
    (t.decode decodeNext tok).minTokensPart m = t.minTokensPart m := by
  unfold minTokensPart decode
  rw [List.take_append_of_le_length h]

lemma text_decode (t : Tape χ σ) (tok : Token) : ∃ x, (t.decode decodeNext tok).text = t.text ++ x := by
  refine ⟨(decodeNext t.stream (t.tokenIds ++ [tok]) tok).1, ?_⟩
  unfold text decode
  rw [List.flatten_append, List.flatten_singleton]

lemma minTokensPart_decode_le (t : Tape χ σ) (tok : Token) :
    t.minTokensPart m ≤ (t.decode decodeNext tok).minTokensPart m := by
  rcases Nat.le_total m t.pieces.length with h | h
  · exact (minTokensPart_decode decodeNext h tok).ge
  · unfold minTokensPart decode
    apply List.Sublist.length_le
    exact ((List.prefix_append t.pieces _).take m).sublist.flatten

lemma minTokensPart_decodes_le (t : Tape χ σ) (toks : List Token) :
    t.minTokensPart m ≤ (toks.foldl (decode decodeNext) t).minTokensPart m := by
  induction toks generalizing t with
  | nil => exact le_rfl
  | cons tok toks ih => exact (t.minTokensPart_decode_le decodeNext tok).trans (ih _)

lemma text_decodes (t : Tape χ σ) (toks : List Token) :
    ∃ x, (toks.foldl (decode decodeNext) t).text = t.text ++ x := by
  induction toks generalizing t with
  | nil => exact ⟨[], (List.append_nil _).symm⟩
  | cons tok toks ih =>
    obtain ⟨x, hx⟩ := t.text_decode decodeNext tok
    obtain ⟨y, hy⟩ := ih (t.decode decodeNext tok)
    refine ⟨x ++ y, ?_⟩
    rw [List.foldl_cons, hy, hx, List.append_assoc]

@[simp] lemma text_skip (t : Tape χ σ) (toks : List Token) : (t.skip toks).text = t.text := by
  unfold text skip
  simp

@[simp] lemma minTokensPart_skip (t : Tape χ σ) (toks : List Token) :
    (t.skip toks).minTokensPart m = t.minTokensPart m := by
  unfold minTokensPart skip
  simp [List.take_append]

lemma text_call (t : Tape χ σ) (incl : Bool) (c : UpdateCall) : ∃ x, (t.call decodeNext incl c).text = t.text ++ x := by
  unfold call
  split
  · rw [text_skip]
    exact t.text_decodes decodeNext _
  · exact t.text_decodes decodeNext _

end Parts

end Tape

section Update
variable {stop : List (List χ)} {text s : List χ} {off i m : Nat}

/-- An occurrence of a stop string ends after the first `off` characters. -/
def Stops (stop : List (List χ)) (text : List χ) (off : Nat) : Prop :=
  ∃ s ∈ stop, ∃ i, OccursAt s text i ∧ off < i + s.length

/-- The stop string that is listed first of those with an occurrence that ends after the first `off` characters,
and the first such occurrence of it. -/
structure FirstListed (stop : List (List χ)) (text : List χ) (off : Nat) (s : List χ) (i : Nat) : Prop where
  listed : ∃ pre post, stop = pre ++ s :: post ∧ ¬ Stops pre text off
  occurs : OccursAt s text i
  after : off < i + s.length
  first : ∀ j, j < i → OccursAt s text j → j + s.length ≤ off

lemma FirstListed.stops (h : FirstListed stop text off s i) : Stops stop text off := by
  obtain ⟨pre, post, rfl, -⟩ := h.listed
  exact ⟨s, List.mem_append_right _ (List.mem_cons_self ..), i, h.occurs, h.after⟩

/-- Without new text there is nothing to be found. -/
lemma not_stops (h : text.length ≤ off) : ¬ Stops stop text off := by
  rintro ⟨s, -, i, ho, hlt⟩
  have hend := ho.end_le
  omega

/-- Where the search for a stop string starts: the occurrences from there on are those that end in the new text. -/
lemma sliceIndex_search (hoff : off < text.length) (hs : s ≠ []) :
    sliceIndex text.length (1 - ((text.length : Int) - off) - s.length) ≤ i ↔ off < i + s.length := by
  have hpos : 0 < s.length := List.length_pos_iff.2 hs
  unfold sliceIndex
  rw [if_pos (by omega)]
  omega

/-- What `check_stop_strings` finds. -/
lemma checkStopStrings_spec [DecidableEq χ] (includeInOutput : Bool) (hstop : ∀ s ∈ stop, s ≠ []) (hoff : off ≤ text.length) :
    (¬ Stops stop text off ∧
      BaseIncrementalDetokenizer.checkStopStrings text (text.length - off) stop includeInOutput = none) ∨
    ∃ s i, FirstListed stop text off s i ∧
      BaseIncrementalDetokenizer.checkStopStrings text (text.length - off) stop includeInOutput =
        some (s, if includeInOutput then
          if i + s.length ≥ text.length then (-1 : Int) else ((i + s.length : Nat) : Int) else (i : Int)) := by
  unfold BaseIncrementalDetokenizer.checkStopStrings
  by_cases hnew : ((text.length : Int) - off = 0 ∨ stop = [])
  · left
    rw [if_pos hnew]
    rcases hnew with hnew | rfl
    · exact ⟨not_stops (by omega), rfl⟩
    · exact ⟨fun ⟨_, hmem, _⟩ => absurd hmem List.not_mem_nil, rfl⟩
  · rw [if_neg hnew]
    have hlt : off < text.length := by omega
    clear hnew
    induction stop with
    | nil => exact .inl ⟨fun ⟨_, hmem, _⟩ => absurd hmem List.not_mem_nil, rfl⟩
    | cons s stop ih =>
      have hs : s ≠ [] := hstop s (List.mem_cons_self ..)
      rw [List.findSome?_cons]
      cases hf : find text s (1 - ((text.length : Int) - off) - s.length) with
      | some i =>
        -- the first string of the list occurs
        obtain ⟨hi, ho, hfirst⟩ := find_eq_some.1 hf
        refine .inr ⟨s, i, ⟨⟨[], stop, rfl, fun ⟨_, hmem, _⟩ => absurd hmem List.not_mem_nil⟩, ho,
          (sliceIndex_search hlt hs).1 hi, fun j hj hoj => ?_⟩, ?_⟩
        · by_contra hlate
          exact hfirst j ((sliceIndex_search hlt hs).2 (Nat.lt_of_not_le hlate)) hj hoj
        · cases includeInOutput
          · rfl
          · simp only [Option.map_some, if_true]
            split <;> rfl
      | none =>
        have hno : ∀ i, OccursAt s text i → i + s.length ≤ off := by
          intro i ho
          by_contra hlate
          exact find_eq_none.1 hf i ((sliceIndex_search hlt hs).2 (Nat.lt_of_not_le hlate)) ho
        rcases ih (fun s hs => hstop s (List.mem_cons_of_mem _ hs)) with ⟨hnone, he⟩ | ⟨s', i, hfirst, he⟩
        · refine .inl ⟨?_, he⟩
          rintro ⟨s', hmem, i, ho, hlate⟩
          rcases List.mem_cons.1 hmem with rfl | hmem
          · exact absurd (hno i ho) (Nat.not_le.2 hlate)
          · exact hnone ⟨s', hmem, i, ho, hlate⟩
        · refine .inr ⟨s', i, ⟨?_, hfirst.occurs, hfirst.after, hfirst.first⟩, he⟩
          obtain ⟨pre, post, rfl, hpre⟩ := hfirst.listed
          refine ⟨s :: pre, post, rfl, ?_⟩
          rintro ⟨s', hmem, i, ho, hlate⟩
          rcases List.mem_cons.1 hmem with rfl | hmem
          · exact absurd (hno i ho) (Nat.not_le.2 hlate)
          · exact hpre ⟨s', hmem, i, ho, hlate⟩

end Update

namespace BaseIncrementalDetokenizer

section Spec
variable {decodeNext : DecodeNext χ σ} {d : BaseIncrementalDetokenizer χ σ} {t : Tape χ σ} {off : Nat}

/-- The detokenizer after the tokens of `t`. -/
def withTape (d : BaseIncrementalDetokenizer χ σ) (t : Tape χ σ) : BaseIncrementalDetokenizer χ σ :=
  { d with tokenIds := t.tokenIds, outputText := t.text, stream := t.stream }

/-- The tape has a piece for every token after the prompt. -/
def Fits (d : BaseIncrementalDetokenizer χ σ) (t : Tape χ σ) : Prop :=
  t.tokenIds.length = d.promptLen + t.pieces.length

lemma Fits.decode (decodeNext : DecodeNext χ σ) (h : d.Fits t) (tok : Token) : d.Fits (t.decode decodeNext tok) := by
  unfold Fits Tape.decode at *
  rw [List.length_append, List.length_append, h]
  rfl

lemma Fits.skip (h : d.Fits t) (toks : List Token) : d.Fits (t.skip toks) := by
  unfold Fits Tape.skip at *
  rw [List.length_append, List.length_append, List.length_map, h, Nat.add_assoc]

lemma Fits.decodes (h : d.Fits t) (toks : List Token) : d.Fits (toks.foldl (Tape.decode decodeNext) t) := by
  induction toks generalizing t with
  | nil => exact h
  | cons tok toks ih => exact ih (h.decode decodeNext tok)

lemma Fits.call (h : d.Fits t) (incl : Bool) (c : UpdateCall) : d.Fits (t.call decodeNext incl c) := by
  unfold Tape.call
  split
  · exact (h.decodes _).skip _
  · exact h.decodes _

/-- The number of output tokens. -/
lemma Fits.outputTokenIds (h : d.Fits t) : (d.withTape t).outputTokenIds.length = t.pieces.length := by
  unfold BaseIncrementalDetokenizer.outputTokenIds withTape
  rw [List.length_drop, h, Nat.add_sub_cancel_left]

lemma withTape_skip (d : BaseIncrementalDetokenizer χ σ) (t : Tape χ σ) (toks : List Token) :
    d.withTape (t.skip toks) = { d.withTape t with tokenIds := t.tokenIds ++ toks } := by
  unfold withTape
  rw [Tape.text_skip]
  rfl

/-- One new token. -/
lemma decodeToken_withTape (h : d.Fits t) (tok : Token) (off : Nat) :
    decodeToken decodeNext (d.withTape t, off) tok =
      (d.withTape (t.decode decodeNext tok),
        if d.minTokens ≠ 0 ∧ (t.decode decodeNext tok).pieces.length ≤ d.minTokens then
          (t.decode decodeNext tok).text.length
        else off) := by
  have hn := (h.decode decodeNext tok).outputTokenIds
  have htext : (t.decode decodeNext tok).text =
      t.text ++ (decodeNext t.stream (t.tokenIds ++ [tok]) tok).1 := by
    unfold Tape.text Tape.decode
    rw [List.flatten_append, List.flatten_singleton]
  unfold withTape at hn ⊢
  unfold decodeToken
  rw [← hn, htext]
  rfl

/-- The new tokens: what is searched comes after the old text and after the part of the first tokens. -/
lemma decodeTokens_withTape (h : d.Fits t) (toks : List Token) (hoff : t.minTokensPart d.minTokens ≤ off)
    (hle : off ≤ t.text.length) :
    toks.foldl (decodeToken decodeNext) (d.withTape t, off) =
      (d.withTape (toks.foldl (Tape.decode decodeNext) t),
        max off ((toks.foldl (Tape.decode decodeNext) t).minTokensPart d.minTokens)) := by
  induction toks generalizing t off with
  | nil =>
    rw [List.foldl_nil, List.foldl_nil, Nat.max_eq_left hoff]
  | cons tok toks ih =>
    rw [List.foldl_cons, List.foldl_cons, decodeToken_withTape h]
    obtain ⟨x, hx⟩ := t.text_decode decodeNext tok
    have hgrow : t.text.length ≤ (t.decode decodeNext tok).text.length := by
      rw [hx, List.length_append]
      exact Nat.le_add_right _ _
    have hlen : (t.decode decodeNext tok).pieces.length = t.pieces.length + 1 := by
      unfold Tape.decode
      rw [List.length_append, List.length_singleton]
    by_cases hm : d.minTokens ≠ 0 ∧ (t.decode decodeNext tok).pieces.length ≤ d.minTokens
    · -- the token belongs to the first ones
      rw [if_pos hm, ih (h.decode decodeNext tok) (Tape.minTokensPart_le _ _) le_rfl]
      have h1 := (t.decode decodeNext tok).minTokensPart_decodes_le decodeNext (m := d.minTokens) toks
      rw [Tape.minTokensPart_eq hm.2] at h1
      rw [Nat.max_eq_right h1, Nat.max_eq_right ((hle.trans hgrow).trans h1)]
    · have hm' : d.minTokens ≤ t.pieces.length := by omega
      rw [if_neg hm, ih (h.decode decodeNext tok) ((Tape.minTokensPart_decode decodeNext hm' tok).le.trans hoff) (hle.trans hgrow)]

/-- What evaluating the stop strings does: the stop string that is found is the first in the list, and the text ends
before it or, if it is to be included, after it. -/
lemma evaluateStopStrings_spec [DecidableEq χ] (h : d.Fits t) (hstop : ∀ s ∈ d.stop, s ≠ [])
    (hpart : t.minTokensPart d.minTokens ≤ off) (hle : off ≤ t.text.length) :
    (¬ Stops d.stop t.text off ∧ evaluateStopStrings (d.withTape t) off = (none, d.withTape t)) ∨
    ∃ s i, FirstListed d.stop t.text off s i ∧
      evaluateStopStrings (d.withTape t) off = (some s,
        { d.withTape t with
          outputText := t.text.take (if d.includeStopStrInOutput then i + s.length else i) }) := by
  have heval : evaluateStopStrings (d.withTape t) off =
      if d.stop ≠ [] ∧ t.pieces.length > d.minTokens then
        match checkStopStrings t.text (t.text.length - off) d.stop d.includeStopStrInOutput with
        | none => (none, d.withTape t)
        | some (stopString, truncateTo) => (some stopString,
            if truncateTo ≠ -1 then { d.withTape t with outputText := sliceTo t.text truncateTo } else d.withTape t)
      else (none, d.withTape t) := by
    rw [← h.outputTokenIds]
    rfl
  rw [heval]
  by_cases hc : d.stop ≠ [] ∧ t.pieces.length > d.minTokens
  · rw [if_pos hc]
    rcases checkStopStrings_spec d.includeStopStrInOutput hstop hle with
      ⟨hnone, he⟩ | ⟨s, i, hfirst, he⟩
    · rw [he]
      exact .inl ⟨hnone, rfl⟩
    · rw [he]
      refine .inr ⟨s, i, hfirst, ?_⟩
      have hend := hfirst.occurs.end_le
      cases d.includeStopStrInOutput with
      | false =>
        simp only [Bool.false_eq_true, if_false]
        rw [if_pos (by omega), sliceTo_natCast]
      | true =>
        simp only [if_true]
        by_cases hfull : i + s.length ≥ t.text.length
        · rw [if_pos hfull, if_neg (by omega), List.take_of_length_le hfull]
          rfl
        · rw [if_neg hfull, if_pos (by omega), sliceTo_natCast]
  · rw [if_neg hc]
    refine .inl ⟨?_, rfl⟩
    by_cases hs : d.stop = []
    · rw [hs]
      exact fun ⟨_, hmem, _⟩ => absurd hmem List.not_mem_nil
    · have hfew : t.pieces.length ≤ d.minTokens := by
        by_contra hmany
        exact hc ⟨hs, Nat.lt_of_not_le hmany⟩
      rw [Tape.minTokensPart_eq hfew] at hpart
      exact not_stops hpart

/-- The characters in front of those that `update` searches. -/
def searched (d : BaseIncrementalDetokenizer χ σ) (t t' : Tape χ σ) : Nat :=
  max t.text.length (t'.minTokensPart d.minTokens)

/-- What `update` does: without a stop string the text grows by that of the new tokens. -/
lemma update_spec [DecidableEq χ] (h : d.Fits t) (hstop : ∀ s ∈ d.stop, s ≠ []) (c : UpdateCall) {t' : Tape χ σ}
    (ht' : t.call decodeNext d.includeStopStrInOutput c = t') :
    (¬ Stops d.stop t'.text (d.searched t t') ∧
      update decodeNext (d.withTape t) c.1 c.2 = (none, d.withTape t')) ∨
    ∃ s i, FirstListed d.stop t'.text (d.searched t t') s i ∧
      update decodeNext (d.withTape t) c.1 c.2 = (some s,
        { d.withTape t' with
          outputText := t'.text.take (if d.includeStopStrInOutput then i + s.length else i) }) := by
  have hoff : d.searched t t' ≤ t'.text.length := by
    obtain ⟨x, hx⟩ := t.text_call decodeNext d.includeStopStrInOutput c
    rw [ht'] at hx
    refine max_le ?_ (t'.minTokensPart_le _)
    rw [hx, List.length_append]
    exact Nat.le_add_right _ _
  by_cases hne : c.1 = []
  · -- no new tokens
    left
    have htt : t' = t := by
      rw [← ht']
      unfold Tape.call
      rw [hne]
      split
      · unfold Tape.skip
        simp
      · rfl
    subst htt
    refine ⟨not_stops (Nat.le_max_left _ _), ?_⟩
    unfold update
    rw [if_pos hne]
  · have hupdate : update decodeNext (d.withTape t) c.1 c.2 =
        evaluateStopStrings (d.withTape t') (d.searched t t') := by
      unfold update
      rw [if_neg hne]
      subst ht'
      unfold searched Tape.call
      dsimp only
      cases hskip : (c.2 && !d.includeStopStrInOutput) with
      | true =>
        have hskip' : (c.2 && !(d.withTape t).includeStopStrInOutput) = true := hskip
        rw [hskip']
        simp only [if_true]
        rw [show (d.withTape t).outputText.length = t.text.length from rfl,
          decodeTokens_withTape h _ (t.minTokensPart_le _) le_rfl, Tape.minTokensPart_skip, withTape_skip]
        rfl
      | false =>
        have hskip' : (c.2 && !(d.withTape t).includeStopStrInOutput) = false := hskip
        rw [hskip']
        simp only [Bool.false_eq_true, if_false]
        rw [show (d.withTape t).outputText.length = t.text.length from rfl,
          decodeTokens_withTape h _ (t.minTokensPart_le _) le_rfl]
    rw [hupdate]
    exact evaluateStopStrings_spec (ht' ▸ h.call _ c) hstop (Nat.le_max_right _ _) hoff

end Spec

end BaseIncrementalDetokenizer

end Gambit.Frontend
