import Gambit.Frontend.Detokenizer

/-!
# Streamed text is never taken back

While a request runs, the last characters of its text are held back, as many as a stop string may reach into from
the text to come. `Served` is the life of a request: calls of `update`, each followed by a read. What has been read
is a prefix of every later text (`Reading.update_prefix`), whatever an update cuts off.
-/

namespace Gambit.Frontend
open Gambit.Lib

variable {χ σ : Type} [DecidableEq χ] {decodeNext : DecodeNext χ σ}

namespace BaseIncrementalDetokenizer

/-- Calls of `update`, each followed by a read, of which the last is the finished one: the texts that are read and the
detokenizer in the end. A stop string that is found finishes the request. -/
inductive Served (decodeNext : DecodeNext χ σ) (delta : Bool) :
    BaseIncrementalDetokenizer χ σ → List (List χ) → BaseIncrementalDetokenizer χ σ → Prop
  | last (d : BaseIncrementalDetokenizer χ σ) (c : UpdateCall) :
    Served decodeNext delta d [((d.update decodeNext c.1 c.2).2.getNextOutputText true delta).1]
      ((d.update decodeNext c.1 c.2).2.getNextOutputText true delta).2
  | more (d : BaseIncrementalDetokenizer χ σ) (c : UpdateCall) {texts : List (List χ)}
    {d' : BaseIncrementalDetokenizer χ σ} (running : (d.update decodeNext c.1 c.2).1 = none)
    (rest : Served decodeNext delta ((d.update decodeNext c.1 c.2).2.getNextOutputText false delta).2 texts d') :
    Served decodeNext delta d (((d.update decodeNext c.1 c.2).2.getNextOutputText false delta).1 :: texts) d'

/-- The length of the text that is not held back. -/
def released (d : BaseIncrementalDetokenizer χ σ) : Nat := (d.outputText.length - d.stopBufferLength).toNat

/-- A running request: nothing has been cut off, and no more than what is not held back has been read. -/
structure Reading (d : BaseIncrementalDetokenizer χ σ) (t : Tape χ σ) : Prop where
  tape : d.withTape t = d
  fits : d.Fits t
  nonempty : ∀ s ∈ d.stop, s ≠ []
  buffer : 0 ≤ d.stopBufferLength
  holds : d.includeStopStrInOutput = false → ∀ s ∈ d.stop, (s.length : Int) ≤ d.stopBufferLength + 1
  offset : 0 ≤ d.lastOutputTextOffset
  read : d.lastOutputTextOffset.toNat ≤ d.released

section Reading
variable {d d' : BaseIncrementalDetokenizer χ σ} {t : Tape χ σ}

omit [DecidableEq χ] in
/-- The longest stop string. -/
lemma length_le_longest {stop : List (List χ)} {s : List χ} (hs : s ∈ stop) :
    s.length ≤ (stop.map List.length).foldr max 0 := by
  induction stop with
  | nil => exact absurd hs List.not_mem_nil
  | cons s' stop ih =>
    rw [List.map_cons, List.foldr_cons]
    rcases List.mem_cons.1 hs with rfl | hs
    · exact Nat.le_max_left _ _
    · exact (ih hs).trans (Nat.le_max_right _ _)

omit [DecidableEq χ] in
/-- A new request. -/
lemma reading_init (promptIds : List Token) {stop : List (List χ)} (hstop : ∀ s ∈ stop, s ≠ []) (minTokens : Nat)
    (incl : Bool) (stream : σ) : Reading (init promptIds stop minTokens incl stream) ⟨stream, promptIds, []⟩ where
  tape := rfl
  fits := rfl
  nonempty := hstop
  buffer := by
    show (0 : Int) ≤ if stop ≠ [] ∧ incl = false then _ else _
    split
    · rename_i h
      obtain ⟨s, hs⟩ := List.exists_mem_of_ne_nil stop h.1
      have hlen := List.length_pos_iff.2 (hstop s hs)
      have hle := length_le_longest hs
      omega
    · exact le_rfl
  holds hincl s hs := by
    have hbuffer : (init promptIds stop minTokens incl stream).stopBufferLength =
        ((stop.map List.length).foldr max 0 : Nat) - 1 := if_pos ⟨List.ne_nil_of_mem hs, hincl⟩
    have hle : s.length ≤ (stop.map List.length).foldr max 0 := length_le_longest hs
    rw [hbuffer]
    omega
  offset := le_rfl
  read := Nat.zero_le _

omit [DecidableEq χ] in
lemma Reading.text (h : Reading d t) : d.outputText = t.text := by
  rw [← h.tape]
  rfl

/-- Without a stop string the text grows by that of the new tokens. -/
lemma Reading.update_eq (h : Reading d t) {c : UpdateCall} (hnone : (d.update decodeNext c.1 c.2).1 = none) :
    (d.update decodeNext c.1 c.2).2 = d.withTape (t.call decodeNext d.includeStopStrInOutput c) := by
  rw [← h.tape] at hnone ⊢
  rcases update_spec h.fits h.nonempty c rfl with ⟨-, he⟩ | ⟨s, i, -, he⟩
  · rw [he]
    rfl
  · rw [he] at hnone
    exact absurd hnone (Option.some_ne_none s)

/-- More tokens, more text that is not held back. -/
lemma Reading.released_le (h : Reading d t) {c : UpdateCall} (hnone : (d.update decodeNext c.1 c.2).1 = none) :
    d.released ≤ (d.update decodeNext c.1 c.2).2.released := by
  obtain ⟨x, hx⟩ := t.text_call decodeNext d.includeStopStrInOutput c
  rw [h.update_eq hnone]
  unfold released
  show (d.outputText.length - d.stopBufferLength : Int).toNat ≤
    ((t.call decodeNext d.includeStopStrInOutput c).text.length - d.stopBufferLength : Int).toNat
  rw [h.text, hx, List.length_append]
  omega

/-- Without a stop string the request runs on. -/
lemma Reading.update (h : Reading d t) {c : UpdateCall} (hnone : (d.update decodeNext c.1 c.2).1 = none) :
    Reading (d.update decodeNext c.1 c.2).2 (t.call decodeNext d.includeStopStrInOutput c) := by
  have hread := h.read.trans (h.released_le hnone)
  rw [h.update_eq hnone] at hread ⊢
  exact ⟨rfl, h.fits.call _ c, h.nonempty, h.buffer, h.holds, h.offset, hread⟩

lemma Reading.lastOutputTextOffset_update (h : Reading d t) (c : UpdateCall) :
    (d.update decodeNext c.1 c.2).2.lastOutputTextOffset = d.lastOutputTextOffset := by
  rw [← h.tape]
  rcases update_spec h.fits h.nonempty c rfl with ⟨-, he⟩ | ⟨s, i, -, he⟩
  · rw [he]
    rfl
  · rw [he]
    rfl

/-- Whatever an update cuts off, the text that was not held back stays. -/
lemma Reading.update_prefix (decodeNext : DecodeNext χ σ) (h : Reading d t) (c : UpdateCall) :
    d.outputText.take d.released <+: (d.update decodeNext c.1 c.2).2.outputText := by
  obtain ⟨x, hx⟩ := t.text_call decodeNext d.includeStopStrInOutput c
  have hgrow : d.outputText.take d.released <+: (t.call decodeNext d.includeStopStrInOutput c).text := by
    rw [hx, h.text]
    exact (List.take_prefix _ _).trans (List.prefix_append _ _)
  rw [← h.tape]
  rcases update_spec h.fits h.nonempty c rfl with ⟨-, he⟩ | ⟨s, i, hfirst, he⟩
  · rw [he, h.tape]
    exact hgrow
  · rw [he, h.tape]
    refine List.prefix_take_iff.2 ⟨hgrow, ?_⟩
    -- the stop string ends in the new text
    have hafter : t.text.length < i + s.length := Nat.lt_of_le_of_lt (Nat.le_max_left _ _) hfirst.after
    have hbuffer := h.buffer
    rw [List.length_take]
    unfold released
    rw [h.text]
    cases hincl : d.includeStopStrInOutput with
    | true =>
      rw [if_pos rfl]
      omega
    | false =>
      obtain ⟨pre, post, hstop, -⟩ := hfirst.listed
      have hlen := h.holds hincl s (by rw [hstop]; exact List.mem_append_right _ (List.mem_cons_self ..))
      rw [if_neg Bool.false_ne_true]
      omega

omit [DecidableEq χ] in
/-- Reading new text. -/
lemma getNextOutputText_delta (finished : Bool) (hoff : 0 ≤ d.lastOutputTextOffset) :
    let length := d.outputText.length - if finished then 0 else d.stopBufferLength
    d.getNextOutputText finished true =
      ((d.outputText.take length.toNat).drop d.lastOutputTextOffset.toNat,
        { d with lastOutputTextOffset := max d.lastOutputTextOffset length }) := by
  intro length
  unfold getNextOutputText
  simp only [Bool.not_true, Bool.false_eq_true, if_false]
  show (if d.lastOutputTextOffset < length then _ else _) = _
  by_cases hlt : d.lastOutputTextOffset < length
  · rw [if_pos hlt, Int.max_eq_right hlt.le]
    unfold slice sliceTo sliceIndex
    rw [if_neg (Int.not_lt.2 hoff), if_neg (Int.not_lt.2 (hoff.trans hlt.le))]
  · rw [if_neg hlt, Int.max_eq_left (Int.not_lt.1 hlt), List.drop_eq_nil_of_le]
    rw [List.length_take]
    omega

omit [DecidableEq χ] in
/-- A read in delta mode leaves the request running. -/
lemma Reading.getNextOutputText (h : Reading d t) : Reading (d.getNextOutputText false true).2 t := by
  have he : (d.getNextOutputText false true).2 = { d with
      lastOutputTextOffset := max d.lastOutputTextOffset (d.outputText.length - d.stopBufferLength) } :=
    congrArg Prod.snd (getNextOutputText_delta false h.offset)
  rw [he]
  refine ⟨?_, h.fits, h.nonempty, h.buffer, h.holds, h.offset.trans (Int.le_max_left _ _), ?_⟩
  · show ({ d.withTape t with lastOutputTextOffset := _ } : BaseIncrementalDetokenizer χ σ) = _
    rw [h.tape]
  · have hread := h.read
    unfold released at hread ⊢
    show (max d.lastOutputTextOffset (d.outputText.length - d.stopBufferLength)).toNat ≤
      (d.outputText.length - d.stopBufferLength : Int).toNat
    omega

omit [DecidableEq χ] in
/-- Two neighbouring parts of a text. -/
lemma take_append_drop_take (x : List χ) (m n : Nat) : x.take m ++ (x.take n).drop m = x.take (max m n) := by
  rcases Nat.le_total n m with hle | hle
  · rw [Nat.max_eq_left hle, List.drop_eq_nil_of_le, List.append_nil]
    rw [List.length_take]
    omega
  · rw [Nat.max_eq_right hle]
    have h := List.take_append_drop m (x.take n)
    rwa [List.take_take, Nat.min_eq_left hle] at h

omit [DecidableEq χ] in
/-- Reading all the text. -/
lemma Reading.getNextOutputText_full (h : Reading d t) :
    (d.getNextOutputText false false).1 = d.outputText.take d.released := by
  have hbuffer := h.buffer
  unfold BaseIncrementalDetokenizer.getNextOutputText released
  simp only [Bool.not_false, if_true, Bool.false_eq_true, if_false]
  by_cases hb : d.stopBufferLength ≠ 0
  · rw [if_pos hb]
    unfold sliceTo sliceIndex
    rw [if_pos (by omega), Int.add_comm, ← Int.sub_eq_add_neg]
  · rw [if_neg hb, Decidable.not_not.1 hb, Int.sub_zero, Int.toNat_natCast, List.take_length]

/-- What has been read stands at the start of the text after the next update. -/
lemma Reading.take_read (decodeNext : DecodeNext χ σ) (h : Reading d t) (c : UpdateCall) :
    d.outputText.take d.lastOutputTextOffset.toNat =
      (d.update decodeNext c.1 c.2).2.outputText.take d.lastOutputTextOffset.toNat := by
  obtain ⟨x, hx⟩ := h.update_prefix decodeNext c
  rw [← hx, List.take_append_of_le_length, List.take_take, Nat.min_eq_left h.read]
  rw [List.length_take]
  have hread := h.read
  have hbuffer := h.buffer
  unfold released at hread ⊢
  omega

/-- In delta mode the pieces make up the text. -/
lemma Served.flatten {texts : List (List χ)} (hs : Served decodeNext true d texts d') (h : Reading d t) :
    d.outputText.take d.lastOutputTextOffset.toNat ++ texts.flatten = d'.outputText := by
  induction hs generalizing t with
  | last d c =>
    have hoff : (d.update decodeNext c.1 c.2).2.lastOutputTextOffset = d.lastOutputTextOffset :=
      h.lastOutputTextOffset_update c
    rw [h.take_read decodeNext c, getNextOutputText_delta true (hoff ▸ h.offset), hoff]
    simp only [if_true, Int.sub_zero, Int.toNat_natCast, List.take_length, List.flatten_singleton,
      List.take_append_drop]
  | more d c running rest ih =>
    have h1 := h.update running
    have hoff : (d.update decodeNext c.1 c.2).2.lastOutputTextOffset = d.lastOutputTextOffset :=
      h.lastOutputTextOffset_update c
    rw [← ih h1.getNextOutputText, h.take_read decodeNext c,
      getNextOutputText_delta false h1.offset, List.flatten_cons, ← List.append_assoc, hoff]
    refine congrArg (· ++ _) ?_
    rw [take_append_drop_take]
    refine congrArg (List.take · _) ?_
    simp only [Bool.false_eq_true, if_false]
    omega

/-- Otherwise every text is a prefix of the last one. -/
lemma Served.prefixes {texts : List (List χ)} (hs : Served decodeNext false d texts d') (h : Reading d t) :
    d.outputText.take d.released <+: d'.outputText ∧ ∀ x ∈ texts, x <+: d'.outputText := by
  induction hs generalizing t with
  | last d c =>
    refine ⟨h.update_prefix decodeNext c, fun x hx => ?_⟩
    rw [List.mem_singleton.1 hx]
    exact List.prefix_rfl
  | more d c running rest ih =>
    have h1 := h.update running
    obtain ⟨hheld, htexts⟩ := ih h1
    have hread : ((d.update decodeNext c.1 c.2).2.getNextOutputText false false).1 =
        (d.update decodeNext c.1 c.2).2.outputText.take (d.update decodeNext c.1 c.2).2.released :=
      h1.getNextOutputText_full
    refine ⟨(List.prefix_take_iff.2 ⟨h.update_prefix decodeNext c, ?_⟩).trans hheld, fun x hx => ?_⟩
    · exact (List.length_take_le _ _).trans (h.released_le running)
    · rcases List.mem_cons.1 hx with rfl | hx
      · rw [hread]
        exact hheld
      · exact htexts x hx

end Reading

/-- Streamed text is never taken back. -/
theorem streamed_text_stays (decodeNext : DecodeNext χ σ) (promptIds : List Token) (stop : List (List χ))
    (minTokens : Nat) (incl : Bool) (stream : σ) (hstop : ∀ s ∈ stop, s ≠ []) :
    (∀ texts d', Served decodeNext true (init promptIds stop minTokens incl stream) texts d' →
      texts.flatten = d'.outputText) ∧
    ∀ texts d', Served decodeNext false (init promptIds stop minTokens incl stream) texts d' →
      ∀ x ∈ texts, x <+: d'.outputText :=
  have h := reading_init promptIds hstop minTokens incl stream
  ⟨fun _ _ hs => hs.flatten h, fun _ _ hs => (hs.prefixes h).2⟩

/-- Two tokens bring a stop string, the first character of which is held back. -/
theorem streamed_text_stays_ab :
    ∃ d', Served (fun (_ : Unit) _ tok => (if tok = 0 then ['x', 'a'] else ['b', 'y'], ())) true
      (init [] [['a', 'b']] 0 false ()) [['x'], []] d' ∧ [['x'], []].flatten = d'.outputText :=
  have hs : Served (fun (_ : Unit) _ tok => (if tok = 0 then ['x', 'a'] else ['b', 'y'], ())) true
      (init [] [['a', 'b']] 0 false ()) [['x'], []] _ := .more _ ([0], false) rfl (.last _ ([1], false))
  ⟨_, hs, (streamed_text_stays _ _ _ _ _ _ (by decide)).1 _ _ hs⟩

end BaseIncrementalDetokenizer

end Gambit.Frontend
