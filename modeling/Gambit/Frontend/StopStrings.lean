import Gambit.Frontend.Detokenizer

/-!
# Stop strings

A stop string is to be found in the first update that brings one, and no stop string is to be left in the text. The
first is so for any split of the output into updates (`runUpdates_withTape`): an update searches what ends in its
own text, and what ends before was searched by the updates before. The second is not: the strings are tried in the
order of the list, so that the text may be cut off at a stop string while one that is listed later stands in front
of it (`Overtaken`).
-/

namespace Gambit.Frontend
open Gambit.Lib

variable {χ σ : Type}

section Parts
variable (decodeNext : DecodeNext χ σ) {t : Tape χ σ} {stop : List (List χ)} {text s : List χ} {off off' i m : Nat}

/-- The part of the first `m` tokens is complete once they have come. -/
lemma Tape.minTokensPart_decodes (h : m ≤ t.pieces.length) (toks : List Token) :
    (toks.foldl (Tape.decode decodeNext) t).minTokensPart m = t.minTokensPart m := by
  induction toks generalizing t with
  | nil => rfl
  | cons tok toks ih =>
    have hlen : m ≤ (t.decode decodeNext tok).pieces.length := by
      show m ≤ (t.pieces ++ [_]).length
      rw [List.length_append]
      exact h.trans (Nat.le_add_right _ _)
    exact (ih hlen).trans (Tape.minTokensPart_decode decodeNext h tok)

lemma Tape.minTokensPart_call (h : m ≤ t.pieces.length) (incl : Bool) (c : UpdateCall) :
    (t.call decodeNext incl c).minTokensPart m = t.minTokensPart m := by
  unfold Tape.call
  split
  · rw [Tape.minTokensPart_skip]
    exact Tape.minTokensPart_decodes decodeNext h _
  · exact Tape.minTokensPart_decodes decodeNext h _

lemma Tape.minTokensPart_le_call (t : Tape χ σ) (m : Nat) (incl : Bool) (c : UpdateCall) :
    t.minTokensPart m ≤ (t.call decodeNext incl c).minTokensPart m := by
  unfold Tape.call
  split
  · rw [Tape.minTokensPart_skip]
    exact t.minTokensPart_decodes_le decodeNext _
  · exact t.minTokensPart_decodes_le decodeNext _

/-- A text has a stop string after the part of the first `m` tokens. -/
def Tape.Stops (t : Tape χ σ) (stop : List (List χ)) (m : Nat) : Prop :=
  Frontend.Stops stop t.text (t.minTokensPart m)

/-- A stop string that has come stays. -/
lemma Tape.Stops.call (h : t.Stops stop m) (incl : Bool) (c : UpdateCall) :
    (t.call decodeNext incl c).Stops stop m := by
  obtain ⟨s, hs, i, ho, hlt⟩ := h
  have hend := ho.end_le
  have hm : m ≤ t.pieces.length := by
    by_contra hfew
    rw [Tape.minTokensPart_eq (Nat.le_of_lt (Nat.lt_of_not_le hfew))] at hlt
    omega
  obtain ⟨x, hx⟩ := t.text_call decodeNext incl c
  refine ⟨s, hs, i, ?_, ?_⟩
  · rw [hx]
    exact (occursAt_append_iff hend).2 ho
  · rw [Tape.minTokensPart_call decodeNext hm]
    exact hlt

/-- Without a stop string so far, a stop string of the longer text ends in the new text. -/
lemma searched_lt_iff {d : BaseIncrementalDetokenizer χ σ} {incl : Bool} {c : UpdateCall}
    (hno : ¬ t.Stops stop m) (hs : s ∈ stop) (hm : d.minTokens = m)
    (ho : OccursAt s (t.call decodeNext incl c).text i) :
    d.searched t (t.call decodeNext incl c) < i + s.length ↔
      (t.call decodeNext incl c).minTokensPart m < i + s.length := by
  unfold BaseIncrementalDetokenizer.searched
  rw [hm]
  constructor
  · exact fun h => Nat.lt_of_le_of_lt (Nat.le_max_right _ _) h
  · intro h
    refine max_lt ?_ h
    by_contra hold
    obtain ⟨x, hx⟩ := t.text_call decodeNext incl c
    rw [hx] at ho
    exact hno ⟨s, hs, i, (occursAt_append_iff (Nat.le_of_not_lt hold)).1 ho,
      Nat.lt_of_le_of_lt (t.minTokensPart_le_call decodeNext m incl c) h⟩

/-- Two searches that take the same occurrences find the same. -/
lemma Stops.congr (h : ∀ s ∈ stop, ∀ i, OccursAt s text i → (off < i + s.length ↔ off' < i + s.length)) :
    Stops stop text off ↔ Stops stop text off' := by
  constructor
  · rintro ⟨s, hs, i, ho, hlt⟩
    exact ⟨s, hs, i, ho, (h s hs i ho).1 hlt⟩
  · rintro ⟨s, hs, i, ho, hlt⟩
    exact ⟨s, hs, i, ho, (h s hs i ho).2 hlt⟩

lemma FirstListed.congr (h : ∀ s ∈ stop, ∀ i, OccursAt s text i → (off < i + s.length ↔ off' < i + s.length))
    (hf : FirstListed stop text off s i) : FirstListed stop text off' s i := by
  obtain ⟨pre, post, hstop, hpre⟩ := hf.listed
  have hs : s ∈ stop := hstop ▸ List.mem_append_right pre (List.mem_cons_self ..)
  refine ⟨⟨pre, post, hstop, fun hpre' => hpre ?_⟩, hf.occurs, (h s hs i hf.occurs).1 hf.after, fun j hj ho => ?_⟩
  · exact (Stops.congr fun s hs => h s (hstop ▸ List.mem_append_left _ hs)).2 hpre'
  · have hle := hf.first j hj ho
    have hiff := h s hs j ho
    omega

end Parts

section Overtaken
variable {stop : List (List χ)} {text s : List χ} {off i : Nat}

/-- In front of the first occurrence of the first-listed stop string there is one that is listed later. -/
def Overtaken (stop : List (List χ)) (text : List χ) (off : Nat) : Prop :=
  ∃ pre s post i, stop = pre ++ s :: post ∧ ¬ Stops pre text off ∧ OccursAt s text i ∧ off < i + s.length ∧
    (∀ j, j < i → OccursAt s text j → j + s.length ≤ off) ∧ Stops post (text.take i) off

/-- What stands before the first string of a list that occurs is determined. -/
lemma split_unique {pre pre' post post' : List (List χ)} {s' : List χ} (h : pre ++ s :: post = pre' ++ s' :: post')
    (hpre : ¬ Stops pre text off) (hpre' : ¬ Stops pre' text off) (hs : Stops [s] text off)
    (hs' : Stops [s'] text off) : pre = pre' ∧ s = s' ∧ post = post' := by
  have hone : ∀ {l : List (List χ)} {x : List χ}, x ∈ l → Stops [x] text off → Stops l text off := by
    rintro l x hx ⟨_, hmem, hocc⟩
    rw [List.mem_singleton.1 hmem] at hocc
    exact ⟨x, hx, hocc⟩
  rcases List.append_eq_append_iff.1 h with ⟨mid, rfl, hmid⟩ | ⟨mid, rfl, hmid⟩
  · cases mid with
    | nil =>
      obtain ⟨rfl, rfl⟩ := List.cons.inj hmid
      exact ⟨(List.append_nil _).symm, rfl, rfl⟩
    | cons x mid =>
      obtain ⟨rfl, -⟩ := List.cons.inj hmid
      exact absurd (hone (List.mem_append_right _ (List.mem_cons_self ..)) hs) hpre'
  · cases mid with
    | nil =>
      obtain ⟨rfl, rfl⟩ := List.cons.inj hmid
      exact ⟨List.append_nil _, rfl, rfl⟩
    | cons x mid =>
      obtain ⟨rfl, -⟩ := List.cons.inj hmid
      exact absurd (hone (List.mem_append_right _ (List.mem_cons_self ..)) hs') hpre

/-- What is cut off at the first-listed stop string has a stop string if that one was overtaken. -/
lemma FirstListed.stops_take_iff (h : FirstListed stop text off s i) (hs : s ≠ []) :
    Stops stop (text.take i) off ↔ Overtaken stop text off := by
  obtain ⟨pre, post, rfl, hpre⟩ := h.listed
  constructor
  · rintro ⟨s', hmem, j, ho, hlt⟩
    obtain ⟨ho', hend⟩ := occursAt_take_iff.1 ho
    refine ⟨pre, s, post, i, rfl, hpre, h.occurs, h.after, h.first, s', ?_, j, ho, hlt⟩
    rcases List.mem_append.1 hmem with hmem | hmem
    · exact absurd ⟨s', hmem, j, ho', hlt⟩ hpre
    · rcases List.mem_cons.1 hmem with rfl | hmem
      · -- the string itself would occur before its first occurrence
        have hlen := List.length_pos_iff.2 hs
        exact absurd (h.first j (by omega) ho') (Nat.not_le.2 hlt)
      · exact hmem
  · rintro ⟨pre', s', post', i', hstop, hpre', ho', hlt', hfirst', s'', hmem, hocc⟩
    obtain ⟨rfl, rfl, rfl⟩ := split_unique hstop hpre hpre'
      ⟨s, List.mem_singleton_self s, i, h.occurs, h.after⟩ ⟨s', List.mem_singleton_self s', i', ho', hlt'⟩
    have hi : i = i' := by
      rcases Nat.lt_trichotomy i i' with hlt | heq | hlt
      · exact absurd (hfirst' i hlt h.occurs) (Nat.not_le.2 h.after)
      · exact heq
      · exact absurd (h.first i' hlt ho') (Nat.not_le.2 hlt')
    subst hi
    exact ⟨s'', List.mem_append_right _ (List.mem_cons_of_mem _ hmem), hocc⟩

end Overtaken

namespace BaseIncrementalDetokenizer

variable [DecidableEq χ] {decodeNext : DecodeNext χ σ} {d : BaseIncrementalDetokenizer χ σ} {t : Tape χ σ}

/-- Calls of `update` in turn: what they return, and the detokenizer after them. -/
def runUpdates (decodeNext : DecodeNext χ σ) (d : BaseIncrementalDetokenizer χ σ) :
    List UpdateCall → List (Option (List χ)) × BaseIncrementalDetokenizer χ σ
  | [] => ([], d)
  | c :: calls =>
    let (r, d') := d.update decodeNext c.1 c.2
    let (rs, d'') := runUpdates decodeNext d' calls
    (r :: rs, d'')

/-- An update of a text without stop strings reports one if the new text has one. -/
lemma update_stops (hstop : ∀ s ∈ d.stop, s ≠ []) (h : d.Fits t) (hno : ¬ t.Stops d.stop d.minTokens)
    (c : UpdateCall) {t' : Tape χ σ} (ht' : t.call decodeNext d.includeStopStrInOutput c = t') :
    (¬ t'.Stops d.stop d.minTokens ∧ (d.withTape t).update decodeNext c.1 c.2 = (none, d.withTape t')) ∨
    ∃ s i, FirstListed d.stop t'.text (t'.minTokensPart d.minTokens) s i ∧
      (d.withTape t).update decodeNext c.1 c.2 = (some s,
        { d.withTape t' with
          outputText := t'.text.take (if d.includeStopStrInOutput then i + s.length else i) }) := by
  have hiff : ∀ s ∈ d.stop, ∀ i, OccursAt s t'.text i →
      (d.searched t t' < i + s.length ↔ t'.minTokensPart d.minTokens < i + s.length) := by
    subst ht'
    exact fun s hs i ho => searched_lt_iff decodeNext hno hs rfl ho
  rcases update_spec h hstop c ht' with ⟨hnone, he⟩ | ⟨s, i, hfirst, he⟩
  · exact .inl ⟨fun hs => hnone ((Stops.congr hiff).2 hs), he⟩
  · exact .inr ⟨s, i, hfirst.congr hiff, he⟩

/-- Without a stop string in the text no update reports one, and none cuts anything off. -/
lemma runUpdates_withTape (hstop : ∀ s ∈ d.stop, s ≠ []) (calls : List UpdateCall) (h : d.Fits t)
    (hno : ¬ (calls.foldl (Tape.call decodeNext d.includeStopStrInOutput) t).Stops d.stop d.minTokens) :
    (∀ r ∈ (runUpdates decodeNext (d.withTape t) calls).1, r = none) ∧
    (runUpdates decodeNext (d.withTape t) calls).2 =
      d.withTape (calls.foldl (Tape.call decodeNext d.includeStopStrInOutput) t) := by
  induction calls generalizing t with
  | nil => exact ⟨fun r hr => absurd hr List.not_mem_nil, rfl⟩
  | cons c calls ih =>
    -- a stop string that had come would have stayed
    have hstays : ∀ calls : List UpdateCall, ∀ t' : Tape χ σ, t'.Stops d.stop d.minTokens →
        (calls.foldl (Tape.call decodeNext d.includeStopStrInOutput) t').Stops d.stop d.minTokens := by
      intro calls
      induction calls with
      | nil => exact fun _ h => h
      | cons c calls ih => exact fun t' h => ih _ (h.call decodeNext _ c)
    have hno' : ¬ (t.call decodeNext d.includeStopStrInOutput c).Stops d.stop d.minTokens :=
      fun h => hno (hstays calls _ h)
    have hnow : ¬ t.Stops d.stop d.minTokens := fun h => hno (hstays (c :: calls) t h)
    rcases update_stops hstop h hnow c rfl with ⟨-, he⟩ | ⟨s, i, hfirst, -⟩
    · obtain ⟨hreports, hstate⟩ := ih (h.call _ c) hno
      unfold runUpdates
      rw [he]
      refine ⟨fun r hr => ?_, hstate⟩
      rcases List.mem_cons.1 hr with rfl | hr
      · rfl
      · exact hreports r hr
    · exact absurd hfirst.stops hno'

/-- The text of a request after some calls. -/
def tapeOf (decodeNext : DecodeNext χ σ) (d : BaseIncrementalDetokenizer χ σ) (calls : List UpdateCall) : Tape χ σ :=
  calls.foldl (Tape.call decodeNext d.includeStopStrInOutput) ⟨d.stream, d.tokenIds, []⟩

/-- The stop string is reported in the first update that brings one, and removed entirely if it is excluded. -/
structure StopsRight (decodeNext : DecodeNext χ σ) (d : BaseIncrementalDetokenizer χ σ) (calls : List UpdateCall)
    (c : UpdateCall) : Prop where
  before : ∀ r ∈ (d.runUpdates decodeNext calls).1, r = none
  reported : (((d.runUpdates decodeNext calls).2.update decodeNext c.1 c.2).1.isSome ↔
    (d.tapeOf decodeNext (calls ++ [c])).Stops d.stop d.minTokens)
  removed : d.includeStopStrInOutput = false →
    ¬ Stops d.stop ((d.runUpdates decodeNext calls).2.update decodeNext c.1 c.2).2.outputText
      ((d.tapeOf decodeNext (calls ++ [c])).minTokensPart d.minTokens)

omit [DecidableEq χ] in
lemma Fits.tapeOf (h : d.Fits ⟨d.stream, d.tokenIds, []⟩) (calls : List UpdateCall) :
    d.Fits (d.tapeOf decodeNext calls) := by
  unfold BaseIncrementalDetokenizer.tapeOf
  induction calls using List.reverseRecOn with
  | nil => exact h
  | append_singleton calls c ih =>
    rw [List.foldl_append]
    exact ih.call _ c

omit [DecidableEq χ] in
lemma tapeOf_append (d : BaseIncrementalDetokenizer χ σ) (calls : List UpdateCall) (c : UpdateCall) :
    d.tapeOf decodeNext (calls ++ [c]) =
      (d.tapeOf decodeNext calls).call decodeNext d.includeStopStrInOutput c := by
  unfold tapeOf
  rw [List.foldl_append]
  rfl

/-- The first update that brings a stop string, from a detokenizer without output. -/
lemma stopsRight_of_fits (hstop : ∀ s ∈ d.stop, s ≠ []) (hfits : d.Fits ⟨d.stream, d.tokenIds, []⟩)
    (hempty : d.outputText = []) (calls : List UpdateCall) (c : UpdateCall)
    (hno : ¬ (d.tapeOf decodeNext calls).Stops d.stop d.minTokens) :
    StopsRight decodeNext d calls c ↔
      (d.includeStopStrInOutput = false → ¬ Overtaken d.stop (d.tapeOf decodeNext (calls ++ [c])).text
        ((d.tapeOf decodeNext (calls ++ [c])).minTokensPart d.minTokens)) := by
  have hwith : d.withTape ⟨d.stream, d.tokenIds, []⟩ = d := by
    unfold withTape Tape.text
    rw [List.flatten_nil, ← hempty]
  have hrun := runUpdates_withTape hstop calls hfits hno
  rw [hwith] at hrun
  obtain ⟨hreports, hstate⟩ := hrun
  have hstate : (d.runUpdates decodeNext calls).2 = d.withTape (d.tapeOf decodeNext calls) := hstate
  have hupdate := update_stops hstop (hfits.tapeOf calls) hno c (tapeOf_append d calls c).symm
  rw [← hstate] at hupdate
  rcases hupdate with ⟨hnone, he⟩ | ⟨s, i, hfirst, he⟩
  · -- no stop string has come
    have hover : ¬ Overtaken d.stop (d.tapeOf decodeNext (calls ++ [c])).text
        ((d.tapeOf decodeNext (calls ++ [c])).minTokensPart d.minTokens) := by
      rintro ⟨pre, s, post, i, hsplit, -, ho, hlt, -, -⟩
      exact hnone ⟨s, hsplit ▸ List.mem_append_right _ (List.mem_cons_self ..), i, ho, hlt⟩
    refine ⟨fun _ _ => hover, fun _ => ⟨hreports, ?_, fun _ => ?_⟩⟩
    · rw [he]
      exact ⟨fun h => absurd h Bool.false_ne_true, fun h => absurd h hnone⟩
    · rw [he]
      exact hnone
  · obtain ⟨pre, post, hsplit, -⟩ := id hfirst.listed
    have hs : s ≠ [] := hstop s (hsplit ▸ List.mem_append_right _ (List.mem_cons_self ..))
    have hremoved : d.includeStopStrInOutput = false →
        (Stops d.stop ((d.runUpdates decodeNext calls).2.update decodeNext c.1 c.2).2.outputText
          ((d.tapeOf decodeNext (calls ++ [c])).minTokensPart d.minTokens) ↔
        Overtaken d.stop (d.tapeOf decodeNext (calls ++ [c])).text
          ((d.tapeOf decodeNext (calls ++ [c])).minTokensPart d.minTokens)) := by
      intro hincl
      rw [he, ← hfirst.stops_take_iff hs, hincl]
      rfl
    constructor
    · exact fun h hincl hover => h.removed hincl ((hremoved hincl).2 hover)
    · intro h
      refine ⟨hreports, ?_, fun hincl hstops => h hincl ((hremoved hincl).1 hstops)⟩
      rw [he]
      exact ⟨fun _ => hfirst.stops, fun _ => rfl⟩

/-- The first update that brings a stop string reports one, and removes all of them unless a string that is listed
later stands in front of the one it stops at. -/
theorem stopsRight_iff (decodeNext : DecodeNext χ σ) (promptIds : List Token) (stop : List (List χ))
    (minTokens : Nat) (incl : Bool) (stream : σ) (hstop : ∀ s ∈ stop, s ≠ []) (calls : List UpdateCall)
    (c : UpdateCall)
    (hno : ¬ (tapeOf decodeNext (init promptIds stop minTokens incl stream) calls).Stops stop minTokens) :
    StopsRight decodeNext (init promptIds stop minTokens incl stream) calls c ↔
      (incl = false →
        ¬ Overtaken stop (tapeOf decodeNext (init promptIds stop minTokens incl stream) (calls ++ [c])).text
          ((tapeOf decodeNext (init promptIds stop minTokens incl stream) (calls ++ [c])).minTokensPart
            minTokens)) :=
  stopsRight_of_fits (d := init promptIds stop minTokens incl stream) hstop rfl rfl calls c hno

/-- The text of a first token. -/
theorem stopsRight_iff_ab :
    StopsRight (fun (_ : Unit) _ _ => (['a', 'b'], ())) (init [] [['b']] 0 false ()) [] ([0], false) ↔
      (false = false → ¬ Overtaken [['b']] ['a', 'b'] 0) :=
  stopsRight_iff _ [] [['b']] 0 false () (by decide) [] ([0], false) (not_stops (Nat.zero_le 0))

/-- The text `ab` is cut off at `b`, which is listed before `a`. -/
theorem overtaken_stop_stays :
    ¬ (∀ (stop : List (List Char)), (∀ s ∈ stop, s ≠ []) →
      StopsRight (fun (_ : Unit) _ _ => (['a', 'b'], ())) (init [] stop 0 false ()) [] ([0], false)) := by
  intro h
  refine (h [['b'], ['a']] (by decide)).removed rfl ?_
  exact ⟨['a'], by decide, 0, by decide, by decide⟩

end BaseIncrementalDetokenizer

end Gambit.Frontend
