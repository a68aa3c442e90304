import Gambit.Engine.Phases
import Gambit.Worker.Trigger

/-!
# Step boundaries in the training data

Model of `step_boundary_positions` in `gambit/train_scorer/extract_hidden_states.py` and of
`set_gambit_token_ids` in `vllm/config/gambit.py`, and how the positions of the extractor relate to the
triggers of the engine and of the worker.

A text is the list of its characters. The chat template gives the prompt, so a trace is a prompt and a
response. An encoding is a list of token ids whose texts make up the text, and its offset mapping is the
running sum of their lengths.
-/

namespace Gambit.Train
open Gambit.Lib Gambit.Sched Gambit.Engine

/-- A text, as its characters. -/
abbrev Text := List Char

/-- The part of a tokenizer that is used. -/
structure Tokenizer where
  vocabSize : Nat
  /-- Python `tokenizer.decode([token_id])`. -/
  decode : Token → Text

/-- The delimiter of reasoning steps. -/
def target : Text := ['\n', '\n']

/-- Python `set_gambit_token_ids`, the boundary tokens. -/
def setGambitTokenIds (cfg : GambitConfig) (tk : Tokenizer) : GambitConfig :=
  { cfg with
    doubleNewLineTokenId :=
      some ((List.range tk.vocabSize).filter fun t => target <:+: tk.decode t) }

/-- Python `text.find(sub, start)`. -/
def find (text sub : Text) (start : Nat) : Option Nat :=
  (List.range' start (text.length + 1 - start)).find? fun k => sub <+: text.drop k

/-- Python `text[s:e]`. -/
def slice (text : Text) (s e : Nat) : Text := (text.take e).drop s

/-- The tags of the thinking block. -/
def openTag : Text := "<think>".toList
def closeTag : Text := "</think>".toList

/-- Python `step_boundary_positions`. -/
def stepBoundaryPositions (text : Text) (promptLen : Nat) (offsets : List (Nat × Nat)) : List Nat :=
  let thinkStart :=
    match find text openTag 0 with
    | some k => k + openTag.length
    | none => promptLen
  let thinkEnd := (find text closeTag thinkStart).getD text.length
  (offsets.zipIdx.filter fun o =>
    thinkStart ≤ o.1.1 ∧ o.1.1 < thinkEnd ∧ target <:+: slice text o.1.1 o.1.2).map Prod.snd

/-- The offset mapping of tokens with the given texts, from position `pos` on. -/
def offsetsFrom (pos : Nat) : List Text → List (Nat × Nat)
  | [] => []
  | t :: ts => (pos, pos + t.length) :: offsetsFrom (pos + t.length) ts

/-- The search finds the first occurrence. -/
lemma find_eq_some {text sub : Text} {start k : Nat} (h : find text sub start = some k) :
    start ≤ k ∧ sub <+: text.drop k ∧ ∀ j, start ≤ j → j < k → ¬ sub <+: text.drop j := by
  obtain ⟨hk, hmem, hfirst⟩ := List.find?_range'_eq_some.1 h
  refine ⟨(List.mem_range'_1.1 hmem).1, of_decide_eq_true hk, fun j hj hjk hsub => ?_⟩
  have := hfirst j hj hjk
  simp [hsub] at this

/-- A failed search means there is no occurrence. -/
lemma find_eq_none {text sub : Text} {start : Nat} (h : find text sub start = none) :
    ∀ j, start ≤ j → j ≤ text.length → ¬ sub <+: text.drop j := by
  intro j hj hlen hsub
  have hall := List.find?_eq_none.1 h j (List.mem_range'_1.2 ⟨hj, by omega⟩)
  exact hall (decide_eq_true hsub)

/-- The offsets of a token are its start and its end. -/
lemma getElem?_offsetsFrom (ts : List Text) (pos i : Nat) :
    (offsetsFrom pos ts)[i]? =
      (ts[i]?).map fun t => (pos + (ts.take i).flatten.length, pos + (ts.take i).flatten.length + t.length) := by
  induction ts generalizing pos i with
  | nil => simp [offsetsFrom]
  | cons t ts ih =>
    cases i with
    | zero => simp [offsetsFrom]
    | succ i =>
      simp only [offsetsFrom, List.getElem?_cons_succ, ih, List.take_succ_cons, List.flatten_cons,
        List.length_append, Nat.add_assoc]

/-- The slice at the offsets of a token is its text. -/
lemma slice_flatten {ts : List Text} {i : Nat} {t : Text} (h : ts[i]? = some t) :
    slice ts.flatten (ts.take i).flatten.length ((ts.take i).flatten.length + t.length) = t := by
  obtain ⟨hi, rfl⟩ := List.getElem?_eq_some_iff.1 h
  have hsplit : ts.flatten = (ts.take i).flatten ++ (ts[i] ++ (ts.drop (i + 1)).flatten) := by
    rw [← List.flatten_cons, List.getElem_cons_drop, ← List.flatten_append, List.take_append_drop]
  rw [hsplit, slice, List.take_length_add_append, List.drop_left, List.take_left]

/-- The thinking block starts after the first opening tag, or with the response if there is none. -/
def ThinkingStarts (text : Text) (promptLen a : Nat) : Prop :=
  (∃ k, a = k + openTag.length ∧ openTag <+: text.drop k ∧ ∀ j < k, ¬ openTag <+: text.drop j) ∨
    (a = promptLen ∧ ∀ j ≤ text.length, ¬ openTag <+: text.drop j)

/-- A position is inside the thinking block: after its start, with no closing tag in between. -/
def InThinking (text : Text) (promptLen pos : Nat) : Prop :=
  ∃ a, ThinkingStarts text promptLen a ∧ a ≤ pos ∧ ∀ c, a ≤ c → c ≤ pos → ¬ closeTag <+: text.drop c

/-- The thinking block starts where the extractor says, and nowhere else. -/
lemma thinkingStarts_iff {text : Text} {promptLen a : Nat} :
    ThinkingStarts text promptLen a ↔
      a = match find text openTag 0 with
        | some k => k + openTag.length
        | none => promptLen := by
  cases hf : find text openTag 0 with
  | some k =>
    obtain ⟨-, hk, hfirst⟩ := find_eq_some hf
    constructor
    · rintro (⟨k', rfl, hk', hfirst'⟩ | ⟨-, hnone⟩)
      · have heq : k' = k := by
          rcases lt_trichotomy k' k with hlt | heq | hlt
          · exact absurd hk' (hfirst k' k'.zero_le hlt)
          · exact heq
          · exact absurd hk (hfirst' k hlt)
        rw [heq]
      · have hlen : k ≤ text.length := by
          by_contra hlt
          rw [List.drop_of_length_le (by omega)] at hk
          exact absurd (List.prefix_nil.1 hk) (by decide)
        exact absurd hk (hnone k hlen)
    · rintro rfl
      exact .inl ⟨k, rfl, hk, fun j hj => hfirst j j.zero_le hj⟩
  | none =>
    have hnone := find_eq_none hf
    constructor
    · rintro (⟨k, rfl, hk, -⟩ | ⟨rfl, -⟩)
      · have hlen : k ≤ text.length := by
          by_contra hlt
          rw [List.drop_of_length_le (by omega)] at hk
          exact absurd (List.prefix_nil.1 hk) (by decide)
        exact absurd hk (hnone k k.zero_le hlen)
      · rfl
    · rintro rfl
      exact .inr ⟨rfl, fun j hj => hnone j j.zero_le hj⟩

/-- The window of the extractor is the thinking block. -/
lemma inThinking_iff {text : Text} {promptLen pos : Nat} (hpos : pos < text.length) :
    InThinking text promptLen pos ↔ ∃ a, ThinkingStarts text promptLen a ∧ a ≤ pos ∧
      pos < (find text closeTag a).getD text.length := by
  refine exists_congr fun a => and_congr_right fun _ => and_congr_right fun ha => ?_
  cases hf : find text closeTag a with
  | none =>
    have hnone := find_eq_none hf
    simp only [Option.getD_none, hpos, iff_true]
    exact fun c hc hcp => hnone c hc (by omega)
  | some k =>
    obtain ⟨hak, hk, hfirst⟩ := find_eq_some hf
    rw [Option.getD_some]
    constructor
    · intro h
      by_contra hlt
      exact h k hak (by omega) hk
    · exact fun hlt c hc hcp => hfirst c hc (by omega)

/-- A token is at a selected position if its text contains the delimiter and it starts in the thinking
block. -/
lemma mem_stepBoundaryPositions {ts : List Text} {promptLen i : Nat} {t : Text} (hi : ts[i]? = some t) :
    i ∈ stepBoundaryPositions ts.flatten promptLen (offsetsFrom 0 ts) ↔
      target <:+: t ∧ InThinking ts.flatten promptLen (ts.take i).flatten.length := by
  have hoff : (offsetsFrom 0 ts)[i]? =
      some ((ts.take i).flatten.length, (ts.take i).flatten.length + t.length) := by
    rw [getElem?_offsetsFrom, hi, Option.map_some, Nat.zero_add]
  have hslice := slice_flatten hi
  have hmem : ∀ p, (p, i) ∈ (offsetsFrom 0 ts).zipIdx ↔
      p = ((ts.take i).flatten.length, (ts.take i).flatten.length + t.length) := by
    intro p
    rw [List.mem_zipIdx_iff_getElem?, hoff]
    exact ⟨fun h => (Option.some.inj h).symm, fun h => congrArg some h.symm⟩
  have hlt : target <:+: t → (ts.take i).flatten.length < ts.flatten.length := by
    intro hinf
    have hlen : target.length ≤ t.length := hinf.length_le
    have htwo : target.length = 2 := rfl
    have hle : (slice ts.flatten (ts.take i).flatten.length
        ((ts.take i).flatten.length + t.length)).length ≤ ts.flatten.length - (ts.take i).flatten.length := by
      rw [slice, List.length_drop, List.length_take]
      omega
    rw [hslice] at hle
    omega
  simp only [stepBoundaryPositions, List.mem_map, List.mem_filter, decide_eq_true_eq]
  constructor
  · rintro ⟨⟨p, j⟩, ⟨hp, hs, he, hinf⟩, hj⟩
    dsimp only at hp hs he hinf hj
    subst hj
    rw [hmem] at hp
    subst hp
    rw [hslice] at hinf
    exact ⟨hinf, (inThinking_iff (hlt hinf)).2 ⟨_, thinkingStarts_iff.2 rfl, hs, he⟩⟩
  · rintro ⟨hinf, hin⟩
    obtain ⟨a, ha, hs, he⟩ := (inThinking_iff (hlt hinf)).1 hin
    rw [thinkingStarts_iff] at ha
    subst ha
    exact ⟨(_, i), ⟨(hmem _).2 rfl, hs, he, by rwa [hslice]⟩, rfl⟩

/-- A token of the vocabulary is a boundary token exactly if its text contains the delimiter. -/
lemma mem_setGambitTokenIds (g : GambitConfig) (tk : Tokenizer) {t : Token} (ht : t < tk.vocabSize) :
    ∃ ids, (setGambitTokenIds g tk).doubleNewLineTokenId = some ids ∧
      (t ∈ ids ↔ target <:+: tk.decode t) :=
  ⟨_, rfl, by simp [ht]⟩

/-- The engine and the worker trigger on the same tokens, and a position is selected for training exactly
if they trigger on its token and it starts inside the thinking block. -/
theorem boundary_positions_are_triggers {μ : Type} {cfg : VllmConfig} {g : GambitConfig} {tk : Tokenizer}
    {ids : List Token} {prompt response : Text} {mo : ModelRunnerOutput} {rid : ReqId} {i : Nat} {t : Token}
    (e : EngineCore μ) (hcfg : cfg.gambit = setGambitTokenIds g tk) (hstride : g.scoringStride = 0)
    (htext : (ids.map tk.decode).flatten = prompt ++ response) (hvocab : ∀ t ∈ ids, t < tk.vocabSize)
    (hi : ids[i]? = some t) (hmo : mo.get? rid = some [t]) :
    (rid ∈ (e.detectTriggers cfg mo).record.triggered ↔ rid ∈ Worker.triggerReqIds cfg mo) ∧
    (i ∈ stepBoundaryPositions (prompt ++ response) prompt.length (offsetsFrom 0 (ids.map tk.decode)) ↔
      rid ∈ (e.detectTriggers cfg mo).record.triggered ∧
        InThinking (prompt ++ response) prompt.length ((ids.take i).map tk.decode).flatten.length) := by
  obtain ⟨bs, hbs, hmem⟩ :=
    mem_setGambitTokenIds g tk (hvocab t (List.mem_of_getElem? hi))
  have hs : cfg.gambit.scoringStride = 0 := by rw [hcfg]; exact hstride
  have hb : cfg.gambit.doubleNewLineTokenId = some bs := by rw [hcfg]; exact hbs
  have hengine : rid ∈ (e.detectTriggers cfg mo).record.triggered ↔ target <:+: tk.decode t := by
    obtain ⟨tc, sl, heq, -⟩ := EngineCore.detectTriggers_eq cfg e mo
    rw [heq, EngineCore.mem_triggers, ← hmem]
    have hneg : ¬ 0 < cfg.gambit.scoringStride := by omega
    simp [hmo, EngineCore.boundary, hneg, EngineCore.hitsBoundary, hb]
  have hworker : rid ∈ Worker.triggerReqIds cfg mo ↔ target <:+: tk.decode t := by
    rw [Worker.mem_triggerReqIds hs hb, ← hmem]
    simp [hmo]
  have htok : (ids.map tk.decode)[i]? = some (tk.decode t) := by
    rw [List.getElem?_map, hi, Option.map_some]
  refine ⟨hengine.trans hworker.symm, ?_⟩
  rw [hengine, ← htext, mem_stepBoundaryPositions htok, List.map_take]

/-- A small vocabulary: the tags, a sentence with the delimiter, the delimiter alone and a question. -/
def smallTokenizer : Tokenizer where
  vocabSize := 5
  decode
    | 0 => openTag
    | 1 => 'a' :: '.' :: target
    | 2 => closeTag
    | 3 => target
    | _ => ['q']

/-- A trace that goes on after its thinking block. -/
def smallTrace : List Token := [4, 0, 1, 2, 3]

/-- The configuration of the small vocabulary. -/
def smallConfig : VllmConfig where
  gambit := setGambitTokenIds {} smallTokenizer
  scheduler := {}

/-- What a step returns that sampled one token. -/
def sampledToken (t : Token) : ModelRunnerOutput := (∅ : ModelRunnerOutput).set ['r'] [t]

theorem boundary_positions_are_triggers_inside :
    (['r'] ∈ ((EngineCore.init smallConfig ()).detectTriggers smallConfig (sampledToken 1)).record.triggered ∧
      InThinking (smallTrace.map smallTokenizer.decode).flatten 1 8) ∧
      2 ∈ stepBoundaryPositions (smallTrace.map smallTokenizer.decode).flatten 1
        (offsetsFrom 0 (smallTrace.map smallTokenizer.decode)) := by
  have hcfg : smallConfig.gambit = setGambitTokenIds {} smallTokenizer := rfl
  have htext : (smallTrace.map smallTokenizer.decode).flatten =
      ['q'] ++ (smallTrace.tail.map smallTokenizer.decode).flatten := rfl
  have hvocab : ∀ t ∈ smallTrace, t < smallTokenizer.vocabSize := by decide
  have hi : smallTrace[2]? = some 1 := rfl
  have hmo : (sampledToken 1).get? ['r'] = some [1] := rfl
  have h := (boundary_positions_are_triggers (EngineCore.init smallConfig ()) hcfg rfl htext hvocab hi hmo).2
  have hsel : 2 ∈ stepBoundaryPositions (smallTrace.map smallTokenizer.decode).flatten 1
      (offsetsFrom 0 (smallTrace.map smallTokenizer.decode)) := by decide +kernel
  exact ⟨h.1 hsel, hsel⟩

/-- The delimiter after the thinking block triggers the engine and the worker, and its position is not
selected. -/
theorem trigger_after_thinking_not_selected :
    (smallTrace.map smallTokenizer.decode).flatten =
        ['q'] ++ (smallTrace.tail.map smallTokenizer.decode).flatten ∧
      (∀ t ∈ smallTrace, t < smallTokenizer.vocabSize) ∧ smallTrace[4]? = some 3 ∧
      ['r'] ∈ ((EngineCore.init smallConfig ()).detectTriggers smallConfig (sampledToken 3)).record.triggered ∧
      ['r'] ∈ Worker.triggerReqIds smallConfig (sampledToken 3) ∧
      4 ∉ stepBoundaryPositions (smallTrace.map smallTokenizer.decode).flatten 1
        (offsetsFrom 0 (smallTrace.map smallTokenizer.decode)) := by
  decide +kernel

end Gambit.Train
