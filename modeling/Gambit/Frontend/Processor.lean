import Gambit.Sched.Length

/-!
# Admission of a request

Model of what `Processor.process_inputs` (`vllm/v1/engine/processor.py`) and `SamplingParams`
(`vllm/sampling_params.py`) check of a generation request before the engine sees it: the prompt, its
length, `max_tokens` and `min_tokens`.

A prompt of embeddings counts as a prompt of as many zero tokens, as in `Request.__init__`. Left out are
the checks of parameters that no modelled function reads, the encoder prompt, LoRA and data parallel
rank, the minimum that a small positive temperature is raised to, the seed -1 that stands for none, and the
EOS ids that a generation config adds to the stop ids. A rational temperature prints as a fraction.
-/

namespace Gambit.Frontend
open Gambit.Sched

/-- Python `SamplingParams` as a user submits it. -/
structure UserParams where
  temperature : ℚ := 1
  seed : Option Int := none
  maxTokens : Option Int := some 16
  minTokens : Int := 0
  ignoreEos : Bool := false
  stopTokenIds : List Token := []
  structuredOutputs : Bool := false

/-- A check that raises an error on `c`. -/
def raiseIf (c : Prop) [Decidable c] (msg : String) : Except String Unit :=
  if c then .error msg else .ok ()

/-- Python `SamplingParams._verify_args`. -/
def UserParams.verifyArgs (p : UserParams) : Except String Unit := do
  let temperature := p.temperature
  let minTokens := p.minTokens
  raiseIf (temperature < 0) s!"temperature must be non-negative, got {temperature}."
  match p.maxTokens with
  | none => raiseIf (minTokens < 0) s!"min_tokens must be greater than or equal to 0, got {minTokens}."
  | some maxTokens =>
    raiseIf (maxTokens < 1) s!"max_tokens must be at least 1, got {maxTokens}."
    raiseIf (minTokens < 0) s!"min_tokens must be greater than or equal to 0, got {minTokens}."
    raiseIf (maxTokens < minTokens)
      s!"min_tokens must be less than or equal to max_tokens={maxTokens}, got {minTokens}."

/-- What `Processor` reads of its configuration; `maxTokenId` is the largest id of the vocabulary, if
there is a tokenizer. -/
structure Processor where
  maxModelLen : Nat
  maxTokenId : Option Nat := none
  isMultimodalModel : Bool := false

/-- A check that passes. -/
lemma raiseIf_eq_ok {c : Prop} [Decidable c] {msg : String} : raiseIf c msg = .ok () ↔ ¬ c := by
  unfold raiseIf
  split
  · next h => simp [h]
  · next h => simp [h]

/-- A sequence of checks passes if both parts do. -/
lemma bind_eq_ok {α : Type} {x : Except String Unit} {y : Except String α} {a : α} :
    (do x; y) = .ok a ↔ x = .ok () ∧ y = .ok a := by
  cases x with
  | error msg => simp [bind, Except.bind]
  | ok u => simp [bind, Except.bind]

/-- Parameters that pass: `max_tokens` is positive and not below `min_tokens`, if it is set. -/
lemma UserParams.verifyArgs_eq_ok {p : UserParams} (h : p.verifyArgs = .ok ()) {n : Int}
    (hn : p.maxTokens = some n) : 1 ≤ n ∧ p.minTokens ≤ n := by
  unfold UserParams.verifyArgs at h
  rw [hn] at h
  simp only [bind_eq_ok, raiseIf_eq_ok] at h
  omega

namespace Processor

/-- The advice of the error about a long prompt. -/
def suggestion (c : Processor) : String :=
  if c.isMultimodalModel then
    "Make sure that `max_model_len` is no smaller than the number of text tokens plus multimodal " ++
      "tokens. For image inputs, the number of image tokens depends on the number of images, and " ++
      "possibly their aspect ratios as well."
  else "Make sure that `max_model_len` is no smaller than the number of text tokens."

/-- Python `Processor._validate_model_input` on the decoder prompt. -/
def validateModelInput (c : Processor) (prompt : List Token) : Except String Unit := do
  let promptLen := prompt.length
  let maxPromptLen := c.maxModelLen
  let maxInputId := prompt.foldl max 0
  let suggestion := c.suggestion
  raiseIf (prompt = []) "The decoder prompt cannot be empty"
  raiseIf (∃ n ∈ c.maxTokenId, n < maxInputId) s!"Token id {maxInputId} is out of vocabulary"
  raiseIf (maxPromptLen < promptLen)
    s!"The decoder prompt (length {promptLen}) is longer than the maximum model length of {maxPromptLen}. {suggestion}"

/-- Python `Processor.process_inputs`: the sampling parameters the engine gets for a prompt, without the
adjustments of temperature, seed and stop ids. -/
def processInputs (c : Processor) (prompt : List Token) (p : UserParams) :
    Except String SamplingParams := do
  p.verifyArgs
  c.validateModelInput prompt
  return {
    temperature := some p.temperature
    seed := p.seed
    -- if unset, generate up to `max_model_len`
    maxTokens := match p.maxTokens with
      | some n => n.toNat
      | none => c.maxModelLen - prompt.length
    minTokens := p.minTokens.toNat
    ignoreEos := p.ignoreEos
    stopTokenIds := p.stopTokenIds
    structuredOutputs := p.structuredOutputs }

/-- The prompt and the parameters of a request are such as the processor lets pass. -/
def Admits (cfg : VllmConfig) (r : Request) : Prop :=
  ∃ c : Processor, c.maxModelLen = cfg.scheduler.maxModelLen ∧
    ∃ p, c.processInputs r.promptTokenIds p = .ok r.samplingParams

variable {cfg : VllmConfig} {r : Request}

/-- A prompt that passes is neither empty nor longer than the model. -/
lemma validateModelInput_eq_ok {c : Processor} {prompt : List Token}
    (h : c.validateModelInput prompt = .ok ()) :
    prompt ≠ [] ∧ prompt.length ≤ c.maxModelLen := by
  unfold validateModelInput at h
  simp only [bind_eq_ok, raiseIf_eq_ok] at h
  exact ⟨h.1, by omega⟩

/-- What the processor promises of an admitted request. -/
lemma Admits.spec (h : Admits cfg r) :
    r.promptTokenIds ≠ [] ∧ r.promptTokenIds.length ≤ cfg.scheduler.maxModelLen ∧
      (1 ≤ r.maxTokens ∧ r.samplingParams.minTokens ≤ r.maxTokens ∨
        r.promptTokenIds.length + r.maxTokens = cfg.scheduler.maxModelLen) := by
  obtain ⟨c, hc, p, hp⟩ := h
  rw [← hc]
  unfold processInputs at hp
  obtain ⟨hv, hm, hp⟩ := bind_eq_ok.1 hp |>.imp_right bind_eq_ok.1
  obtain ⟨hne, hle⟩ := validateModelInput_eq_ok hm
  have hsp := Except.ok.inj hp
  refine ⟨hne, hle, ?_⟩
  rw [Request.maxTokens, ← hsp]
  cases hmax : p.maxTokens with
  | none =>
    right
    dsimp only
    omega
  | some n =>
    obtain ⟨h1, h2⟩ := UserParams.verifyArgs_eq_ok hv hmax
    left
    dsimp only
    omega

end Processor
end Gambit.Frontend
