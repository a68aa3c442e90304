import Gambit.Sched.Update

/-!
# The worker's boundary trigger

Model of the part of `GPUModelRunner.sample_tokens` in `vllm/v1/worker/gpu_model_runner.py` that marks
requests for capture in the next forward pass. It only runs with `gambit_config.enable` and when tokens were
sampled; both are left to the callers.
-/

namespace Gambit.Worker
open Gambit.Lib Gambit.Sched

/-- The requests marked by `sample_tokens`: all of them in stride mode, else those that sampled a
boundary token. The gate `gambit_config.enable and valid_sampled_token_ids` around it is left out. -/
def triggerReqIds (cfg : VllmConfig) (out : ModelRunnerOutput) : List ReqId :=
  if 0 < cfg.gambit.scoringStride then out.keys
  else
    (out.entries.filter fun o =>
      match cfg.gambit.doubleNewLineTokenId with
      | some ids => !ids.isEmpty && o.2.any (· ∈ ids)
      | none => false).map Prod.fst

/-- Without a stride the marked requests are those that sampled a boundary token. -/
lemma mem_triggerReqIds {cfg : VllmConfig} {out : ModelRunnerOutput} {rid : ReqId} {ids : List Token}
    (hs : cfg.gambit.scoringStride = 0) (hids : cfg.gambit.doubleNewLineTokenId = some ids) :
    rid ∈ triggerReqIds cfg out ↔ ∃ ts, out.get? rid = some ts ∧ ∃ t ∈ ts, t ∈ ids := by
  have hstride : ¬ 0 < cfg.gambit.scoringStride := by omega
  simp only [triggerReqIds, if_neg hstride, hids, List.mem_map, List.mem_filter]
  constructor
  · rintro ⟨o, ⟨ho, hb⟩, rfl⟩
    rw [Bool.and_eq_true, List.any_eq_true] at hb
    obtain ⟨t, ht, hm⟩ := hb.2
    exact ⟨o.2, Dict.get?_eq_some.2 ho, t, ht, of_decide_eq_true hm⟩
  · rintro ⟨ts, hts, t, ht, hm⟩
    refine ⟨(rid, ts), ⟨Dict.get?_eq_some.1 hts, ?_⟩, rfl⟩
    rw [Bool.and_eq_true, List.any_eq_true]
    refine ⟨?_, t, ht, decide_eq_true hm⟩
    cases ids with
    | nil => cases hm
    | cons _ _ => rfl

end Gambit.Worker
