import Gambit.Bench.Pools
import Mathlib.Data.List.MinMax
import Mathlib.Data.Rat.Defs

/-!
# The majority vote of sampled answers

Model of `_estimate_pass_majority_and_tokens_at_k` in `compute_pass_at_n`. The votes of a trial are counted on
the answers as they are written; `_norm_answer_for_compare` is only applied to the winner and to the ground
truth. `none` models a raised error.

The generator of `random` is a parameter. The rates are rational numbers, before they are rounded.
-/

namespace Gambit.Bench
open Gambit.Lib Utf8

/-- What is used of `random`. -/
structure Random (σ : Type) where
  seeded : Int → σ
  sample : σ → List Nat → Int → Option (List Nat × σ)

/-- The dictionaries `counts` and `first_pos` of a trial. -/
structure Votes where
  counts : Dict (List Nat) Nat
  firstPos : Dict (List Nat) Nat

/-- The votes before the first answer. -/
def Votes.empty : Votes := ⟨∅, ∅⟩

/-- Count one more answer, which is at position `pos` of the sample. -/
def Votes.add (v : Votes) (pos : Nat) (ans : List Nat) : Votes :=
  if ans ∉ v.counts then ⟨v.counts.set ans 1, v.firstPos.set ans pos⟩
  else { v with counts := v.counts.modify ans (· + 1) }

/-- Is the key `(counts[a], -first_pos[a])` greater than that of `b`? -/
def Votes.Better (v : Votes) (a b : List Nat) : Prop :=
  v.counts.getD b 0 < v.counts.getD a 0 ∨
    v.counts.getD b 0 = v.counts.getD a 0 ∧ -(v.firstPos.getD b 0 : Int) < -(v.firstPos.getD a 0 : Int)

instance (v : Votes) : DecidableRel v.Better := fun _ _ => inferInstanceAs (Decidable (_ ∨ _))

/-- `best_ans`, when there is one: the first key of `counts` to which none is better. -/
def Votes.best (v : Votes) : Option (List Nat) := v.counts.keys.foldl (List.argAux v.Better) none

/-- The loop over the sample that counts the votes. -/
def countVotes (poolAnswers : List (Option (List Nat))) : Nat → Votes → List Nat → Option Votes
  | _, v, [] => some v
  | pos, v, i :: picked =>
    match poolAnswers[i]? with
    | none => none
    | some none => countVotes poolAnswers (pos + 1) v picked
    | some (some ans) => countVotes poolAnswers (pos + 1) (v.add pos ans) picked

/-- The winner of a sample. -/
def winner (poolAnswers : List (Option (List Nat))) (picked : List Nat) : Option (Option (List Nat)) :=
  (countVotes poolAnswers 0 .empty picked).map Votes.best

/-- A pool, and what is sampled from it. -/
structure Sampling where
  poolCorrect : List Bool
  poolTokens : List Int
  groundTruth : Option (List Nat)
  k : Int
  trials : Int
  seed : Int

/-- The variables of the loop over the trials. -/
structure Trials (σ : Type) where
  rng : σ
  passSuccesses : Nat
  mvSuccesses : Nat
  tokenSum : Int

/-- The three results. -/
structure Rates where
  pass : ℚ
  majorityVote : ℚ
  avgTokenSum : ℚ

section
variable {σ : Type} (I : Interpreter) (R : Random σ) (poolAnswers : List (Option (List Nat))) (S : Sampling)

/-- Does the winner of a sample agree with the ground truth? -/
def majorityCorrect (picked : List Nat) : Option Bool :=
  match S.groundTruth with
  | none => some false
  | some gt => do
    match ← winner poolAnswers picked with
    | none => some false
    | some best =>
      let b ← normAnswerForCompare I.chars I.tables I.maxDigits (some best)
      let g ← normAnswerForCompare I.chars I.tables I.maxDigits (some gt)
      some (b == g)

/-- One trial. -/
def trial (t : Trials σ) : Option (Trials σ) := do
  let m := S.poolCorrect.length
  let (picked, rng) ← R.sample t.rng (List.range m) (min S.k m)
  let anyCorrect ← picked.anyM fun i => S.poolCorrect[i]?
  let tokens ← picked.mapM fun i => S.poolTokens[i]?
  let mv ← majorityCorrect I poolAnswers S picked
  some ⟨rng, t.passSuccesses + anyCorrect.toNat, t.mvSuccesses + mv.toNat, t.tokenSum + tokens.sum⟩

/-- The loop over the trials. -/
def runTrials : Nat → Trials σ → Option (Trials σ)
  | 0, t => some t
  | n + 1, t => (trial I R poolAnswers S t).bind (runTrials n)

/-- `_estimate_pass_majority_and_tokens_at_k`. -/
def estimatePassMajorityAndTokensAtK : Option Rates :=
  if S.poolCorrect = [] then some ⟨0, 0, 0⟩
  else do
    let t ← runTrials I R poolAnswers S S.trials.toNat ⟨R.seeded S.seed, 0, 0, 0⟩
    if S.trials = 0 then none
    else some ⟨t.passSuccesses / S.trials, t.mvSuccesses / S.trials, t.tokenSum / S.trials⟩

end

/-- What is found at the positions of a sample; `none` is out of range. -/
def ballots (poolAnswers : List (Option (List Nat))) (picked : List Nat) : List (Option (Option (List Nat))) :=
  picked.map fun i => poolAnswers[i]?

/-- The votes of an answer in a sample, counted on the answers as they are written. -/
def votesFor (poolAnswers : List (Option (List Nat))) (picked : List Nat) (a : List Nat) : Nat :=
  (ballots poolAnswers picked).count (some (some a))

/-- Where an answer is first found in a sample. -/
def firstFor (poolAnswers : List (Option (List Nat))) (picked : List Nat) (a : List Nat) : Nat :=
  (ballots poolAnswers picked).idxOf (some (some a))

variable {v v' : Votes} {bs : List (Option (Option (List Nat)))} {poolAnswers : List (Option (List Nat))}
  {picked : List Nat}

/-- The dictionaries hold the votes and the first positions in what was read. -/
structure Votes.Of (v : Votes) (bs : List (Option (Option (List Nat)))) : Prop where
  counts : ∀ a, v.counts.get? a = if some (some a) ∈ bs then some (bs.count (some (some a))) else none
  firstPos : ∀ a, v.firstPos.get? a = if some (some a) ∈ bs then some (bs.idxOf (some (some a))) else none

lemma Votes.Of.nil : Votes.empty.Of [] where
  counts _ := rfl
  firstPos _ := rfl

lemma Votes.Of.mem_iff (h : v.Of bs) {a : List Nat} : a ∈ v.counts ↔ some (some a) ∈ bs := by
  rw [Dict.mem_iff_get?, h.counts]
  split <;> simp [*]

/-- Another ballot at the end leaves the first position of an answer. -/
lemma idxOf_other {b c : Option (Option (List Nat))} (hb : b ≠ c) :
    (if b ∈ bs ++ [c] then some ((bs ++ [c]).idxOf b) else none) =
      if b ∈ bs then some (bs.idxOf b) else none := by
  simp only [List.mem_append, List.mem_singleton, hb, or_false]
  split
  · rw [List.idxOf_append_of_mem ‹_›]
  · rfl

/-- Another ballot at the end leaves the votes of an answer. -/
lemma count_other {b c : Option (Option (List Nat))} (hb : b ≠ c) :
    (if b ∈ bs ++ [c] then some ((bs ++ [c]).count b) else none) =
      if b ∈ bs then some (bs.count b) else none := by
  simp only [List.mem_append, List.mem_singleton, hb, or_false, List.count_append,
    List.count_singleton, beq_eq_false_iff_ne.mpr hb.symm, Bool.false_eq_true, if_false, Nat.add_zero]

/-- An answer that is `None` is not counted. -/
lemma Votes.Of.skip (h : v.Of bs) : v.Of (bs ++ [some none]) where
  counts a := by rw [h.counts, count_other (by simp)]
  firstPos a := by rw [h.firstPos, idxOf_other (by simp)]

lemma Votes.Of.add (h : v.Of bs) (ans : List Nat) : (v.add bs.length ans).Of (bs ++ [some (some ans)]) := by
  have hother : ∀ {a}, a ≠ ans → (some (some a) : Option (Option (List Nat))) ≠ some (some ans) := by
    intro a e he
    exact e (Option.some.inj (Option.some.inj he))
  unfold Votes.add
  split
  next hm =>
    rw [h.mem_iff] at hm
    constructor
    · intro a
      rw [Dict.get?_set, h.counts]
      by_cases e : a = ans
      · subst e
        simp [List.count_append, List.count_eq_zero.mpr hm]
      · rw [if_neg e, count_other (hother e)]
    · intro a
      rw [Dict.get?_set, h.firstPos]
      by_cases e : a = ans
      · subst e
        simp [List.idxOf_append_of_notMem hm]
      · rw [if_neg e, idxOf_other (hother e)]
  next hm =>
    rw [h.mem_iff, not_not] at hm
    constructor
    · intro a
      rw [Dict.get?_modify, h.counts]
      by_cases e : a = ans
      · subst e
        simp [hm, List.count_append]
      · rw [if_neg e, count_other (hother e)]
    · intro a
      rw [h.firstPos]
      by_cases e : a = ans
      · subst e
        simp [hm, List.idxOf_append_of_mem hm]
      · rw [idxOf_other (hother e)]

/-- The loop raises on a position out of range, and otherwise counts the whole sample. -/
lemma countVotes_spec (poolAnswers : List (Option (List Nat))) (picked : List Nat) (h : v.Of bs) :
    (none ∈ ballots poolAnswers picked ∧ countVotes poolAnswers bs.length v picked = none) ∨
    (none ∉ ballots poolAnswers picked ∧
      ∃ v', countVotes poolAnswers bs.length v picked = some v' ∧ v'.Of (bs ++ ballots poolAnswers picked)) := by
  induction picked generalizing v bs with
  | nil =>
    refine .inr ⟨List.not_mem_nil, v, rfl, ?_⟩
    rw [show ballots poolAnswers [] = [] from rfl, List.append_nil]
    exact h
  | cons i picked ih =>
    have hb : ballots poolAnswers (i :: picked) = poolAnswers[i]? :: ballots poolAnswers picked := rfl
    rw [hb]
    cases hi : poolAnswers[i]? with
    | none =>
      refine .inl ⟨List.mem_cons_self, ?_⟩
      simp only [countVotes, hi]
    | some ans =>
      -- the votes after this answer, which the rest of the loop starts from
      obtain ⟨v1, h1, e1⟩ : ∃ v1 : Votes, v1.Of (bs ++ [some ans]) ∧
          countVotes poolAnswers bs.length v (i :: picked) = countVotes poolAnswers (bs.length + 1) v1 picked := by
        cases ans with
        | none => exact ⟨v, h.skip, by simp only [countVotes, hi]⟩
        | some ans => exact ⟨_, h.add ans, by simp only [countVotes, hi]⟩
      have hl : (bs ++ [some ans]).length = bs.length + 1 := by simp
      have hn : none ∈ some ans :: ballots poolAnswers picked ↔ none ∈ ballots poolAnswers picked := by simp
      have ih1 := ih h1
      rw [hl, List.append_assoc] at ih1
      rw [hn, e1]
      exact ih1

/-- The winner of a sample: no answer has more votes, and one with as many is first found later. -/
def Wins (bs : List (Option (Option (List Nat)))) : Option (List Nat) → Prop
  | none => ∀ a, some (some a) ∉ bs
  | some w => some (some w) ∈ bs ∧ ∀ a, some (some a) ∈ bs →
      bs.count (some (some a)) < bs.count (some (some w)) ∨
      bs.count (some (some a)) = bs.count (some (some w)) ∧ bs.idxOf (some (some w)) ≤ bs.idxOf (some (some a))

lemma Wins.unique {r r' : Option (List Nat)} (h : Wins bs r) (h' : Wins bs r') : r = r' := by
  cases r with
  | none =>
    cases r' with
    | none => rfl
    | some w' => exact absurd h'.1 (h w')
  | some w =>
    cases r' with
    | none => exact absurd h.1 (h' w)
    | some w' =>
      have he : bs.idxOf (some (some w)) = bs.idxOf (some (some w')) := by
        have := h.2 w' h'.1
        have := h'.2 w h.1
        omega
      simpa using (List.idxOf_inj h.1).mp he

/-- What the search for the best key returns is one of the keys. -/
lemma mem_of_foldl_argAux {α : Type} {r : α → α → Prop} [DecidableRel r] {l : List α} {o : Option α} {m : α}
    (h : l.foldl (List.argAux r) o = some m) : m ∈ l ∨ o = some m := by
  induction l generalizing o with
  | nil => exact .inr h
  | cons a l ih =>
    cases ih h with
    | inl hm => exact .inl (List.mem_cons_of_mem _ hm)
    | inr hm =>
      cases o with
      | none =>
        cases hm
        exact .inl List.mem_cons_self
      | some c =>
        simp only [List.argAux] at hm
        split at hm
        · cases hm
          exact .inl List.mem_cons_self
        · exact .inr hm

lemma Votes.better_irrefl (v : Votes) : Std.Irrefl v.Better where
  irrefl a h := by
    unfold Votes.Better at h
    omega

lemma Votes.better_trans (v : Votes) : IsTrans (List Nat) v.Better where
  trans a b c h h' := by
    unfold Votes.Better at h h' ⊢
    omega

/-- The best key is the winner. -/
lemma Votes.Of.wins (h : v.Of bs) : Wins bs v.best := by
  have hget : ∀ a, some (some a) ∈ bs →
      v.counts.getD a 0 = bs.count (some (some a)) ∧ v.firstPos.getD a 0 = bs.idxOf (some (some a)) := by
    intro a ha
    simp [Dict.getD_eq, h.counts, h.firstPos, ha]
  cases hw : v.best with
  | none =>
    intro a ha
    have hk := ((List.foldl_argAux_eq_none _).mp hw).1
    have := h.mem_iff.mpr ha
    rw [Dict.mem_def, hk] at this
    exact List.not_mem_nil this
  | some w =>
    have hm : some (some w) ∈ bs := by
      cases mem_of_foldl_argAux hw with
      | inl hm => exact h.mem_iff.mp hm
      | inr hm => cases hm
    refine ⟨hm, ?_⟩
    intro a ha
    have hn := List.not_of_mem_foldl_argAux v.Better v.better_irrefl v.better_trans (h.mem_iff.mpr ha) hw
    unfold Votes.Better at hn
    obtain ⟨hca, hfa⟩ := hget a ha
    obtain ⟨hcw, hfw⟩ := hget w hm
    omega

/-- The winner of a sample, unless a position of it is out of range. -/
lemma winner_spec (poolAnswers : List (Option (List Nat))) (picked : List Nat) :
    (none ∈ ballots poolAnswers picked ∧ winner poolAnswers picked = none) ∨
    (none ∉ ballots poolAnswers picked ∧
      ∃ r, winner poolAnswers picked = some r ∧ Wins (ballots poolAnswers picked) r) := by
  obtain ⟨hn, e⟩ | ⟨hn, v, e, hv⟩ := countVotes_spec poolAnswers picked Votes.Of.nil
  · refine .inl ⟨hn, ?_⟩
    rw [winner, show (0 : Nat) = ([] : List (Option (Option (List Nat)))).length from rfl, e]
    rfl
  · refine .inr ⟨hn, v.best, ?_, hv.wins⟩
    rw [winner, show (0 : Nat) = ([] : List (Option (Option (List Nat)))).length from rfl, e]
    rfl

section
variable {f : List Nat → List Nat}

/-- Different answers of the sample are renamed to different texts. -/
def Apart (f : List Nat → List Nat) (bs : List (Option (Option (List Nat)))) : Prop :=
  ∀ a b, some (some a) ∈ bs → some (some b) ∈ bs → f a = f b → a = b

/-- The answer of a ballot, renamed. -/
def rename (f : List Nat → List Nat) : Option (Option (List Nat)) → Option (Option (List Nat)) :=
  Option.map (Option.map f)

lemma ballots_map (f : List Nat → List Nat) (poolAnswers : List (Option (List Nat))) (picked : List Nat) :
    ballots (poolAnswers.map (Option.map f)) picked = (ballots poolAnswers picked).map (rename f) := by
  simp [ballots, rename]

lemma rename_eq_iff (hf : Apart f bs) {a : List Nat} (ha : some (some a) ∈ bs) {b : Option (Option (List Nat))}
    (hb : b ∈ bs) : rename f b = some (some (f a)) ↔ b = some (some a) := by
  constructor
  · intro e
    match b with
    | none => cases e
    | some none => cases e
    | some (some c) => rw [hf c a hb ha (Option.some.inj (Option.some.inj e))]
  · intro e
    rw [e]
    rfl

lemma count_rename (hf : Apart f bs) {a : List Nat} (ha : some (some a) ∈ bs) :
    (bs.map (rename f)).count (some (some (f a))) = bs.count (some (some a)) := by
  rw [List.count, List.count, List.countP_map]
  apply List.countP_congr
  intro b hb
  simp [rename_eq_iff hf ha hb]

lemma idxOf_rename (hf : Apart f bs) {a : List Nat} (ha : some (some a) ∈ bs) :
    (bs.map (rename f)).idxOf (some (some (f a))) = bs.idxOf (some (some a)) := by
  have hb : ∀ b ∈ bs, rename f b = some (some (f a)) ↔ b = some (some a) := fun b hb => rename_eq_iff hf ha hb
  clear hf ha
  induction bs with
  | nil => rfl
  | cons b bs ih =>
    have hhd := hb b List.mem_cons_self
    have htl := ih fun b' hb' => hb b' (List.mem_cons_of_mem b hb')
    rw [List.map_cons, List.idxOf_cons, List.idxOf_cons, htl]
    simp only [beq_eq_decide, hhd]

/-- The renamed winner wins among the renamed answers. -/
lemma Wins.rename (hf : Apart f bs) {r : Option (List Nat)} (h : Wins bs r) :
    Wins (bs.map (rename f)) (r.map f) := by
  have hmem : ∀ a, some (some a) ∈ bs.map (Bench.rename f) → ∃ c, some (some c) ∈ bs ∧ a = f c := by
    intro a ha
    obtain ⟨b, hb, e⟩ := List.mem_map.mp ha
    match b with
    | none => cases e
    | some none => cases e
    | some (some c) => exact ⟨c, hb, (Option.some.inj (Option.some.inj e)).symm⟩
  cases r with
  | none =>
    intro a ha
    obtain ⟨c, hc, -⟩ := hmem a ha
    exact h c hc
  | some w =>
    refine ⟨List.mem_map_of_mem h.1, ?_⟩
    intro a ha
    obtain ⟨c, hc, rfl⟩ := hmem a ha
    rw [count_rename hf hc, count_rename hf h.1, idxOf_rename hf hc, idxOf_rename hf h.1]
    exact h.2 c hc

/-- Renaming the answers apart renames the winner. -/
lemma winner_map (hf : Apart f (ballots poolAnswers picked)) :
    winner (poolAnswers.map (Option.map f)) picked = (winner poolAnswers picked).map (Option.map f) := by
  have hn : none ∈ ballots (poolAnswers.map (Option.map f)) picked ↔ none ∈ ballots poolAnswers picked := by
    rw [ballots_map, List.mem_map]
    constructor
    · rintro ⟨b, hb, e⟩
      cases b with
      | none => exact hb
      | some b => cases e
    · intro hb
      exact ⟨none, hb, rfl⟩
  obtain ⟨h, e⟩ | ⟨h, r, e, hr⟩ := winner_spec poolAnswers picked
  · obtain ⟨-, e'⟩ | ⟨h', -⟩ := winner_spec (poolAnswers.map (Option.map f)) picked
    · rw [e, e']
      rfl
    · exact absurd (hn.mpr h) h'
  · obtain ⟨h', -⟩ | ⟨-, r', e', hr'⟩ := winner_spec (poolAnswers.map (Option.map f)) picked
    · exact absurd (hn.mp h') h
    · rw [ballots_map] at hr'
      rw [e, e', hr'.unique (hr.rename hf)]
      rfl

variable {σ : Type} {I : Interpreter} {R : Random σ} {S : Sampling}

lemma majorityCorrect_map (hf : Apart f (ballots poolAnswers picked))
    (hnorm : ∀ a, some a ∈ poolAnswers → normAnswerForCompare I.chars I.tables I.maxDigits (some (f a)) =
      normAnswerForCompare I.chars I.tables I.maxDigits (some a)) :
    majorityCorrect I (poolAnswers.map (Option.map f)) S picked = majorityCorrect I poolAnswers S picked := by
  unfold majorityCorrect
  cases S.groundTruth with
  | none => rfl
  | some gt =>
    simp only [winner_map hf]
    obtain ⟨-, e⟩ | ⟨-, r, e, hr⟩ := winner_spec poolAnswers picked
    · rw [e]
      rfl
    · rw [e]
      cases r with
      | none => rfl
      | some w =>
        have hw : some w ∈ poolAnswers := by
          obtain ⟨i, -, hi⟩ := List.mem_map.mp hr.1
          exact List.mem_of_getElem? hi
        show ((normAnswerForCompare I.chars I.tables I.maxDigits (some (f w))).bind fun b => _) = _
        rw [hnorm w hw]
        rfl

lemma trial_map (hf : ∀ a b, some a ∈ poolAnswers → some b ∈ poolAnswers → f a = f b → a = b)
    (hnorm : ∀ a, some a ∈ poolAnswers → normAnswerForCompare I.chars I.tables I.maxDigits (some (f a)) =
      normAnswerForCompare I.chars I.tables I.maxDigits (some a)) :
    trial I R (poolAnswers.map (Option.map f)) S = trial I R poolAnswers S := by
  have hapart : ∀ picked, Apart f (ballots poolAnswers picked) := by
    intro picked a b ha hb
    obtain ⟨i, -, hi⟩ := List.mem_map.mp ha
    obtain ⟨j, -, hj⟩ := List.mem_map.mp hb
    exact hf a b (List.mem_of_getElem? hi) (List.mem_of_getElem? hj)
  funext t
  simp only [trial, majorityCorrect_map (hapart _) hnorm]

lemma runTrials_map (h : trial I R (poolAnswers.map (Option.map f)) S = trial I R poolAnswers S) (n : Nat)
    (t : Trials σ) : runTrials I R (poolAnswers.map (Option.map f)) S n t = runTrials I R poolAnswers S n t := by
  induction n generalizing t with
  | zero => rfl
  | succ n ih =>
    unfold runTrials
    rw [h]
    congr 1
    funext t'
    exact ih t'

end

/-- The winner has as many votes as any answer, and is found before any other that has as many. -/
lemma votesFor_winner {w : List Nat} (h : winner poolAnswers picked = some (some w)) (a : List Nat) :
    votesFor poolAnswers picked a ≤ votesFor poolAnswers picked w ∧
      (votesFor poolAnswers picked a = votesFor poolAnswers picked w →
        firstFor poolAnswers picked w ≤ firstFor poolAnswers picked a) := by
  obtain ⟨-, e⟩ | ⟨-, r, e, hr⟩ := winner_spec poolAnswers picked
  · rw [h] at e
    cases e
  · rw [h] at e
    cases e
    unfold votesFor firstFor
    by_cases ha : some (some a) ∈ ballots poolAnswers picked
    · have := hr.2 a ha
      omega
    · rw [List.count_eq_zero.mpr ha]
      have := List.count_pos_iff.mpr hr.1
      omega

/-- The vote respects the equality of texts. Renaming the answers of a pool apart, each to one that is compared
in the same way, leaves all three results, and no text has more votes in a sample than the winner. -/
theorem majority_respects_texts {σ : Type} (I : Interpreter) (R : Random σ) (S : Sampling)
    (poolAnswers : List (Option (List Nat))) (f : List Nat → List Nat)
    (hapart : ∀ a b, some a ∈ poolAnswers → some b ∈ poolAnswers → f a = f b → a = b)
    (hnorm : ∀ a, some a ∈ poolAnswers → normAnswerForCompare I.chars I.tables I.maxDigits (some (f a)) =
      normAnswerForCompare I.chars I.tables I.maxDigits (some a)) :
    estimatePassMajorityAndTokensAtK I R (poolAnswers.map (Option.map f)) S =
      estimatePassMajorityAndTokensAtK I R poolAnswers S ∧
    ∀ picked w, winner poolAnswers picked = some (some w) → ∀ a,
      votesFor poolAnswers picked a ≤ votesFor poolAnswers picked w ∧
      (votesFor poolAnswers picked a = votesFor poolAnswers picked w →
        firstFor poolAnswers picked w ≤ firstFor poolAnswers picked a) := by
  refine ⟨?_, fun picked w h => votesFor_winner h⟩
  unfold estimatePassMajorityAndTokensAtK
  simp only [runTrials_map (trial_map hapart hnorm)]

/-- The votes of an answer, counted up to how answers are compared. -/
def votesUpToNorm (I : Interpreter) (poolAnswers : List (Option (List Nat))) (picked : List Nat)
    (a : List Nat) : Nat :=
  (ballots poolAnswers picked).countP fun b =>
    b.any fun ans => normAnswerForCompare I.chars I.tables I.maxDigits ans =
      normAnswerForCompare I.chars I.tables I.maxDigits (some a)

/-- Texts of ASCII characters, and the usual limit on digits. -/
def voteInterpreter : Interpreter := ⟨.ascii, .ascii, 4300⟩

/-- A generator that samples from the front. -/
def fromFront : Random Unit where
  seeded _ := ()
  sample _ l k := if 0 ≤ k ∧ k ≤ l.length then some (l.take k.toNat, ()) else none

/-- Three answers that are right, written in three ways, and two that are wrong. -/
def splitPool : List (Option (List Nat)) :=
  ["70", "5", "5", "070", "0070"].map fun s => some (points s.toList)

def splitSampling : Sampling where
  poolCorrect := [true, false, false, true, true]
  poolTokens := [10, 10, 10, 10, 10]
  groundTruth := some (points "70".toList)
  k := 5
  trials := 1
  seed := 0

theorem majority_respects_texts_split :
    estimatePassMajorityAndTokensAtK voteInterpreter fromFront (splitPool.map (Option.map (· ++ [32])))
        splitSampling = estimatePassMajorityAndTokensAtK voteInterpreter fromFront splitPool splitSampling ∧
      votesFor splitPool [0, 1, 2, 3, 4] (points "70".toList) ≤
        votesFor splitPool [0, 1, 2, 3, 4] (points "5".toList) := by
  have h := majority_respects_texts voteInterpreter fromFront splitSampling splitPool (· ++ [32])
    (fun a b _ _ e => List.append_cancel_right e) (by
      have : ∀ b ∈ splitPool, ∀ a ∈ b, normAnswerForCompare .ascii .ascii 4300 (some (a ++ [32])) =
          normAnswerForCompare .ascii .ascii 4300 (some a) := by decide
      intro a ha
      exact this _ ha a rfl)
  exact ⟨h.1, (h.2 [0, 1, 2, 3, 4] (points "5".toList) (by decide) _).1⟩

/-- A right answer that is written in several ways loses to a wrong one with fewer votes, and wins when one of
them is written as another. -/
theorem majority_splits_votes :
    normAnswerForCompare .ascii .ascii 4300 (some (points "070".toList)) =
      normAnswerForCompare .ascii .ascii 4300 (some (points "70".toList)) ∧
    splitPool[3]? = some (some (points "070".toList)) ∧
    (estimatePassMajorityAndTokensAtK voteInterpreter fromFront splitPool splitSampling).map (·.majorityVote) ≠
      (estimatePassMajorityAndTokensAtK voteInterpreter fromFront
        (splitPool.set 3 (some (points "70".toList))) splitSampling).map (·.majorityVote) ∧
    winner splitPool [0, 1, 2, 3, 4] = some (some (points "5".toList)) ∧
    votesUpToNorm voteInterpreter splitPool [0, 1, 2, 3, 4] (points "5".toList) <
      votesUpToNorm voteInterpreter splitPool [0, 1, 2, 3, 4] (points "70".toList) := by
  refine ⟨by decide, by decide, by decide +kernel, by decide, by decide⟩

end Gambit.Bench
