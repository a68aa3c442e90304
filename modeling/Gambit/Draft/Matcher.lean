import Gambit.Lib.Border
import Mathlib.Tactic.IntervalCases

/-!
# The n-gram matcher

Model of `_find_longest_matched_ngram_and_propose_tokens` in `vllm/v1/spec_decode/ngram_proposer.py`. It looks for
the longest n-gram that ends the tokens and occurs in them before, on the reversed tokens: there an occurrence is a
border of a prefix, and the loop computes the longest borders, none longer than `max_ngram`, keeping a table of
them for the first `max_ngram` prefixes only.

An index out of range and a loop that has not ended are `none`.
-/

namespace Gambit.Draft
open Gambit.Lib

variable {α : Type}

/-- The variables of the loop. -/
structure MatchState where
  lps : List Nat
  longestNgram : Nat
  position : Nat
  prevLps : Nat
  i : Nat

/-- One iteration of the loop. -/
def matchStep [DecidableEq α] (tokens : List α) (maxNgram : Nat) (s : MatchState) : Option MatchState := do
  let a ← tokens[s.prevLps]?
  let b ← tokens[s.i]?
  if a = b then
    let prevLps := s.prevLps + 1
    let lps := if s.i < maxNgram then s.lps.set s.i prevLps else s.lps
    let next := if prevLps = maxNgram then lps[maxNgram - 1]? else some prevLps
    next.map fun next =>
      { lps := lps
        longestNgram := if s.longestNgram ≤ prevLps then prevLps else s.longestNgram
        position := if s.longestNgram ≤ prevLps then s.i else s.position
        prevLps := next
        i := s.i + 1 }
  else if s.prevLps ≠ 0 then (s.lps[s.prevLps - 1]?).map fun next => { s with prevLps := next }
  else some { s with i := s.i + 1 }

/-- The loop. -/
def matchLoop [DecidableEq α] (tokens : List α) (maxNgram : Nat) : Nat → MatchState → Option MatchState
  | 0, _ => none
  | fuel + 1, s =>
    if s.i < tokens.length then (matchStep tokens maxNgram s).bind (matchLoop tokens maxNgram fuel) else some s

/-- Python `_find_longest_matched_ngram_and_propose_tokens`. -/
def findLongestMatchedNgramAndProposeTokens [DecidableEq α] (originTokens : List α) (minNgram maxNgram : Nat)
    (maxModelLen k : Int) : Option (List α) :=
  let totalToken := originTokens.length
  if totalToken < minNgram then some []
  else
    let k := min k (maxModelLen - totalToken)
    if k ≤ 0 then some []
    else do
      -- every iteration advances `i` or shortens the candidate, which `i` bounds
      let s ← matchLoop originTokens.reverse maxNgram (2 * totalToken + 1)
        { lps := List.replicate maxNgram 0, longestNgram := 0, position := 0, prevLps := 0, i := 1 }
      if s.longestNgram < minNgram then some []
      else
        let startPosition := totalToken - 1 - s.position + s.longestNgram
        let k := min k (totalToken - startPosition)
        some ((originTokens.drop startPosition).take k.toNat)

section Best
variable {t : List α} {cap i longest position v : Nat}

/-- The longest border among those of the first `i` prefixes, and the last prefix that has it. -/
structure Best (t : List α) (cap i longest position : Nat) : Prop where
  upper : ∀ j v, j < i → v ≤ j → v ≤ cap → EndsAt t v (j + 1) → v ≤ longest
  found : 0 < longest → longest ≤ position ∧ longest ≤ cap ∧ position < i ∧ EndsAt t longest (position + 1)
  last : ∀ j, position < j → j < i → 0 < longest → ¬ EndsAt t longest (j + 1)

/-- The borders of the next prefix, by the longest one. -/
lemma Best.upper_succ (h : Best t cap i longest position) (hv : LongestBorder t cap (i + 1) v) {longest' : Nat}
    (hle : longest ≤ longest') (hle' : v ≤ longest') :
    ∀ j w, j < i + 1 → w ≤ j → w ≤ cap → EndsAt t w (j + 1) → w ≤ longest' := by
  intro j w hj hw hcap hends
  rcases Nat.lt_succ_iff_lt_or_eq.1 hj with hj | rfl
  · exact (h.upper j w hj hw hcap hends).trans hle
  · exact (hv.2 ⟨Nat.lt_succ_of_le hw, hcap, hends⟩).trans hle'

/-- The next prefix has a border that is as long. -/
lemma Best.take (h : Best t cap i longest position) (hv : LongestBorder t cap (i + 1) v) (hle : longest ≤ v) :
    Best t cap (i + 1) v i where
  upper := h.upper_succ hv hle le_rfl
  found _ := ⟨Nat.le_of_lt_succ hv.1.1, hv.1.2.1, Nat.lt_succ_self i, hv.1.2.2⟩
  last _ hij hji := absurd hij (Nat.not_lt.2 (Nat.le_of_lt_succ hji))

/-- The next prefix has shorter borders only. -/
lemma Best.keep (h : Best t cap i longest position) (hv : LongestBorder t cap (i + 1) v)
    (hlt : v < longest ∨ v = 0) : Best t cap (i + 1) longest position where
  upper := h.upper_succ hv le_rfl (by omega)
  found h0 := by
    obtain ⟨h1, h2, h3, h4⟩ := h.found h0
    exact ⟨h1, h2, Nat.lt_succ_of_lt h3, h4⟩
  last j hj hji h0 := by
    obtain ⟨h1, h2, h3, -⟩ := h.found h0
    rcases Nat.lt_succ_iff_lt_or_eq.1 hji with hji | rfl
    · exact h.last j hj hji h0
    · intro hends
      have hle : longest ≤ v := hv.2 ⟨by omega, h2, hends⟩
      omega

end Best

/-- What every iteration keeps. -/
structure Tracks (t : List α) (cap : Nat) (s : MatchState) : Prop where
  le : s.i ≤ t.length
  candidate : Candidate t cap s.i s.prevLps
  length : s.lps.length = cap
  table : ∀ j, j < s.i → j < cap → ∃ v, s.lps[j]? = some v ∧ LongestBorder t cap (j + 1) v
  fresh : ∀ j, s.i ≤ j → j < cap → s.lps[j]? = some 0
  best : Best t cap s.i s.longestNgram s.position

/-- The iterations that are left are fewer than this. -/
def MatchState.rank (s : MatchState) (t : List α) : Nat := 2 * (t.length - s.i) + s.prevLps

section Loop
variable {t : List α} {cap : Nat} {s : MatchState}

/-- The table entry of a shorter prefix. -/
lemma Tracks.lookup (h : Tracks t cap s) {v : Nat} (h0 : v ≠ 0) (hv : v ≤ s.i) (hcap : v ≤ cap) :
    ∃ q, s.lps[v - 1]? = some q ∧ LongestBorder t cap v q := by
  obtain ⟨q, hq, hb⟩ := h.table (v - 1) (by omega) (by omega)
  rw [Nat.sub_add_cancel (Nat.one_le_iff_ne_zero.2 h0)] at hb
  exact ⟨q, hq, hb⟩

/-- One iteration. -/
lemma Tracks.step [DecidableEq α] (h : Tracks t cap s) (hi : s.i < t.length) :
    ∃ s', matchStep t cap s = some s' ∧ Tracks t cap s' ∧ s'.rank t < s.rank t := by
  have hp : s.prevLps < t.length := h.candidate.lt.trans hi
  unfold matchStep
  rw [List.getElem?_eq_getElem hp, List.getElem?_eq_getElem hi]
  simp only [Option.bind_eq_bind, Option.bind_some]
  by_cases he : t[s.prevLps] = t[s.i]
  · rw [if_pos he]
    have hb : LongestBorder t cap (s.i + 1) (s.prevLps + 1) :=
      h.candidate.extend hi (by rw [List.getElem?_eq_getElem hp, List.getElem?_eq_getElem hi, he])
    -- the table with the new entry
    generalize hlps : (if s.i < cap then s.lps.set s.i (s.prevLps + 1) else s.lps) = lps
    have hlen : lps.length = cap := by
      rw [← hlps]
      split
      · rw [List.length_set, h.length]
      · exact h.length
    have hget : ∀ j, j ≠ s.i → lps[j]? = s.lps[j]? := by
      intro j hj
      rw [← hlps]
      split
      · exact List.getElem?_set_ne (Ne.symm hj)
      · rfl
    have htable : ∀ j, j < s.i + 1 → j < cap → ∃ v, lps[j]? = some v ∧ LongestBorder t cap (j + 1) v := by
      intro j hj hcap
      rcases Nat.lt_succ_iff_lt_or_eq.1 hj with hj | rfl
      · rw [hget j (Nat.ne_of_lt hj)]
        exact h.table j hj hcap
      · refine ⟨s.prevLps + 1, ?_, hb⟩
        rw [← hlps, if_pos hcap, List.getElem?_set_self (by rw [h.length]; exact hcap)]
    have hfresh : ∀ j, s.i + 1 ≤ j → j < cap → lps[j]? = some 0 := by
      intro j hj hcap
      rw [hget j (by omega)]
      exact h.fresh j (by omega) hcap
    have hbest : Best t cap (s.i + 1) (if s.longestNgram ≤ s.prevLps + 1 then s.prevLps + 1 else s.longestNgram)
        (if s.longestNgram ≤ s.prevLps + 1 then s.i else s.position) := by
      split
      · next hle => exact h.best.take hb hle
      · next hlt => exact h.best.keep hb (.inl (not_le.1 hlt))
    -- the candidate for the next element
    obtain ⟨next, hnext, hcand, hle⟩ : ∃ next, (if s.prevLps + 1 = cap then lps[cap - 1]? else some (s.prevLps + 1)) =
        some next ∧ Candidate t cap (s.i + 1) next ∧ next ≤ s.prevLps + 1 := by
      by_cases hc : s.prevLps + 1 = cap
      · rw [if_pos hc]
        obtain ⟨q, hq, hbq⟩ := htable (cap - 1) (by have := h.candidate.lt; omega) (by omega)
        rw [Nat.sub_add_cancel (by omega)] at hbq
        rw [hc] at hb
        exact ⟨q, hq, hb.candidate_of_cap hbq, by rw [hc]; exact hbq.1.2.1⟩
      · rw [if_neg hc]
        exact ⟨_, rfl, hb.candidate (by have := h.candidate.below; omega), le_rfl⟩
    rw [hnext]
    refine ⟨_, rfl, ⟨hi, hcand, hlen, htable, hfresh, hbest⟩, ?_⟩
    show 2 * (t.length - (s.i + 1)) + next < 2 * (t.length - s.i) + s.prevLps
    omega
  · rw [if_neg he]
    have hne : t[s.prevLps]? ≠ t[s.i]? := by
      rw [List.getElem?_eq_getElem hp, List.getElem?_eq_getElem hi]
      exact fun h => he (Option.some.inj h)
    by_cases h0 : s.prevLps = 0
    · rw [if_neg (not_not.2 h0)]
      have hcand := h.candidate
      rw [h0] at hcand hne
      have hb := hcand.give_up hi hne
      refine ⟨_, rfl, ⟨hi, ?_, h.length, ?_, fun j hj hcap => h.fresh j (Nat.le_of_succ_le hj) hcap, h.best.keep hb (.inr rfl)⟩, ?_⟩
      · show Candidate t cap (s.i + 1) s.prevLps
        rw [h0]
        exact hb.candidate hcand.below
      · intro j hj hcap
        rcases Nat.lt_succ_iff_lt_or_eq.1 hj with hj | rfl
        · exact h.table j hj hcap
        · exact ⟨0, h.fresh s.i le_rfl hcap, hb⟩
      · show 2 * (t.length - (s.i + 1)) + s.prevLps < 2 * (t.length - s.i) + s.prevLps
        omega
    · rw [if_pos h0]
      obtain ⟨q, hq, hb⟩ := h.lookup h0 h.candidate.lt.le h.candidate.below.le
      rw [hq]
      refine ⟨_, rfl, ⟨h.le, h.candidate.fall hne hb, h.length, h.table, h.fresh, h.best⟩, ?_⟩
      show 2 * (t.length - s.i) + q < 2 * (t.length - s.i) + s.prevLps
      have := hb.1.1
      omega

/-- The loop ends at the end of the tokens. -/
lemma Tracks.loop [DecidableEq α] (h : Tracks t cap s) {fuel : Nat} (hf : s.rank t < fuel) :
    ∃ s', matchLoop t cap fuel s = some s' ∧ Best t cap t.length s'.longestNgram s'.position := by
  induction fuel generalizing s with
  | zero => exact absurd hf (Nat.not_lt_zero _)
  | succ fuel ih =>
    rw [matchLoop]
    by_cases hi : s.i < t.length
    · obtain ⟨s', hs', ht, hrank⟩ := h.step hi
      rw [if_pos hi, hs', Option.bind_some]
      exact ih ht (by omega)
    · rw [if_neg hi]
      have hbest := h.best
      rw [Nat.le_antisymm h.le (not_lt.1 hi)] at hbest
      exact ⟨s, rfl, hbest⟩

/-- The variables before the loop. -/
lemma tracks_init (hcap : 0 < cap) (ht : 0 < t.length) :
    Tracks t cap { lps := List.replicate cap 0, longestNgram := 0, position := 0, prevLps := 0, i := 1 } := by
  have hone := LongestBorder.one t cap
  have hget : ∀ j, j < cap → (List.replicate cap 0)[j]? = some 0 := fun j hj => by
    rw [List.getElem?_replicate, if_pos hj]
  refine ⟨ht, hone.candidate hcap, List.length_replicate, fun j hj hjc => ?_, fun j _ hjc => hget j hjc,
    ⟨fun j v hj hv _ _ => ?_, fun h => absurd h (Nat.lt_irrefl 0), fun j hj hj1 => ?_⟩⟩
  · obtain rfl : j = 0 := Nat.lt_one_iff.1 hj
    exact ⟨0, hget 0 hjc, hone⟩
  · exact hv.trans (Nat.le_of_lt_succ hj)
  · exact absurd hj (Nat.not_lt.2 (Nat.le_of_lt_succ hj1))

end Loop

/-- The last `n` tokens occur at a position before the one where they end the tokens. -/
def Recurs (tokens : List α) (n start : Nat) : Prop :=
  start + n < tokens.length ∧ tokens.drop (tokens.length - n) <+: tokens.drop start

/-- An occurrence is a border of a prefix of the reversed tokens. -/
lemma recurs_iff {tokens : List α} {n j : Nat} (hn : n ≤ j) (hj : j < tokens.length) :
    Recurs tokens n (tokens.length - 1 - j) ↔ EndsAt tokens.reverse n (j + 1) := by
  unfold Recurs EndsAt
  rw [List.take_reverse, List.take_reverse, List.reverse_suffix,
    show tokens.length - (j + 1) = tokens.length - 1 - j by omega]
  exact ⟨fun h => ⟨by omega, h.2⟩, fun h => ⟨by omega, h.2⟩⟩

/-- The loop ends, and has found the longest border and the last prefix with it. -/
lemma matchLoop_best [DecidableEq α] (tokens : List α) {maxNgram : Nat} (hmax : 1 ≤ maxNgram) (ht : tokens ≠ []) :
    ∃ s, matchLoop tokens.reverse maxNgram (2 * tokens.length + 1)
        { lps := List.replicate maxNgram 0, longestNgram := 0, position := 0, prevLps := 0, i := 1 } = some s ∧
      Best tokens.reverse maxNgram tokens.length s.longestNgram s.position := by
  have hpos : 0 < tokens.reverse.length := by
    rw [List.length_reverse]
    exact List.length_pos_of_ne_nil ht
  obtain ⟨s, hs, hbest⟩ := (tracks_init hmax hpos).loop (show _ < 2 * tokens.length + 1 by
    rw [MatchState.rank, List.length_reverse]
    dsimp only
    omega)
  rw [List.length_reverse] at hbest
  exact ⟨s, hs, hbest⟩

/-- The matcher returns, no more drafts than asked for and than fit in the model. -/
lemma find_longest_matched_fits [DecidableEq α] (tokens : List α) {minNgram maxNgram : Nat} (hmin : 1 ≤ minNgram)
    (hmax : minNgram ≤ maxNgram) (maxModelLen k : Int) :
    ∃ drafts, findLongestMatchedNgramAndProposeTokens tokens minNgram maxNgram maxModelLen k = some drafts ∧
      (drafts = [] ∨ (drafts.length : Int) ≤ k ∧ (tokens.length + drafts.length : Int) ≤ maxModelLen) := by
  unfold findLongestMatchedNgramAndProposeTokens
  dsimp only
  by_cases hshort : tokens.length < minNgram
  · exact ⟨[], if_pos hshort, .inl rfl⟩
  rw [if_neg hshort]
  by_cases hk : min k (maxModelLen - tokens.length) ≤ 0
  · exact ⟨[], if_pos hk, .inl rfl⟩
  rw [if_neg hk]
  obtain ⟨s, hs, -⟩ := matchLoop_best tokens (hmin.trans hmax) (fun h => hshort (h ▸ hmin))
  rw [hs]
  dsimp only [Option.bind_eq_bind, Option.bind_some]
  by_cases hfound : s.longestNgram < minNgram
  · exact ⟨[], if_pos hfound, .inl rfl⟩
  rw [if_neg hfound]
  refine ⟨_, rfl, .inr ?_⟩
  rw [List.length_take]
  omega

/-- For all tokens and all bounds, the matcher returns. It returns nothing if no n-gram within the bounds that ends
the tokens occurs in them before, or if there is no room for a draft. Else it returns the tokens after the first
occurrence of the longest such n-gram, as many as asked for, as fit in the model and as there are. -/
theorem find_longest_matched_exact [DecidableEq α] (tokens : List α) {minNgram maxNgram : Nat} (hmin : 1 ≤ minNgram)
    (hmax : minNgram ≤ maxNgram) (maxModelLen k : Int) :
    ∃ drafts, findLongestMatchedNgramAndProposeTokens tokens minNgram maxNgram maxModelLen k = some drafts ∧
      ((min k (maxModelLen - tokens.length) ≤ 0 ∨
          ∀ n start, minNgram ≤ n → n ≤ maxNgram → ¬ Recurs tokens n start) → drafts = []) ∧
      ∀ n start, IsGreatest {n | minNgram ≤ n ∧ n ≤ maxNgram ∧ ∃ start, Recurs tokens n start} n →
        IsLeast {start | Recurs tokens n start} start →
        drafts = (tokens.drop (start + n)).take
          (min (min k (maxModelLen - tokens.length)) (tokens.length - start - n)).toNat := by
  unfold findLongestMatchedNgramAndProposeTokens
  dsimp only
  by_cases hshort : tokens.length < minNgram
  · rw [if_pos hshort]
    refine ⟨[], rfl, fun _ => rfl, fun n start hn hs => ?_⟩
    have := hs.1.1
    have := hn.1.1
    omega
  rw [if_neg hshort]
  by_cases hk : min k (maxModelLen - tokens.length) ≤ 0
  · rw [if_pos hk]
    refine ⟨[], rfl, fun _ => rfl, fun n start _ _ => ?_⟩
    rw [Int.toNat_of_nonpos ((min_le_left _ _).trans hk), List.take_zero]
  rw [if_neg hk]
  obtain ⟨s, hs, hbest⟩ := matchLoop_best tokens (hmin.trans hmax) (fun h => hshort (h ▸ hmin))
  rw [hs]
  dsimp only [Option.bind_eq_bind, Option.bind_some]
  -- every occurrence within the bounds is no longer than the longest border
  have hupper : ∀ n start, n ≤ maxNgram → Recurs tokens n start → n ≤ s.longestNgram := by
    intro n start hn hr
    have hlt := hr.1
    have hr' : Recurs tokens n (tokens.length - 1 - (tokens.length - 1 - start)) := by
      rwa [show tokens.length - 1 - (tokens.length - 1 - start) = start by omega]
    exact hbest.upper (tokens.length - 1 - start) n (by omega) (by omega) hn
      ((recurs_iff (by omega) (by omega)).1 hr')
  by_cases hfound : s.longestNgram < minNgram
  · rw [if_pos hfound]
    refine ⟨[], rfl, fun _ => rfl, fun n start hn hs => ?_⟩
    obtain ⟨h1, h2, start, hr⟩ := hn.1
    have := hupper n start h2 hr
    omega
  rw [if_neg hfound]
  obtain ⟨hpos, hcap, hlt, hends⟩ := hbest.found (by omega)
  have hrec : Recurs tokens s.longestNgram (tokens.length - 1 - s.position) := (recurs_iff hpos hlt).2 hends
  refine ⟨_, rfl, fun h => ?_, fun n start hn hstart => ?_⟩
  · obtain h | h := h
    · exact absurd h hk
    · exact absurd hrec (h _ _ (not_lt.1 hfound) hcap)
  · obtain ⟨h1, h2, start', hr'⟩ := hn.1
    obtain rfl : n = s.longestNgram := Nat.le_antisymm (hupper n start' h2 hr')
      (hn.2 ⟨not_lt.1 hfound, hcap, _, hrec⟩)
    -- no earlier occurrence: it would be a later prefix with the border
    obtain rfl : start = tokens.length - 1 - s.position := by
      refine Nat.le_antisymm (hstart.2 hrec) (not_lt.1 fun hlt' => ?_)
      have hr := hstart.1
      have hr1 := hr.1
      have hr2 : Recurs tokens s.longestNgram (tokens.length - 1 - (tokens.length - 1 - start)) := by
        rwa [show tokens.length - 1 - (tokens.length - 1 - start) = start by omega]
      exact hbest.last (tokens.length - 1 - start) (by omega) (by omega) (by omega)
        ((recurs_iff (by omega) (by omega)).1 hr2)
    congr 3
    push_cast
    omega

/-- The last two of five tokens occur at the start. -/
theorem find_longest_matched_two :
    findLongestMatchedNgramAndProposeTokens [1, 2, 3, 1, 2] 1 3 100 2 = some [3, 1] := by
  have hrec : Recurs [1, 2, 3, 1, 2] 2 0 := ⟨by decide, ⟨[3, 1, 2], rfl⟩⟩
  have hthree : ∀ start, ¬ Recurs [1, 2, 3, 1, 2] 3 start := by
    rintro start ⟨hlt, hpre⟩
    have hlt' : start < 2 := Nat.lt_of_add_lt_add_right hlt
    interval_cases start <;> exact absurd hpre (by decide)
  obtain ⟨drafts, hdrafts, -, hex⟩ := find_longest_matched_exact [1, 2, 3, 1, 2] (le_refl 1)
    (show 1 ≤ 3 by decide) 100 2
  rw [hdrafts, hex 2 0 ⟨⟨by decide, by decide, 0, hrec⟩, fun n ⟨_, hn, start, hr⟩ => ?_⟩
    ⟨hrec, fun _ _ => Nat.zero_le _⟩]
  · rfl
  · refine Nat.le_of_lt_succ (lt_of_le_of_ne hn fun he => ?_)
    subst he
    exact hthree start hr

end Gambit.Draft
