import Gambit.Worker.LogitsProcs
import Gambit.Worker.Isolation

/-!
# Replaying the log of a step

The logits processors see a step only through its log: the added requests, then the holes that were not
refilled, then the moves. `replay` is what such a log does to a column of values, for any type of value.
The log of an update, replayed on the column of the batch before it, gives the column of the batch after
it, so that updating the state of a processor is the same as building it from the batch.
-/

namespace Gambit.Worker
open Gambit.Lib
open InputBatch (swapValues swapValues_apply)

section Replay
variable {α β : Type} (z : α) (put : SamplingParams × Nat → α)

/-- A move, with `z` for the value of an empty row. -/
def replayMove (f : Nat → α) : Nat × Nat × MoveDirectionality → Nat → α
  | (a, b, .swap) => swapValues f a b
  | (a, b, .unidirectional) => Function.update (Function.update f a z) b (f a)

/-- The column after the added requests. -/
def replayAdded (added : List (Nat × SamplingParams × Nat)) (f : Nat → α) : Nat → α :=
  added.foldl (fun f e => Function.update f e.1 (put e.2)) f

/-- The column after the holes. -/
def replayRemoved (removed : List Nat) (f : Nat → α) : Nat → α :=
  removed.foldl (fun f i => Function.update f i z) f

/-- The column after a log. -/
def replay (log : BatchUpdateBuilder) (f : Nat → α) : Nat → α :=
  log.moved.foldl (replayMove z) (replayRemoved z log.removed (replayAdded put log.added f))

variable {z put}

/-- The holes are empty. -/
lemma replayRemoved_apply (removed : List Nat) (f : Nat → α) (j : Nat) :
    replayRemoved z removed f j = if j ∈ removed then z else f j := by
  induction removed generalizing f with
  | nil => simp [replayRemoved]
  | cons i l ih =>
    have hstep : replayRemoved z (i :: l) f = replayRemoved z l (Function.update f i z) := rfl
    rw [hstep, ih, Function.update_apply]
    by_cases hj : j ∈ l
    · rw [if_pos hj, if_pos (List.mem_cons_of_mem i hj)]
    · rw [if_neg hj]
      by_cases hji : j = i
      · rw [if_pos hji, if_pos (hji ▸ List.mem_cons_self)]
      · rw [if_neg hji, if_neg (by simp [hji, hj])]

/-- A move of columns commutes with a map of values. -/
lemma replayMove_comp (g : α → β) (f : Nat → α) (mv : Nat × Nat × MoveDirectionality) :
    g ∘ replayMove z f mv = replayMove (g z) (g ∘ f) mv := by
  obtain ⟨a, b, direct⟩ := mv
  cases direct with
  | swap => simp only [replayMove, swapValues, Function.comp_update, Function.comp_apply]
  | unidirectional => simp only [replayMove, Function.comp_update, Function.comp_apply]

/-- Replaying commutes with a map of values. -/
lemma replay_comp (g : α → β) (log : BatchUpdateBuilder) (f : Nat → α) :
    g ∘ replay z put log f = replay (g z) (g ∘ put) log (g ∘ f) := by
  have hadd : ∀ (l : List (Nat × SamplingParams × Nat)) (f : Nat → α),
      g ∘ replayAdded put l f = replayAdded (g ∘ put) l (g ∘ f) := by
    intro l
    induction l with
    | nil => exact fun f => rfl
    | cons e l ih =>
      intro f
      have hstep := ih (Function.update f e.1 (put e.2))
      rw [Function.comp_update] at hstep
      exact hstep
  have hrem : ∀ (l : List Nat) (f : Nat → α),
      g ∘ replayRemoved z l f = replayRemoved (g z) l (g ∘ f) := by
    intro l f
    funext j
    rw [Function.comp_apply, replayRemoved_apply, replayRemoved_apply, Function.comp_apply, apply_ite g]
  have hmove : ∀ (l : List (Nat × Nat × MoveDirectionality)) (f : Nat → α),
      g ∘ l.foldl (replayMove z) f = l.foldl (replayMove (g z)) (g ∘ f) := by
    intro l
    induction l with
    | nil => exact fun f => rfl
    | cons mv l ih =>
      intro f
      have hstep := ih (replayMove z f mv)
      rw [replayMove_comp] at hstep
      exact hstep
  rw [replay, replay, hmove, hrem, hadd]

/-- Holes and moves leave an empty column empty. -/
lemma replay_empty (removed : List Nat) (moved : List (Nat × Nat × MoveDirectionality)) :
    moved.foldl (replayMove z) (replayRemoved z removed fun _ => z) = fun _ => z := by
  have hrem : replayRemoved z removed (fun _ => z) = fun _ => z := by
    funext j
    rw [replayRemoved_apply, ite_self]
  rw [hrem]
  induction moved with
  | nil => rfl
  | cons mv l ih =>
    have hmv : replayMove z (fun _ => z) mv = fun _ => z := by
      obtain ⟨a, b, direct⟩ := mv
      funext j
      cases direct with
      | swap => simp [replayMove, swapValues_apply]
      | unidirectional => simp [replayMove, Function.update_apply]
    rw [List.foldl_cons, hmv]
    exact ih

/-- Moves of other rows leave a row alone. -/
lemma foldl_replayMove_update {moved : List (Nat × Nat × MoveDirectionality)} {k : Nat}
    (hk : ∀ mv ∈ moved, mv.1 ≠ k ∧ mv.2.1 ≠ k) (f : Nat → α) (x : α) :
    moved.foldl (replayMove z) (Function.update f k x) =
      Function.update (moved.foldl (replayMove z) f) k x := by
  induction moved generalizing f with
  | nil => rfl
  | cons mv l ih =>
    obtain ⟨ha, hb⟩ := hk mv List.mem_cons_self
    have hmv : replayMove z (Function.update f k x) mv = Function.update (replayMove z f mv) k x := by
      obtain ⟨a, b, direct⟩ := mv
      dsimp only at ha hb
      cases direct with
      | swap =>
        simp only [replayMove, swapValues, Function.update_of_ne ha, Function.update_of_ne hb]
        rw [Function.update_comm hb, Function.update_comm ha]
      | unidirectional =>
        simp only [replayMove, Function.update_of_ne ha]
        rw [Function.update_comm ha.symm, Function.update_comm hb]
    rw [List.foldl_cons, hmv]
    exact ih (fun mv hmv => hk mv (List.mem_cons_of_mem _ hmv)) _

end Replay

section Sparse
variable {T : Type} {newState : SamplingParams → Nat → Option T}

lemma get?_setEntry (d : Dict Nat T) (i j : Nat) (v : Option T) :
    (setEntry d i v).get? j = if j = i ∧ v.isSome then v else d.get? j := by
  cases v with
  | none => simp [setEntry]
  | some v =>
    rw [setEntry, Dict.get?_set]
    simp

/-- A move in a dictionary is a move of its column. -/
lemma get?_moveEntry (d : Dict Nat T) (mv : Nat × Nat × MoveDirectionality) :
    (moveEntry d mv).get? = replayMove none d.get? mv := by
  obtain ⟨a, b, direct⟩ := mv
  funext j
  -- the dictionary after the entry of row `a` was put into row `b`
  have hput : (setEntry ((d.erase a).erase b) b (d.get? a)).get? j =
      if j = b then d.get? a else if j = a then none else d.get? j := by
    rw [get?_setEntry, Dict.get?_erase, Dict.get?_erase]
    cases d.get? a with
    | none => simp
    | some v =>
      by_cases hj : j = b
      · simp [hj]
      · simp [hj]
  cases direct with
  | unidirectional =>
    rw [moveEntry, hput]
    simp only [replayMove, Function.update_apply]
  | swap =>
    rw [moveEntry, get?_setEntry, hput, Dict.get?_erase]
    simp only [replayMove, swapValues_apply]
    by_cases hjb : j = b
    · by_cases hab : b = a
      · simp [hjb, hab]
      · simp [hjb, hab]
    · by_cases hja : j = a
      · have hba : b ≠ a := fun h => hjb (hja.trans h.symm)
        rw [if_neg hba, if_neg hjb, if_neg hjb, if_pos hja, if_pos hja]
        cases d.get? b <;> simp [hja]
      · simp [hja, hjb]

/-- A sparse processor replays the log on its dictionary. -/
lemma get?_processDictUpdates (d : Dict Nat T) (u : BatchUpdateBuilder) :
    (processDictUpdates d (some u) newState).get? =
      replay none (fun e => newState e.1 e.2) u d.get? := by
  have hadd : ∀ (l : List (Nat × SamplingParams × Nat)) (d : Dict Nat T),
      (addEntries newState d l).get? = replayAdded (fun e => newState e.1 e.2) l d.get? := by
    intro l
    induction l with
    | nil => exact fun d => rfl
    | cons e l ih =>
      intro d
      have hput : (InputBatch.putOrPop d e.1 (newState e.2.1 e.2.2)).get? =
          Function.update d.get? e.1 (newState e.2.1 e.2.2) := by
        funext j
        rw [InputBatch.get?_putOrPop, Function.update_apply]
      have hstep := ih (InputBatch.putOrPop d e.1 (newState e.2.1 e.2.2))
      rw [hput] at hstep
      exact hstep
  have hrem : ∀ (l : List Nat) (d : Dict Nat T),
      (l.foldl (fun d i => d.erase i) d).get? = replayRemoved none l d.get? := by
    intro l
    induction l with
    | nil => exact fun d => rfl
    | cons i l ih =>
      intro d
      have herase : (d.erase i).get? = Function.update d.get? i none := by
        funext j
        rw [Dict.get?_erase, Function.update_apply]
      have hstep := ih (d.erase i)
      rw [herase] at hstep
      exact hstep
  have hmove : ∀ (l : List (Nat × Nat × MoveDirectionality)) (d : Dict Nat T),
      (l.foldl moveEntry d).get? = l.foldl (replayMove none) d.get? := by
    intro l
    induction l with
    | nil => exact fun d => rfl
    | cons mv l ih =>
      intro d
      have hstep := ih (moveEntry d mv)
      rw [get?_moveEntry] at hstep
      exact hstep
  unfold processDictUpdates replay
  dsimp only
  split
  · next h0 =>
    -- the early exit on an empty dictionary
    have hempty : addEntries newState d u.added = ∅ := Dict.ext (List.length_eq_zero_iff.1 h0)
    have hcol : replayAdded (fun e => newState e.1 e.2) u.added d.get? = fun _ => none := by
      rw [← hadd, hempty]
      rfl
    rw [hcol, replay_empty, hempty]
    rfl
  · rw [hmove, hrem, hadd]

end Sparse

namespace MinP

lemma rowValue_zero : rowValue 0 = 0 := BinaryFormat.round_zero _

lemma rowValue_rowValue (x : ℚ) : rowValue (rowValue x) = rowValue x := BinaryFormat.round_round _ (by decide) x

/-- The count is the number of nonzero rows, and the rows are in single precision. -/
structure Counts (m : MinP) : Prop where
  rounded : ∀ i, rowValue (m.cpu i) = m.cpu i
  count : ∃ s : Finset Nat, (∀ i, i ∈ s ↔ m.cpu i ≠ 0) ∧ m.count = s.card

variable {m : MinP} {u : BatchUpdateBuilder}

/-- A count of zero is an empty column. -/
lemma Counts.cpu_eq_zero (h : m.Counts) (h0 : m.count = 0) : m.cpu = fun _ => 0 := by
  obtain ⟨s, hs, hcard⟩ := h.count
  have hempty : s = ∅ := by
    rw [← Finset.card_eq_zero]
    omega
  funext i
  by_contra hne
  have hi := (hs i).2 hne
  rw [hempty] at hi
  cases hi

/-- What a value contributes to the count. -/
def weight (x : ℚ) : Int := if x = 0 then 0 else 1

@[simp] lemma weight_zero : weight 0 = 0 := rfl

lemma weight_of_ne {x : ℚ} (h : x ≠ 0) : weight x = 1 := if_neg h

/-- Writing a row changes the count by its old and its new value. -/
lemma Counts.write (h : m.Counts) (i : Nat) {v : ℚ} (hv : rowValue v = v) :
    Counts { cpu := Function.update m.cpu i v, count := m.count + weight v - weight (m.cpu i) } := by
  obtain ⟨s, hs, hcard⟩ := h.count
  refine ⟨fun j => ?_, if v = 0 then s.erase i else insert i s, fun j => ?_, ?_⟩
  · dsimp only
    rw [Function.update_apply]
    split
    · exact hv
    · exact h.rounded j
  · dsimp only
    rw [Function.update_apply]
    split <;> by_cases hj : j = i <;> simp_all
  · dsimp only
    have hi := hs i
    by_cases hv : v = 0
    · rw [if_pos hv, hv]
      by_cases hc : m.cpu i = 0
      · rw [hc, Finset.erase_eq_of_notMem (by rw [hi]; exact not_not.2 hc)]
        omega
      · rw [weight_of_ne hc, Finset.card_erase_of_mem (hi.2 hc)]
        have hpos : 0 < s.card := Finset.card_pos.2 ⟨i, hi.2 hc⟩
        rw [weight_zero]
        omega
    · rw [if_neg hv, weight_of_ne hv]
      by_cases hc : m.cpu i = 0
      · rw [hc, weight_zero, Finset.card_insert_of_notMem (by rw [hi]; exact not_not.2 hc)]
        omega
      · rw [weight_of_ne hc, Finset.insert_eq_of_mem (hi.2 hc)]
        omega

/-- Two states with the same column and count. -/
lemma Counts.congr {m' : MinP} (h : m.Counts) (hcpu : m'.cpu = m.cpu) (hcount : m'.count = m.count) :
    m'.Counts := by
  obtain ⟨hr, hc⟩ := h
  refine ⟨?_, ?_⟩
  · rw [hcpu]
    exact hr
  · rw [hcpu, hcount]
    exact hc

/-- A value above half of the least positive number of the row is not lost. -/
lemma rowValue_eq_zero_iff {x : ℚ} (h : x = 0 ∨ 1 / 2 ^ 150 < x) : rowValue x = 0 ↔ x = 0 := by
  rcases h with rfl | h
  · exact iff_of_true rowValue_zero rfl
  · have hhalf : (2 : ℚ) ^ BinaryFormat.binary32.minExponent / 2 < x := by
      refine lt_of_eq_of_lt ?_ h
      decide +kernel
    have hpos := BinaryFormat.binary32.round_pos hhalf (by decide)
    have hx : 0 < x := lt_trans (by positivity) h
    exact iff_of_false hpos.ne' hx.ne'

/-- A row that is not found to differ holds the value already. -/
lemma eq_rowValue_of_not_differs {before x : ℚ} (h : m.differs before x = false)
    (hx : rowValue before = before) : before = rowValue x := by
  unfold differs at h
  split at h
  · rw [← of_not_not (of_decide_eq_false h), hx]
  · exact of_not_not (of_decide_eq_false h)

/-- The step for an added request writes its row. -/
lemma Counts.add (h : m.Counts) (e : Nat × SamplingParams × Nat) (he : e.2.1.minP = 0 ∨ 1 / 2 ^ 150 < e.2.1.minP) :
    (m.add e).Counts ∧ (m.add e).cpu = Function.update m.cpu e.1 (rowValue e.2.1.minP) := by
  have hzero := rowValue_eq_zero_iff he
  unfold MinP.add
  dsimp only
  split
  · refine ⟨(h.write e.1 (rowValue_rowValue e.2.1.minP)).congr rfl ?_, rfl⟩
    by_cases h0 : e.2.1.minP = 0
    · by_cases hb : m.cpu e.1 = 0
      · simp [h0, hb, rowValue_zero]
      · simp [h0, hb, rowValue_zero, weight_of_ne]
    · by_cases hb : m.cpu e.1 = 0
      · simp [h0, hb, weight_of_ne (mt hzero.1 h0)]
      · simp [h0, hb, weight_of_ne, weight_of_ne (mt hzero.1 h0)]
  · next hsame =>
    rw [← eq_rowValue_of_not_differs (Bool.eq_false_iff.2 hsame) (h.rounded e.1), Function.update_eq_self]
    exact ⟨h, rfl⟩

/-- The step for a hole clears its row. -/
lemma Counts.remove (h : m.Counts) (i : Nat) :
    (m.remove i).Counts ∧ (m.remove i).cpu = Function.update m.cpu i 0 := by
  unfold MinP.remove
  split
  · next he =>
    rw [← he, Function.update_eq_self]
    exact ⟨h, rfl⟩
  · next hne =>
    refine ⟨(h.write i rowValue_zero).congr rfl ?_, rfl⟩
    simp [weight_of_ne hne]

/-- The step for a move of different rows moves the value. -/
lemma Counts.move (h : m.Counts) (mv : Nat × Nat × MoveDirectionality)
    (hne : mv.2.2 = .unidirectional → mv.1 ≠ mv.2.1) :
    (m.move mv).Counts ∧ (m.move mv).cpu = replayMove 0 m.cpu mv := by
  obtain ⟨a, b, direct⟩ := mv
  cases direct with
  | unidirectional =>
    have hab : a ≠ b := hne rfl
    have hcpu : (m.move (a, b, .unidirectional)).cpu = replayMove 0 m.cpu (a, b, .unidirectional) := by
      funext j
      simp only [MinP.move, replayMove, Function.update_apply]
      by_cases ha : m.cpu a = 0
      · by_cases hj : j = b
        · simp only [hj, ha, if_true]
          by_cases hb : 0 = m.cpu b
          · rw [if_pos hb, ← hb]
          · rw [if_neg hb, Function.update_self]
        · rw [if_pos ha, if_neg hj]
          by_cases hja : j = a
          · rw [if_pos hja]
            split
            · rw [hja, ha]
            · rw [Function.update_of_ne hj, hja, ha]
          · rw [if_neg hja]
            split
            · rfl
            · rw [Function.update_of_ne hj]
      · rw [if_neg ha]
        by_cases hja : j = a
        · rw [hja, Function.update_self, if_neg hab, if_pos rfl]
        · rw [Function.update_of_ne hja, if_neg hja]
          by_cases hj : j = b
          · rw [if_pos hj, hj]
            split
            · next he => exact he.symm
            · rw [Function.update_self]
          · rw [if_neg hj]
            split
            · rfl
            · rw [Function.update_of_ne hj]
    refine ⟨?_, hcpu⟩
    -- clear `a`, then write its old value to `b`
    have hwrite := (h.write a rowValue_zero).write b (h.rounded a)
    dsimp only at hwrite
    rw [Function.update_of_ne hab.symm] at hwrite
    refine hwrite.congr hcpu ?_
    simp only [MinP.move]
    by_cases hb : m.cpu b = 0
    · rw [if_pos hb, hb, weight_zero]
      omega
    · rw [if_neg hb, weight_of_ne hb, weight_zero]
      omega
  | swap =>
    have hcpu : (m.move (a, b, .swap)).cpu = replayMove 0 m.cpu (a, b, .swap) := by
      funext j
      simp only [MinP.move, replayMove, swapValues_apply]
      by_cases heq : m.cpu a = m.cpu b
      · rw [if_pos heq]
        split
        · next hj => rw [hj, heq]
        · split
          · next hj => rw [hj, heq]
          · rfl
      · rw [if_neg heq, Function.update_apply, Function.update_apply]
        by_cases hj : j = b
        · have hba : b ≠ a := fun hba => heq (by rw [hba])
          rw [if_pos hj, if_pos hj, if_neg (hj ▸ hba)]
        · rw [if_neg hj, if_neg hj]
    refine ⟨?_, hcpu⟩
    by_cases hab : a = b
    · refine h.congr ?_ rfl
      rw [hcpu, hab]
      funext j
      simp only [replayMove, swapValues_apply]
      split
      · next hj => rw [hj]
      · rfl
    · have hwrite := (h.write a (h.rounded b)).write b (h.rounded a)
      dsimp only at hwrite
      rw [Function.update_of_ne (Ne.symm hab)] at hwrite
      refine hwrite.congr ?_ ?_
      · rw [hcpu]
        rfl
      · simp only [MinP.move]
        omega

/-- A loop of steps that keep the count replays its list. -/
lemma Counts.foldl {ι : Type} {step : MinP → ι → MinP} {col : (Nat → ℚ) → ι → Nat → ℚ} {l : List ι}
    (h : m.Counts) (hstep : ∀ m e, e ∈ l → m.Counts → (step m e).Counts ∧ (step m e).cpu = col m.cpu e) :
    (l.foldl step m).Counts ∧ (l.foldl step m).cpu = l.foldl col m.cpu := by
  induction l generalizing m with
  | nil => exact ⟨h, rfl⟩
  | cons e l ih =>
    obtain ⟨hc, hcpu⟩ := hstep m e List.mem_cons_self h
    rw [List.foldl_cons, List.foldl_cons, ← hcpu]
    exact ih hc fun m e' he => hstep m e' (List.mem_cons_of_mem _ he)

/-- The processor of `min_p` replays the log on its column, and keeps the count. -/
lemma Counts.updateState (h : m.Counts)
    (hadded : ∀ e ∈ u.added, e.2.1.minP = 0 ∨ 1 / 2 ^ 150 < e.2.1.minP)
    (hne : ∀ mv ∈ u.moved, mv.2.2 = .unidirectional → mv.1 ≠ mv.2.1) :
    (m.updateState (some u)).Counts ∧
      (m.updateState (some u)).cpu = replay 0 (fun e => rowValue e.1.minP) u m.cpu := by
  obtain ⟨hadd, hcadd⟩ : (u.added.foldl MinP.add m).Counts ∧
      (u.added.foldl MinP.add m).cpu = replayAdded (fun e => rowValue e.1.minP) u.added m.cpu :=
    h.foldl fun m e he hm => hm.add e (hadded e he)
  obtain ⟨hrem, hcrem⟩ : (u.removed.foldl MinP.remove (u.added.foldl MinP.add m)).Counts ∧
      (u.removed.foldl MinP.remove (u.added.foldl MinP.add m)).cpu =
        replayRemoved 0 u.removed (u.added.foldl MinP.add m).cpu :=
    hadd.foldl fun m i _ hm => hm.remove i
  unfold MinP.updateState replay
  dsimp only
  split
  · next h0 =>
    refine ⟨hadd, ?_⟩
    rw [← hcadd, hadd.cpu_eq_zero h0, replay_empty]
  · rw [← hcadd, ← hcrem]
    exact hrem.foldl fun m mv hmv hm => hm.move mv (hne mv hmv)

end MinP

end Gambit.Worker
