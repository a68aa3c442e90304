import Mathlib.Data.List.Nodup
import Mathlib.Data.List.Count

/-!
# Marks handed over in rounds

Participants are marked at the end of a round, and the marks of those present are handed over in a later round.
`handed` is what every round hands over. A late round takes its hand off the marks only after the new marks came in,
so it drops a new mark of a participant that it hands over. Apart from these every mark is handed over once, in the
first later round in which its owner is present (`count_handed`).
-/

namespace Gambit.Lib

/-- A round: the order in which marks are visited, who is present, and who is marked at the end. -/
structure Round (α : Type*) where
  order : List α → List α
  perm : ∀ l, (order l).Perm l
  present : List α
  marked : List α

namespace Round
variable {α : Type*} [BEq α] [LawfulBEq α] (r : Round α)

/-- The marks handed over. -/
def due (M : List α) : List α := (r.order M).filter (· ∈ r.present)

/-- The marks `s` and the marks `l`. -/
def insertAll (s l : List α) : List α := l.foldl (fun s x => s.insert x) s

/-- The marks after the round. -/
def next (late : Bool) (M : List α) : List α :=
  if late then (insertAll M r.marked).filter (· ∉ r.due M)
  else insertAll (M.filter (· ∉ r.due M)) r.marked

/-- The marks after some rounds. -/
def marks (late : Bool) (M : List α) (rs : List (Round α)) : List α := rs.foldl (fun M r => r.next late M) M

/-- What every round hands over. -/
def handed (late : Bool) : List α → List (Round α) → List (List α)
  | _, [] => []
  | M, r :: rs => r.due M :: handed late (r.next late M) rs

variable {late : Bool}

lemma marks_concat (M : List α) (rs : List (Round α)) : marks late M (rs ++ [r]) = r.next late (marks late M rs) :=
  List.foldl_concat ..

lemma handed_concat (M : List α) (rs : List (Round α)) :
    handed late M (rs ++ [r]) = handed late M rs ++ [r.due (marks late M rs)] := by
  induction rs generalizing M with
  | nil => rfl
  | cons r' rs ih => exact congrArg (r'.due M :: ·) (ih (r'.next late M))

variable {r} {M : List α} {x : α} {rs : List (Round α)}

lemma mem_due : x ∈ r.due M ↔ x ∈ M ∧ x ∈ r.present := by
  rw [due, List.mem_filter, (r.perm M).mem_iff, decide_eq_true_iff]

lemma mem_insertAll {s l : List α} : x ∈ insertAll s l ↔ x ∈ s ∨ x ∈ l := by
  induction l generalizing s with
  | nil => exact (or_iff_left List.not_mem_nil).symm
  | cons y l ih =>
    have hstep : x ∈ insertAll s (y :: l) ↔ x ∈ s.insert y ∨ x ∈ l := ih
    rw [hstep, List.mem_insert_iff, List.mem_cons]
    constructor
    · rintro ((h | h) | h)
      · exact .inr (.inl h)
      · exact .inl h
      · exact .inr (.inr h)
    · rintro (h | h | h)
      · exact .inl (.inr h)
      · exact .inl (.inl h)
      · exact .inr h

lemma nodup_insertAll {s l : List α} (h : s.Nodup) : (insertAll s l).Nodup := by
  induction l generalizing s with
  | nil => exact h
  | cons y l ih => exact ih h.insert

/-- A mark stays if its owner is absent; a new mark comes in unless a late round drops it. -/
lemma mem_next : x ∈ r.next late M ↔
    x ∈ M ∧ x ∉ r.present ∨ x ∈ r.marked ∧ ¬ (late = true ∧ x ∈ r.due M) := by
  cases late with
  | false =>
    have hnext : r.next false M = insertAll (M.filter (· ∉ r.due M)) r.marked := rfl
    rw [hnext, mem_insertAll, List.mem_filter, decide_eq_true_iff, mem_due]
    refine or_congr (and_congr_right fun h => not_congr (and_iff_right h)) ?_
    exact (and_iff_left fun h => Bool.false_ne_true h.1).symm
  | true =>
    have hnext : r.next true M = (insertAll M r.marked).filter (· ∉ r.due M) := rfl
    rw [hnext, List.mem_filter, mem_insertAll, decide_eq_true_iff]
    constructor
    · rintro ⟨h | h, hno⟩
      · exact .inl ⟨h, fun hp => hno (mem_due.2 ⟨h, hp⟩)⟩
      · exact .inr ⟨h, fun hd => hno hd.2⟩
    · rintro (⟨h, hp⟩ | ⟨h, hno⟩)
      · exact ⟨.inl h, fun hd => hp (mem_due.1 hd).2⟩
      · exact ⟨.inr h, fun hd => hno ⟨rfl, hd⟩⟩

lemma nodup_next (h : M.Nodup) : (r.next late M).Nodup := by
  cases late with
  | false => exact nodup_insertAll (h.filter _)
  | true => exact (nodup_insertAll h).filter _

/-- The owner of a mark is handed over once, any other not at all. -/
lemma count_due (h : M.Nodup) (hp : x ∈ r.present) : (r.due M).count x = if x ∈ M then 1 else 0 := by
  split
  · next hx =>
    have hnd : (r.due M).Nodup := ((r.perm M).nodup_iff.2 h).filter _
    exact List.count_eq_one_of_mem hnd (mem_due.2 ⟨hx, hp⟩)
  · next hx => exact List.count_eq_zero_of_not_mem fun hd => hx (mem_due.1 hd).1

/-- Who is not present keeps or lacks a mark until the first round in which it is. -/
lemma count_handed_of_wait {k : Nat} (h : M.Nodup) (hk : rs[k]? = some r) (hp : x ∈ r.present)
    (hwait : ∀ l < k, ∀ r', rs[l]? = some r' → x ∉ r'.present ∧ x ∉ r'.marked) :
    ∃ ids, (handed late M rs)[k]? = some ids ∧ ids.count x = if x ∈ M then 1 else 0 := by
  induction k generalizing M rs with
  | zero =>
    cases rs with
    | nil => cases hk
    | cons r' rs =>
      cases hk
      exact ⟨r.due M, rfl, count_due h hp⟩
  | succ k ih =>
    cases rs with
    | nil => cases hk
    | cons r' rs =>
      obtain ⟨hout, hno⟩ := hwait 0 k.succ_pos r' rfl
      have hkeep : x ∈ r'.next late M ↔ x ∈ M := by
        rw [mem_next, or_iff_left fun h => hno h.1]
        exact and_iff_left hout
      obtain ⟨ids, hids, hcount⟩ := ih (M := r'.next late M) (nodup_next h) hk fun l hl r'' hr'' =>
        hwait (l + 1) (Nat.succ_lt_succ hl) r'' hr''
      exact ⟨ids, hids, hcount.trans (if_congr hkeep rfl rfl)⟩

/-- A mark is handed over once, in the first later round in which its owner is present, unless a late round dropped
it. -/
theorem count_handed {j k : Nat} {r' : Round α} (h : M.Nodup) (hj : rs[j]? = some r') (hx : x ∈ r'.marked)
    (hjk : j < k) (hk : rs[k]? = some r) (hp : x ∈ r.present)
    (hwait : ∀ l, j < l → l < k → ∀ r'', rs[l]? = some r'' → x ∉ r''.present ∧ x ∉ r''.marked) :
    ∃ ids ids', (handed late M rs)[j]? = some ids ∧ (handed late M rs)[k]? = some ids' ∧
      ids'.count x = if late = true ∧ x ∈ ids then 0 else 1 := by
  induction j generalizing M rs k with
  | zero =>
    cases rs with
    | nil => cases hj
    | cons r₀ rs =>
      cases hj
      cases k with
      | zero => cases hjk
      | succ k =>
        have hk' : rs[k]? = some r := hk
        have hnd : (r'.next late M).Nodup := nodup_next h
        obtain ⟨ids', hids', hcount⟩ := count_handed_of_wait hnd hk' hp fun l hl r'' hr'' =>
          hwait (l + 1) l.succ_pos (Nat.succ_lt_succ hl) r'' hr''
        refine ⟨r'.due M, ids', rfl, hids', hcount.trans ?_⟩
        by_cases hdrop : late = true ∧ x ∈ r'.due M
        · rw [if_pos hdrop]
          apply if_neg
          rw [mem_next]
          rintro (⟨-, hout⟩ | ⟨-, hno⟩)
          · exact hout (mem_due.1 hdrop.2).2
          · exact hno hdrop
        · rw [if_neg hdrop]
          exact if_pos (mem_next.2 (.inr ⟨hx, hdrop⟩))
  | succ j ih =>
    cases rs with
    | nil => cases hj
    | cons r₀ rs =>
      cases k with
      | zero => cases hjk
      | succ k =>
        apply ih (nodup_next h) hj (Nat.lt_of_succ_lt_succ hjk) hk
        intro l hl hlk r'' hr''
        exact hwait (l + 1) (Nat.succ_lt_succ hl) (Nat.succ_lt_succ hlk) r'' hr''

/-- Nobody marks or hands over an absent participant. -/
lemma mem_marks_of_absent (hout : ∀ r ∈ rs, x ∉ r.present ∧ x ∉ r.marked) : x ∈ marks late M rs ↔ x ∈ M := by
  induction rs generalizing M with
  | nil => exact Iff.rfl
  | cons r rs ih =>
    obtain ⟨hp, hm⟩ := hout r List.mem_cons_self
    have hnext : x ∈ r.next late M ↔ x ∈ M := by
      rw [mem_next, or_iff_left fun h => hm h.1]
      exact and_iff_left hp
    exact (ih fun r' hr' => hout r' (List.mem_cons_of_mem r hr')).trans hnext

/-- Who leaves after a round keeps the mark of that round, unless a late round dropped it. -/
theorem mem_marks_of_left {j : Nat} {ids : List α} (hj : rs[j]? = some r) (hp : x ∈ r.present)
    (hids : (handed late M rs)[j]? = some ids)
    (hout : ∀ l, j < l → ∀ r', rs[l]? = some r' → x ∉ r'.present ∧ x ∉ r'.marked) :
    x ∈ marks late M rs ↔ x ∈ r.marked ∧ ¬ (late = true ∧ x ∈ ids) := by
  induction j generalizing M rs with
  | zero =>
    cases rs with
    | nil => cases hj
    | cons r₀ rs =>
      cases hj
      cases hids
      have hrest : x ∈ marks late (r.next late M) rs ↔ x ∈ r.next late M := by
        apply mem_marks_of_absent
        intro r' hr'
        obtain ⟨l, hl⟩ := List.mem_iff_getElem?.1 hr'
        exact hout (l + 1) l.succ_pos r' hl
      have hgone : ¬ (x ∈ M ∧ x ∉ r.present) := fun h => h.2 hp
      exact hrest.trans (mem_next.trans (or_iff_right hgone))
  | succ j ih =>
    cases rs with
    | nil => cases hj
    | cons r₀ rs =>
      apply ih hj hids
      intro l hl r' hr'
      exact hout (l + 1) (Nat.succ_lt_succ hl) r' hr'

/-- What is not taken off can come in before or after. -/
lemma filter_insertAll {l s out : List α} (h : ∀ x ∈ l, x ∉ out) :
    (insertAll s l).filter (· ∉ out) = insertAll (s.filter (· ∉ out)) l := by
  induction l generalizing s with
  | nil => rfl
  | cons y l ih =>
    have hy : y ∉ out := h y List.mem_cons_self
    have hone : (s.insert y).filter (· ∉ out) = (s.filter (· ∉ out)).insert y := by
      by_cases hm : y ∈ s
      · have hm' : y ∈ s.filter (· ∉ out) := List.mem_filter.2 ⟨hm, decide_eq_true hy⟩
        rw [List.insert_of_mem hm, List.insert_of_mem hm']
      · have hm' : y ∉ s.filter (· ∉ out) := fun h => hm (List.mem_filter.1 h).1
        rw [List.insert_of_not_mem hm, List.insert_of_not_mem hm']
        exact List.filter_cons_of_pos (decide_eq_true hy)
    show (insertAll (s.insert y) l).filter (· ∉ out) = insertAll ((s.filter (· ∉ out)).insert y) l
    rw [ih fun x hx => h x (List.mem_cons_of_mem y hx), hone]

/-- A late round that marks nobody it hands over is like any other. -/
lemma next_late (h : ∀ x ∈ r.marked, x ∉ r.due M) : r.next true M = r.next false M := filter_insertAll h

/-- Late rounds that mark nobody they hand over hand over what any others do. -/
theorem handed_late (h : ∀ (j : Nat) (r : Round α) (ids : List α), rs[j]? = some r → (handed true M rs)[j]? = some ids → ∀ x ∈ r.marked, x ∉ ids) :
    handed true M rs = handed false M rs := by
  induction rs generalizing M with
  | nil => rfl
  | cons r rs ih =>
    have hnext : r.next true M = r.next false M := next_late (h 0 r (r.due M) rfl rfl)
    have hrest : handed true (r.next true M) rs = handed false (r.next true M) rs :=
      ih fun j r' ids hj hids => h (j + 1) r' ids hj hids
    show r.due M :: handed true (r.next true M) rs = r.due M :: handed false (r.next false M) rs
    rw [hrest, hnext]

end Round
end Gambit.Lib
