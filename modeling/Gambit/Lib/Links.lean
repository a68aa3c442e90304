import Mathlib.Data.List.Nodup
import Mathlib.Tactic.Common

/-!
# Doubly linked lists

A heap of nodes with a link each way. `Threads s p` says that the links of `s` thread the path `p` and nothing
else: the link of every node of the heap is given, also of those outside the path, which have none. The two
edits are `Threads.unlink`, which takes a segment out, and `Threads.link`, which puts one in. Each asks for the
links after the edit as functions, so it does not matter in which order they were written.

The links back are those of the reversed path, so what is shown of `after` serves both ways.
-/

namespace Gambit.Lib

/-- The links of the nodes of a heap. -/
structure Links (ν : Type*) where
  next : ν → Option ν
  prev : ν → Option ν

/-- Follow links from a node and collect the nodes, but for the one without a link. `none` when the fuel runs
out. -/
def collect {ν : Type*} (step : ν → Option ν) : Nat → ν → Option (List ν)
  | 0, _ => none
  | fuel + 1, x =>
    match step x with
    | none => some []
    | some y => (collect step fuel y).map (x :: ·)

/-- No links. -/
def Links.empty {ν : Type*} : Links ν := ⟨fun _ => none, fun _ => none⟩

@[simp] lemma Links.next_empty {ν : Type*} (n : ν) : (Links.empty : Links ν).next n = none := rfl
@[simp] lemma Links.prev_empty {ν : Type*} (n : ν) : (Links.empty : Links ν).prev n = none := rfl

variable {ν : Type*} [DecidableEq ν]

namespace Links

/-- Assign the link forward. -/
def setNext (s : Links ν) (x : ν) (y : Option ν) : Links ν := { s with next := Function.update s.next x y }

/-- Assign the link back. -/
def setPrev (s : Links ν) (x : ν) (y : Option ν) : Links ν := { s with prev := Function.update s.prev x y }

/-- Assign no link either way. -/
def clear (s : Links ν) (x : ν) : Links ν := (s.setPrev x none).setNext x none

variable (s : Links ν) (x n : ν) (y : Option ν)

@[simp] lemma next_setNext : (s.setNext x y).next n = if n = x then y else s.next n :=
  Function.update_apply s.next x y n
@[simp] lemma prev_setNext : (s.setNext x y).prev n = s.prev n := rfl
@[simp] lemma next_setPrev : (s.setPrev x y).next n = s.next n := rfl
@[simp] lemma prev_setPrev : (s.setPrev x y).prev n = if n = x then y else s.prev n :=
  Function.update_apply s.prev x y n
@[simp] lemma next_clear : (s.clear x).next n = if n = x then none else s.next n := by simp [clear]
@[simp] lemma prev_clear : (s.clear x).prev n = if n = x then none else s.prev n := by simp [clear]

end Links

/-- The node after a node on a path. -/
def after : List ν → ν → Option ν
  | x :: y :: p, n => if n = x then some y else after (y :: p) n
  | _, _ => none

variable {x y n : ν} {u v p w : List ν}

@[simp] lemma after_nil : after [] n = none := rfl
@[simp] lemma after_singleton : after [x] n = none := rfl
@[simp] lemma after_cons_cons : after (x :: y :: p) n = if n = x then some y else after (y :: p) n := rfl

lemma after_cons_of_ne (h : n ≠ x) : after (x :: p) n = after p n := by
  cases p with
  | nil => rfl
  | cons y p => rw [after_cons_cons, if_neg h]

/-- A node outside the path is before none. -/
lemma after_of_not_mem (h : n ∉ p) : after p n = none := by
  induction p with
  | nil => rfl
  | cons x p ih =>
    rw [after_cons_of_ne (List.ne_of_not_mem_cons h)]
    exact ih (List.not_mem_of_not_mem_cons h)

/-- A path is cut at one of its nodes. -/
lemma after_append (u p : List ν) (x n : ν) :
    after (u ++ x :: p) n = if n ∈ u then after (u ++ [x]) n else after (x :: p) n := by
  induction u with
  | nil => simp
  | cons a u ih =>
    -- the rest of the path starts with the same node on both sides
    obtain ⟨h, r, r', e, e'⟩ : ∃ h r r', u ++ x :: p = h :: r ∧ u ++ [x] = h :: r' := by
      cases u with
      | nil => exact ⟨x, p, [], rfl, rfl⟩
      | cons b u => exact ⟨b, u ++ x :: p, u ++ [x], rfl, rfl⟩
    rw [List.cons_append, List.cons_append, e, e', after_cons_cons, after_cons_cons, ← e, ← e', ih]
    by_cases hn : n = a
    · simp [hn]
    · simp [hn]

/-- Without a segment the node before it is followed by the one after it. -/
lemma after_unlink (hnd : (u ++ x :: (w ++ y :: v)).Nodup) (n : ν) :
    after (u ++ x :: y :: v) n =
      if n ∈ w then none else if n = x then some y else after (u ++ x :: (w ++ y :: v)) n := by
  have hu : n ∈ u → n ∉ w ∧ n ≠ x := by grind
  have hw : n ∈ w → n ∉ y :: v ∧ n ≠ x := by grind
  rw [after_append, after_append u (w ++ y :: v), after_cons_cons]
  by_cases h1 : n ∈ u
  · rw [if_pos h1, if_pos h1, if_neg (hu h1).1, if_neg (hu h1).2]
  rw [if_neg h1, if_neg h1]
  by_cases h2 : n ∈ w
  · rw [if_neg (hw h2).2, if_pos h2]
    exact after_of_not_mem (hw h2).1
  rw [if_neg h2]
  by_cases h3 : n = x
  · rw [if_pos h3, if_pos h3]
  · have hc := after_append (x :: w) v y n
    rw [if_neg (by simp [h2, h3]), List.cons_append] at hc
    rw [if_neg h3, if_neg h3, hc]

/-- A segment that is put in is followed along, and the rest of the path is as it was. -/
lemma after_link (hnd : (u ++ x :: (w ++ y :: v)).Nodup) (n : ν) :
    after (u ++ x :: (w ++ y :: v)) n =
      if n ∈ x :: w then after (x :: (w ++ [y])) n else after (u ++ x :: y :: v) n := by
  have hu : n ∈ u → n ∉ x :: w := by grind
  rw [after_append, after_append u (y :: v), after_cons_cons]
  by_cases h1 : n ∈ u
  · rw [if_pos h1, if_pos h1, if_neg (hu h1)]
  rw [if_neg h1, if_neg h1]
  have hc := after_append (x :: w) v y n
  rw [List.cons_append] at hc
  rw [hc]
  by_cases h2 : n ∈ x :: w
  · rw [if_pos h2, if_pos h2, List.cons_append]
  · rw [if_neg h2, if_neg h2, if_neg (List.ne_of_not_mem_cons h2)]

/-- A node put at each end of a path. -/
lemma after_ends {a b : ν} (hnd : p.Nodup) (ha : p.head? = some a) (hb : p.getLast? = some b) (hx : x ∉ p) (n : ν) :
    after (x :: (p ++ [y])) n = if n = b then some y else if n = x then some a else after p n := by
  obtain ⟨u, rfl⟩ : ∃ u, p = u ++ [b] := by
    obtain ⟨u, e⟩ := List.getLast?_eq_some_iff.mp hb
    exact ⟨u, e⟩
  obtain ⟨r, e⟩ : ∃ r, (u ++ [b]) ++ [y] = a :: r := by
    obtain ⟨r, e⟩ := List.head?_eq_some_iff.mp ha
    exact ⟨r ++ [y], by rw [e]; rfl⟩
  have hub : n = b → n ∉ u ∧ n ≠ x := by grind
  rw [e, after_cons_cons, ← e, List.append_assoc]
  show (if n = x then some a else after (u ++ b :: [y]) n) = _
  rw [after_append]
  by_cases h1 : n = b
  · rw [if_neg (hub h1).2, if_neg (hub h1).1, if_pos h1]
    simp [h1]
  rw [if_neg h1]
  by_cases h2 : n = x
  · rw [if_pos h2, if_pos h2]
  rw [if_neg h2, if_neg h2]
  by_cases h3 : n ∈ u
  · rw [if_pos h3]
  · rw [if_neg h3, after_of_not_mem (p := u ++ [b]) (by simp [h1, h3])]
    simp [h1]

/-- Following links that agree with a path collects it, but for its last node. -/
lemma collect_path {step : ν → Option ν} (hnd : (p ++ [y]).Nodup) (hs : ∀ n ∈ p ++ [y], step n = after (p ++ [y]) n)
    {fuel : Nat} (hf : p.length < fuel) :
    ∀ x, (p ++ [y]).head? = some x → collect step fuel x = some p := by
  induction p generalizing fuel with
  | nil =>
    intro x hx
    cases hx
    obtain ⟨fuel, rfl⟩ := Nat.exists_eq_add_one_of_ne_zero (Nat.ne_of_gt hf)
    have hy := hs y (List.mem_singleton.mpr rfl)
    simp only [List.nil_append, after_singleton] at hy
    simp only [collect, hy]
  | cons a p ih =>
    intro x hx
    cases hx
    obtain ⟨fuel, rfl⟩ := Nat.exists_eq_add_one_of_ne_zero (Nat.ne_of_gt (Nat.zero_lt_of_lt hf))
    obtain ⟨h, r, e⟩ : ∃ h r, p ++ [y] = h :: r := List.exists_cons_of_ne_nil (by simp)
    rw [List.cons_append, List.nodup_cons] at hnd
    have hstep : ∀ n ∈ p ++ [y], step n = after (p ++ [y]) n := by
      intro n hn
      have hna : n ≠ a := by
        intro en
        exact hnd.1 (en ▸ hn)
      rw [← after_cons_of_ne hna]
      exact hs n (List.mem_cons_of_mem a hn)
    have ha : step a = some h := by
      have := hs a List.mem_cons_self
      rwa [List.cons_append, e, after_cons_cons, if_pos rfl] at this
    have hc := ih hnd.2 hstep (Nat.lt_of_succ_lt_succ hf) h (by rw [e]; rfl)
    simp only [collect, ha, hc, Option.map_some]

/-- The links of the heap are those of the path, and no node outside it has one. -/
structure Threads (s : Links ν) (p : List ν) : Prop where
  next : ∀ n, s.next n = after p n
  prev : ∀ n, s.prev n = after p.reverse n

variable {s s' : Links ν}

/-- Seen from the other end the heap threads the reversed path. -/
lemma Threads.flip (h : Threads s p) : Threads ⟨s.prev, s.next⟩ p.reverse where
  next := h.prev
  prev n := by
    rw [List.reverse_reverse]
    exact h.next n

/-- Take a segment out. -/
lemma Threads.unlink (h : Threads s (u ++ x :: (w ++ y :: v))) (hnd : (u ++ x :: (w ++ y :: v)).Nodup)
    (hn : ∀ n, s'.next n = if n ∈ w then none else if n = x then some y else s.next n)
    (hp : ∀ n, s'.prev n = if n ∈ w then none else if n = y then some x else s.prev n) :
    Threads s' (u ++ x :: y :: v) where
  next n := by rw [hn, h.next, after_unlink hnd]
  prev n := by
    have hr : (v.reverse ++ y :: (w.reverse ++ x :: u.reverse)).Nodup := by
      have := List.nodup_reverse.mpr hnd
      simpa using this
    have := after_unlink hr n
    rw [hp, h.prev]
    simpa using this.symm

/-- Put a segment in. -/
lemma Threads.link (h : Threads s (u ++ x :: y :: v)) (hnd : (u ++ x :: (w ++ y :: v)).Nodup)
    (hn : ∀ n, s'.next n = if n ∈ x :: w then after (x :: (w ++ [y])) n else s.next n)
    (hp : ∀ n, s'.prev n = if n ∈ w ++ [y] then after (y :: (w.reverse ++ [x])) n else s.prev n) :
    Threads s' (u ++ x :: (w ++ y :: v)) where
  next n := by rw [hn, h.next, after_link hnd]
  prev n := by
    have hr : (v.reverse ++ y :: (w.reverse ++ x :: u.reverse)).Nodup := by
      have := List.nodup_reverse.mpr hnd
      simpa using this
    have := after_link hr n
    have hm : n ∈ w ++ [y] ↔ n ∈ y :: w.reverse := by
      simp [or_comm]
    rw [hp, h.prev]
    simp only [hm]
    simpa using this.symm

/-- From one end of the path to the other the links collect what is between. -/
lemma Threads.collect (h : Threads s (x :: (p ++ [y]))) (hnd : (x :: (p ++ [y])).Nodup) {fuel : Nat}
    (hf : p.length < fuel) : (s.next x).bind (collect s.next fuel) = some p := by
  rw [List.nodup_cons] at hnd
  have hx : s.next x = (p ++ [y]).head? := by
    rw [h.next]
    cases p <;> simp
  obtain ⟨z, r, e⟩ : ∃ z r, p ++ [y] = z :: r := List.exists_cons_of_ne_nil (by simp)
  rw [hx, e, List.head?_cons, Option.bind_some]
  apply collect_path hnd.2 _ hf z (by rw [e]; rfl)
  intro n hn
  have hnx : n ≠ x := by
    intro en
    exact hnd.1 (en ▸ hn)
  rw [h.next, after_cons_of_ne hnx]

/-- A node outside the path has no links. -/
lemma Threads.outside (h : Threads s p) (hn : n ∉ p) : s.next n = none ∧ s.prev n = none := by
  refine ⟨?_, ?_⟩
  · rw [h.next, after_of_not_mem hn]
  · rw [h.prev, after_of_not_mem (by simpa using hn)]

/-- The links of a node between two others. -/
lemma Threads.between (h : Threads s (u ++ x :: n :: y :: v)) (hnd : (u ++ x :: n :: y :: v).Nodup) :
    s.prev n = some x ∧ s.next n = some y := by
  have hu : n ∉ u ∧ n ≠ x := by grind
  have hv : n ∉ v ∧ n ≠ y := by grind
  refine ⟨?_, ?_⟩
  · have hr : (u ++ x :: n :: y :: v).reverse = v.reverse ++ y :: n :: x :: u.reverse := by simp
    rw [h.prev, hr, after_append, if_neg (by simpa using hv.1)]
    simp [hv.2]
  · rw [h.next, after_append, if_neg hu.1]
    simp [hu.2]

/-- The links of the two ends. -/
lemma Threads.first (h : Threads s (x :: y :: v)) (hnd : (x :: y :: v).Nodup) :
    s.next x = some y ∧ s.prev x = none := by
  refine ⟨?_, ?_⟩
  · rw [h.next]
    simp
  · have hr : (x :: y :: v).reverse = (y :: v).reverse ++ x :: [] := by simp
    have hx : x ∉ (y :: v).reverse := by
      rw [List.mem_reverse]
      exact (List.nodup_cons.mp hnd).1
    rw [h.prev, hr, after_append, if_neg hx]
    rfl

lemma Threads.last (h : Threads s (u ++ [x, y])) (hnd : (u ++ [x, y]).Nodup) :
    s.prev y = some x ∧ s.next y = none := by
  have hr : (u ++ [x, y]).reverse = y :: x :: u.reverse := by simp
  have hf := h.flip
  rw [hr] at hf
  apply hf.first
  rw [← hr]
  exact List.nodup_reverse.mpr hnd

end Gambit.Lib
