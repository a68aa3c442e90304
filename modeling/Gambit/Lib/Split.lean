import Gambit.Lib.Dict

/-!
# Splitting a list

Three ways to split a list, none of which loses an element or doubles one: into strides (Python `l[i::n]`), into the
lists that a `defaultdict(list)` gathers by a key, and, for a table of rows that may differ in length, into the columns.
-/

namespace Gambit.Lib

variable {α β : Type*}

/-- Python `l[i::n]` for `i < n`. -/
def stride (l : List α) (i n : Nat) : List α := (l.zipIdx.filter fun p => p.2 % n = i).map Prod.fst

/-- The elements of some rows at one index, without the rows that are too short. -/
def column (rows : List (List α)) (i : Nat) : List α := rows.filterMap (·[i]?)

/-- The first components gathered by the second ones (Python `d[b].append(a)` over a list of pairs). -/
def gather [DecidableEq β] (l : List (α × β)) : Dict β (List α) :=
  l.foldl (fun d e => d.set e.2 (d.getD e.2 [] ++ [e.1])) ∅

/-- Of the keys exactly one is that of an element. -/
lemma flatMap_ite_eq [DecidableEq β] {keys : List β} (hk : keys.Nodup) {b : β} (hb : b ∈ keys) (a : α) :
    (keys.flatMap fun k => if b = k then [a] else []) = [a] := by
  induction keys with
  | nil => cases hb
  | cons k keys ih =>
    rw [List.nodup_cons] at hk
    rw [List.flatMap_cons]
    by_cases h : b = k
    · have hnil : (keys.flatMap fun k' => if b = k' then [a] else []) = [] := by
        apply List.flatMap_eq_nil_iff.2
        intro k' hk'
        apply if_neg
        rintro rfl
        exact hk.1 (h ▸ hk')
      rw [if_pos h, hnil, List.append_nil]
    · rw [if_neg h, List.nil_append]
      exact ih hk.2 ((List.mem_cons.1 hb).resolve_left h)

/-- The fibers of a function over all its values are the list. -/
lemma fibers_perm [DecidableEq β] {keys : List β} (hk : keys.Nodup) {f : α → β} {l : List α} (hf : ∀ a ∈ l, f a ∈ keys) :
    (keys.flatMap fun k => l.filter fun a => f a = k).Perm l := by
  induction l with
  | nil =>
    have hnil : (keys.flatMap fun k => ([] : List α).filter fun a => f a = k) = [] :=
      List.flatMap_eq_nil_iff.2 fun _ _ => rfl
    rw [hnil]
  | cons a l ih =>
    have hcons : ∀ k, ((a :: l).filter fun a => f a = k) = (if f a = k then [a] else []) ++ l.filter fun a => f a = k := by
      intro k
      rw [List.filter_cons]
      by_cases h : f a = k <;> simp [h]
    calc (keys.flatMap fun k => (a :: l).filter fun a => f a = k)
        = keys.flatMap fun k => (if f a = k then [a] else []) ++ l.filter fun a => f a = k :=
          congrArg (keys.flatMap ·) (funext hcons)
      _ |>.Perm ((keys.flatMap fun k => if f a = k then [a] else []) ++ keys.flatMap fun k => l.filter fun a => f a = k) :=
          (List.flatMap_append_perm keys _ _).symm
      _ = a :: keys.flatMap fun k => l.filter fun a => f a = k := by
          rw [flatMap_ite_eq hk (hf a List.mem_cons_self), List.singleton_append]
      _ |>.Perm (a :: l) := (ih fun b hb => hf b (List.mem_cons_of_mem a hb)).cons a

/-- The strides of a list are the list. -/
theorem stride_perm {n : Nat} (hn : 0 < n) (l : List α) : ((List.range n).flatMap fun i => stride l i n).Perm l := by
  have hperm : ((List.range n).flatMap fun i => l.zipIdx.filter fun p => p.2 % n = i).Perm l.zipIdx := by
    apply fibers_perm List.nodup_range
    intro p _
    exact List.mem_range.2 (Nat.mod_lt p.2 hn)
  have hmap := hperm.map Prod.fst
  rwa [List.map_flatMap, List.zipIdx_map_fst] at hmap

lemma mem_stride {l : List α} {i n : Nat} {a : α} : a ∈ stride l i n ↔ ∃ k, l[k]? = some a ∧ k % n = i := by
  unfold stride
  rw [List.mem_map]
  constructor
  · rintro ⟨⟨b, k⟩, hp, rfl⟩
    rw [List.mem_filter, List.mem_zipIdx_iff_getElem?, decide_eq_true_eq] at hp
    exact ⟨k, hp⟩
  · rintro ⟨k, hk, hi⟩
    refine ⟨(a, k), ?_, rfl⟩
    rw [List.mem_filter, List.mem_zipIdx_iff_getElem?, decide_eq_true_eq]
    exact ⟨hk, hi⟩

lemma mem_of_mem_stride {l : List α} {i n : Nat} {a : α} (h : a ∈ stride l i n) : a ∈ l := by
  obtain ⟨k, hk, -⟩ := mem_stride.1 h
  exact List.mem_of_getElem? hk

/-- A stride that begins inside the list is not empty. -/
lemma stride_ne_nil {l : List α} {i n : Nat} (hi : i < n) (hl : i < l.length) : stride l i n ≠ [] := by
  apply List.ne_nil_of_mem (a := l[i])
  exact mem_stride.2 ⟨i, List.getElem?_eq_getElem hl, Nat.mod_eq_of_lt hi⟩

@[simp] lemma column_nil (i : Nat) : column ([] : List (List α)) i = [] := rfl

lemma column_cons (r : List α) (rows : List (List α)) (i : Nat) : column (r :: rows) i = r[i]?.toList ++ column rows i := by
  unfold column
  rw [List.filterMap_cons]
  cases r[i]? with
  | none => rfl
  | some a => rfl

lemma mem_column {rows : List (List α)} {i : Nat} {a : α} : a ∈ column rows i ↔ ∃ r ∈ rows, r[i]? = some a :=
  List.mem_filterMap

lemma flatMap_getElem?_toList (l : List α) (n : Nat) : ((List.range n).flatMap fun i => l[i]?.toList) = l.take n := by
  induction n with
  | zero => rfl
  | succ n ih => rw [List.range_succ, List.flatMap_append, ih, List.flatMap_singleton, List.take_add_one]

/-- The columns of a table hold what its rows hold. -/
theorem columns_perm {rows : List (List α)} {n : Nat} (h : ∀ r ∈ rows, r.length ≤ n) :
    ((List.range n).flatMap (column rows)).Perm rows.flatten := by
  induction rows with
  | nil =>
    have hnil : (List.range n).flatMap (column ([] : List (List α))) = [] := List.flatMap_eq_nil_iff.2 fun _ _ => rfl
    rw [hnil, List.flatten_nil]
  | cons r rows ih =>
    have hcons : column (r :: rows) = fun i => r[i]?.toList ++ column rows i := funext (column_cons r rows)
    rw [hcons, List.flatten_cons]
    apply (List.flatMap_append_perm _ _ _).symm.trans
    rw [flatMap_getElem?_toList, List.take_of_length_le (h r List.mem_cons_self)]
    exact (ih fun r' hr' => h r' (List.mem_cons_of_mem r hr')).append_left r

/-- Rows that share an element are the same row. -/
lemma eq_of_mem_of_mem {rows : List (List α)} (h : rows.Pairwise List.Disjoint) {r r' : List α} (hr : r ∈ rows)
    (hr' : r' ∈ rows) {a : α} (ha : a ∈ r) (ha' : a ∈ r') : r = r' := by
  have hsymm : Std.Symm (List.Disjoint (α := α)) := ⟨fun _ _ hd => hd.symm⟩
  by_contra hne
  exact h.forall hr hr' hne ha ha'

/-- Two elements of a column are in different rows. -/
theorem column_pairwise {rows : List (List α)} (h : rows.flatten.Nodup) (i : Nat) :
    (column rows i).Pairwise fun a b => ∀ r ∈ rows, ¬ (a ∈ r ∧ b ∈ r) := by
  have hd := (List.nodup_flatten.1 h).2
  apply List.pairwise_filterMap.2
  apply hd.imp_of_mem
  intro r r' hr hr' hdis a ha b hb s hs hab
  have h1 := eq_of_mem_of_mem hd hs hr hab.1 (List.mem_of_getElem? ha)
  have h2 := eq_of_mem_of_mem hd hs hr' hab.2 (List.mem_of_getElem? hb)
  subst h1
  subst h2
  exact hdis hab.1 hab.1

variable [DecidableEq β]

lemma gather_append_singleton (l : List (α × β)) (e : α × β) :
    gather (l ++ [e]) = (gather l).set e.2 ((gather l).getD e.2 [] ++ [e.1]) := by
  unfold gather
  rw [List.foldl_append, List.foldl_cons, List.foldl_nil]

/-- The list under a key: the first components of the pairs with this second component. -/
theorem get?_gather (l : List (α × β)) (b : β) :
    (gather l).getD b [] = (l.filter fun e => e.2 = b).map Prod.fst := by
  induction l using List.reverseRecOn with
  | nil => rfl
  | append_singleton l e ih =>
    rw [gather_append_singleton, Dict.getD_eq, Dict.get?_set, List.filter_append, List.map_append]
    by_cases h : b = e.2
    · subst h
      rw [if_pos rfl, Option.getD_some, ih]
      simp
    · rw [if_neg h, ← Dict.getD_eq, ih, List.filter_cons_of_neg (by simp [Ne.symm h]), List.filter_nil, List.map_nil,
        List.append_nil]

lemma mem_gather {l : List (α × β)} {b : β} : b ∈ gather l ↔ ∃ e ∈ l, e.2 = b := by
  induction l using List.reverseRecOn with
  | nil => simp [gather]
  | append_singleton l e ih =>
    rw [gather_append_singleton, Dict.mem_set, ih]
    simp only [List.mem_append, List.mem_singleton, or_and_right, exists_or, exists_eq_left]
    exact ⟨fun h => h.symm.imp id Eq.symm, fun h => h.symm.imp Eq.symm id⟩

lemma get?_gather_eq_some {l : List (α × β)} {b : β} {as : List α} (h : (gather l).get? b = some as) :
    as = (l.filter fun e => e.2 = b).map Prod.fst := by
  rw [← get?_gather, Dict.getD_eq, h, Option.getD_some]

/-- What is gathered are the first components. -/
theorem gather_perm (l : List (α × β)) : (gather l).values.flatten.Perm (l.map Prod.fst) := by
  have hvalues : (gather l).values = (gather l).keys.map fun b => (l.filter fun e => e.2 = b).map Prod.fst := by
    unfold Dict.values Dict.keys
    rw [List.map_map]
    apply List.map_congr_left
    intro e he
    exact get?_gather_eq_some (Dict.get?_eq_some.2 he)
  rw [hvalues, ← List.flatMap_def, ← List.map_flatMap]
  apply List.Perm.map
  apply fibers_perm (Dict.keys_nodup _)
  intro e he
  exact mem_gather.2 ⟨e, he, rfl⟩

end Gambit.Lib
