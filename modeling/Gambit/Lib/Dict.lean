import Mathlib

/-!
# Insertion-ordered dictionaries

The dictionaries of Python: a finite map that also remembers in which order its keys were inserted.
Overwriting a key keeps its position, a new key goes to the end, and iteration follows the order of
the entries. `Dict α β` is the list of entries together with the proof that no key occurs twice, so
a lookup is determined by membership (`Dict.get?_eq_some`) and every operation is specified by what
it does to lookups (`get?_set`, `get?_erase`, `get?_modify`, `get?_filterMap`).

Mathlib's `AList` is not used, since its `insert` moves an overwritten key to the front.
-/

namespace Gambit.Lib

/-- A dictionary: entries in insertion order, no key twice. -/
structure Dict (α β : Type*) where
  entries : List (α × β)
  nodup : (entries.map Prod.fst).Nodup

namespace Dict
variable {α β γ : Type*}

/-- The empty dictionary. -/
def empty : Dict α β := ⟨[], List.nodup_nil⟩

instance : EmptyCollection (Dict α β) := ⟨empty⟩
instance : Inhabited (Dict α β) := ⟨empty⟩
instance [DecidableEq α] [DecidableEq β] : DecidableEq (Dict α β) := fun d d' =>
  decidable_of_iff (d.entries = d'.entries) ⟨fun h => by cases d; cases d'; cases h; rfl, fun h => h ▸ rfl⟩

/-- The keys in iteration order. -/
def keys (d : Dict α β) : List α := d.entries.map Prod.fst

/-- The values in iteration order. -/
def values (d : Dict α β) : List β := d.entries.map Prod.snd

/-- The number of keys. -/
def size (d : Dict α β) : Nat := d.entries.length

instance : Membership α (Dict α β) := ⟨fun d k => k ∈ d.keys⟩

@[ext] lemma ext {d d' : Dict α β} (h : d.entries = d'.entries) : d = d' := by
  cases d; cases d'; cases h; rfl

lemma mem_def {d : Dict α β} {k : α} : k ∈ d ↔ k ∈ d.keys := Iff.rfl

lemma keys_nodup (d : Dict α β) : d.keys.Nodup := d.nodup

/-- No entry occurs twice. -/
lemma entries_nodup (d : Dict α β) : d.entries.Nodup := d.nodup.of_map

@[simp] lemma entries_empty : (∅ : Dict α β).entries = [] := rfl
@[simp] lemma keys_empty : (∅ : Dict α β).keys = [] := rfl
@[simp] lemma values_empty : (∅ : Dict α β).values = [] := rfl

variable [DecidableEq α]

/-- Lookup (Python `d.get(k)`). -/
def get? (d : Dict α β) (k : α) : Option β := (d.entries.find? (fun e => e.1 = k)).map Prod.snd

/-- Lookup with a default (Python `d.get(k, v)`). -/
def getD (d : Dict α β) (k : α) (v : β) : β := (d.get? k).getD v

instance (k : α) (d : Dict α β) : Decidable (k ∈ d) := inferInstanceAs (Decidable (k ∈ d.keys))

/-- In-place update of the value of a present key. -/
def modify (d : Dict α β) (k : α) (f : β → β) : Dict α β where
  entries := d.entries.map (fun e => if e.1 = k then (e.1, f e.2) else e)
  nodup := by
    have h : d.entries.map (Prod.fst ∘ fun e => if e.1 = k then (e.1, f e.2) else e) =
        d.entries.map Prod.fst := by
      apply List.map_congr_left
      intro e _
      by_cases he : e.1 = k <;> simp [he]
    rw [List.map_map, h]
    exact d.nodup

/-- Assignment (Python `d[k] = v`): in place if the key is present, at the end otherwise. -/
def set (d : Dict α β) (k : α) (v : β) : Dict α β :=
  if h : k ∈ d then d.modify k (fun _ => v)
  else ⟨d.entries ++ [(k, v)], by
    rw [List.map_append, List.nodup_append]
    refine ⟨d.nodup, by simp, ?_⟩
    intro a ha b hb e
    simp only [List.map_cons, List.map_nil, List.mem_singleton] at hb
    subst e hb
    exact h ha⟩

/-- Deletion (Python `d.pop(k, None)`). -/
def erase (d : Dict α β) (k : α) : Dict α β where
  entries := d.entries.filter (fun e => e.1 ≠ k)
  nodup := d.nodup.sublist (List.Sublist.map _ List.filter_sublist)

/-- The entry to the end (Python `OrderedDict.move_to_end`, which raises on an absent key). -/
def moveToEnd (d : Dict α β) (k : α) : Option (Dict α β) := (d.get? k).map ((d.erase k).set k)

/-- The dictionary without its first `n` entries (Python `popitem(last=False)`, `n` times). -/
def dropFirst (d : Dict α β) (n : Nat) : Dict α β where
  entries := d.entries.drop n
  nodup := d.nodup.sublist (List.Sublist.map _ (List.drop_sublist n d.entries))

/-- Comprehension over the items: keep the keys for which `f` gives a value. -/
def filterMap (d : Dict α β) (f : α → β → Option γ) : Dict α γ where
  entries := d.entries.filterMap (fun e => (f e.1 e.2).map (e.1, ·))
  nodup := by
    refine d.nodup.sublist ?_
    rw [List.map_filterMap]
    generalize d.entries = l
    induction l with
    | nil => simp
    | cons e l ih =>
      cases he : f e.1 e.2 with
      | none => simpa [he] using ih.cons e.1
      | some v => simpa [he] using ih.cons_cons e.1

/-- A comprehension that keeps every key. -/
def mapVal (d : Dict α β) (f : α → β → γ) : Dict α γ := d.filterMap (fun k v => some (f k v))

/-- The dictionary with the given keys, and values computed from them. -/
def ofKeys (l : List α) (nd : l.Nodup) (f : α → β) : Dict α β where
  entries := l.map fun k => (k, f k)
  nodup := by simpa [List.map_map, Function.comp_def] using nd

/-- Assign all entries of `d'` in order (Python `d.update(d')`). -/
def update (d d' : Dict α β) : Dict α β := d'.entries.foldl (fun d e => d.set e.1 e.2) d

/-- A lookup finds exactly the entries. -/
lemma get?_eq_some {d : Dict α β} {k : α} {v : β} : d.get? k = some v ↔ (k, v) ∈ d.entries := by
  obtain ⟨l, nd⟩ := d
  simp only [get?]
  induction l with
  | nil => simp
  | cons e l ih =>
    simp only [List.map_cons, List.nodup_cons] at nd
    by_cases he : e.1 = k
    · subst he
      simp only [List.find?_cons, decide_true, Option.map_some, Option.some.injEq, List.mem_cons]
      constructor
      · rintro rfl; exact .inl rfl
      · rintro (h | h)
        · exact congrArg Prod.snd h.symm
        · exact absurd (List.mem_map_of_mem (f := Prod.fst) h) nd.1
    · have hne : (k, v) ≠ e := fun h => he (congrArg Prod.fst h.symm)
      simp [he, hne, ih nd.2]

/-- A lookup fails exactly outside the keys. -/
lemma get?_eq_none {d : Dict α β} {k : α} : d.get? k = none ↔ k ∉ d := by
  constructor
  · intro h hk
    obtain ⟨e, he, rfl⟩ := List.mem_map.1 hk
    rw [get?_eq_some.2 he] at h
    cases h
  · intro h
    cases e : d.get? k with
    | none => rfl
    | some v => exact absurd (List.mem_map_of_mem (f := Prod.fst) (get?_eq_some.1 e)) h

lemma mem_iff_get? {d : Dict α β} {k : α} : k ∈ d ↔ ∃ v, d.get? k = some v := by
  rw [← not_iff_not, ← get?_eq_none]
  cases d.get? k <;> simp

lemma mem_of_get? {d : Dict α β} {k : α} {v : β} (h : d.get? k = some v) : k ∈ d :=
  mem_iff_get?.2 ⟨v, h⟩

@[simp] lemma get?_empty {k : α} : (∅ : Dict α β).get? k = none := rfl
@[simp] lemma not_mem_empty {k : α} : k ∉ (∅ : Dict α β) := get?_eq_none.1 rfl
@[simp] lemma get?_modify (d : Dict α β) (k k' : α) (f : β → β) :
    (d.modify k f).get? k' = if k' = k then (d.get? k').map f else d.get? k' := by
  obtain ⟨l, nd⟩ := d
  simp only [get?, modify]
  clear nd
  induction l with
  | nil => simp
  | cons e l ih =>
    by_cases hk : k' = k <;> by_cases he : e.1 = k <;> by_cases he' : e.1 = k' <;>
      simp_all

@[simp] lemma keys_modify (d : Dict α β) (k : α) (f : β → β) : (d.modify k f).keys = d.keys := by
  simp only [keys, modify, List.map_map]
  apply List.map_congr_left
  intro e _
  by_cases he : e.1 = k <;> simp [he]

@[simp] lemma mem_modify {d : Dict α β} {k k' : α} {f : β → β} : k' ∈ d.modify k f ↔ k' ∈ d := by
  rw [mem_def, keys_modify, mem_def]

@[simp] lemma get?_set (d : Dict α β) (k k' : α) (v : β) :
    (d.set k v).get? k' = if k' = k then some v else d.get? k' := by
  by_cases h : k ∈ d
  · rw [set, dif_pos h, get?_modify]
    split
    · next e =>
      subst e
      obtain ⟨w, hw⟩ := mem_iff_get?.1 h
      simp [hw]
    · rfl
  · have hk : d.get? k = none := get?_eq_none.2 h
    rw [set, dif_neg h]
    simp only [get?, List.find?_append] at hk ⊢
    by_cases e : k' = k
    · subst e
      cases hf : d.entries.find? (fun e => e.1 = k') with
      | none => simp
      | some w => simp [hf] at hk
    · have e' : ¬ k = k' := fun h => e h.symm
      cases hf : d.entries.find? (fun e => e.1 = k') <;> simp [e, e']

@[simp] lemma mem_set {d : Dict α β} {k k' : α} {v : β} : k' ∈ d.set k v ↔ k' = k ∨ k' ∈ d := by
  rw [mem_iff_get?, mem_iff_get?, get?_set]
  by_cases h : k' = k <;> simp [h]

lemma keys_set_of_mem {d : Dict α β} {k : α} (v : β) (h : k ∈ d) : (d.set k v).keys = d.keys := by
  rw [set, dif_pos h, keys_modify]

lemma keys_set_of_not_mem {d : Dict α β} {k : α} (v : β) (h : k ∉ d) :
    (d.set k v).keys = d.keys ++ [k] := by
  rw [set, dif_neg h]
  simp [keys]

lemma entries_set_of_not_mem {d : Dict α β} {k : α} (v : β) (h : k ∉ d) :
    (d.set k v).entries = d.entries ++ [(k, v)] := by
  rw [set, dif_neg h]

/-- An update in place is an assignment of the updated value. -/
lemma modify_eq_set {d : Dict α β} {k : α} {v : β} (f : β → β) (h : d.get? k = some v) :
    d.modify k f = d.set k (f v) := by
  rw [set, dif_pos (mem_of_get? h)]
  apply ext
  apply List.map_congr_left
  intro e he
  by_cases hk : e.1 = k
  · have hv : d.get? k = some e.2 := hk ▸ get?_eq_some.2 he
    rw [h] at hv
    cases hv
    rfl
  · simp [hk]

@[simp] lemma get?_erase (d : Dict α β) (k k' : α) :
    (d.erase k).get? k' = if k' = k then none else d.get? k' := by
  ext v
  rw [get?_eq_some]
  by_cases h : k' = k <;> simp [erase, h, get?_eq_some]

@[simp] lemma mem_erase {d : Dict α β} {k k' : α} : k' ∈ d.erase k ↔ k' ≠ k ∧ k' ∈ d := by
  rw [mem_iff_get?, mem_iff_get?, get?_erase]
  by_cases h : k' = k <;> simp [h]

@[simp] lemma get?_filterMap (d : Dict α β) (f : α → β → Option γ) (k : α) :
    (d.filterMap f).get? k = (d.get? k).bind (f k) := by
  ext w
  rw [get?_eq_some, Option.bind_eq_some_iff]
  simp only [filterMap, List.mem_filterMap, Option.map_eq_some_iff, Prod.mk.injEq]
  constructor
  · rintro ⟨e, he, w', hw, rfl, rfl⟩
    exact ⟨e.2, get?_eq_some.2 he, hw⟩
  · rintro ⟨v, hv, hw⟩
    exact ⟨(k, v), get?_eq_some.1 hv, w, hw, rfl, rfl⟩

lemma mem_filterMap {d : Dict α β} {f : α → β → Option γ} {k : α} :
    k ∈ d.filterMap f ↔ ∃ v, d.get? k = some v ∧ (f k v).isSome := by
  rw [mem_iff_get?, get?_filterMap]
  cases d.get? k with
  | none => simp
  | some v => simp [Option.isSome_iff_exists]

omit [DecidableEq α] in
@[simp] lemma keys_ofKeys {l : List α} (nd : l.Nodup) (f : α → β) : (ofKeys l nd f).keys = l := by
  simp [ofKeys, keys, Function.comp_def]

@[simp] lemma get?_ofKeys {l : List α} (nd : l.Nodup) (f : α → β) (k : α) :
    (ofKeys l nd f).get? k = if k ∈ l then some (f k) else none := by
  split
  · next h => exact get?_eq_some.2 (List.mem_map.2 ⟨k, h, rfl⟩)
  · next h => exact get?_eq_none.2 (by rw [mem_def, keys_ofKeys]; exact h)

@[simp] lemma getD_empty {k : α} {v : β} : (∅ : Dict α β).getD k v = v := rfl

lemma getD_eq (d : Dict α β) (k : α) (v : β) : d.getD k v = (d.get? k).getD v := rfl

/-- An entry, and the others. -/
lemma perm_cons_erase {d : Dict α β} {k : α} {v : β} (h : d.get? k = some v) :
    d.entries.Perm ((k, v) :: (d.erase k).entries) := by
  have hn : (k, v) ∉ (d.erase k).entries := by
    rw [← get?_eq_some, get?_erase, if_pos rfl]
    exact nofun
  refine (List.perm_ext_iff_of_nodup d.entries_nodup (List.nodup_cons.2 ⟨hn, entries_nodup _⟩)).2 ?_
  rintro ⟨x, w⟩
  rw [List.mem_cons, ← get?_eq_some, ← get?_eq_some, get?_erase]
  by_cases hx : x = k
  · subst hx
    rw [h, if_pos rfl]
    simp [eq_comm]
  · rw [if_neg hx]
    simp [hx]

/-- The entries after an assignment. -/
lemma perm_set (d : Dict α β) (k : α) (v : β) :
    (d.set k v).entries.Perm ((k, v) :: (d.erase k).entries) := by
  have he : ((d.set k v).erase k).entries.Perm (d.erase k).entries := by
    refine (List.perm_ext_iff_of_nodup (entries_nodup _) (entries_nodup _)).2 ?_
    rintro ⟨x, w⟩
    rw [← get?_eq_some, ← get?_eq_some, get?_erase, get?_erase, get?_set]
    by_cases hx : x = k
    · rw [if_pos hx, if_pos hx]
    · rw [if_neg hx, if_neg hx, if_neg hx]
  exact (perm_cons_erase (by rw [get?_set, if_pos rfl])).trans (he.cons _)

/-- Assigning new keys appends them. -/
lemma entries_foldl_set {l : List (α × β)} {d : Dict α β} (hnd : (l.map Prod.fst).Nodup)
    (hnew : ∀ e ∈ l, e.1 ∉ d) : (l.foldl (fun d e => d.set e.1 e.2) d).entries = d.entries ++ l := by
  induction l generalizing d with
  | nil => simp
  | cons e l ih =>
    obtain ⟨hne, hnd⟩ := List.nodup_cons.1 hnd
    have hent := entries_set_of_not_mem e.2 (hnew e List.mem_cons_self)
    rw [List.foldl_cons, ih hnd fun e' he' => ?_, hent, List.append_assoc, List.singleton_append]
    rw [mem_set, not_or]
    refine ⟨fun heq => hne ?_, hnew e' (List.mem_cons_of_mem _ he')⟩
    exact heq ▸ List.mem_map_of_mem he'

/-- Without an absent key nothing is missing. -/
lemma erase_of_not_mem {d : Dict α β} {k : α} (h : k ∉ d) : d.erase k = d := by
  apply ext
  refine List.filter_eq_self.2 fun e he => ?_
  rw [decide_eq_true_eq]
  rintro rfl
  exact h (List.mem_map_of_mem (f := Prod.fst) he)

/-- Moving an entry to the end reorders. -/
lemma perm_moveToEnd {d d' : Dict α β} {k : α} (h : d.moveToEnd k = some d') :
    d'.entries.Perm d.entries := by
  obtain ⟨v, hv, rfl⟩ := Option.map_eq_some_iff.1 h
  have hgone : (d.erase k).erase k = d.erase k := erase_of_not_mem (by simp)
  have hset := perm_set (d.erase k) k v
  rw [hgone] at hset
  exact hset.trans (perm_cons_erase hv).symm

/-- A new key adds its value to the sum. -/
lemma sum_values_set_of_not_mem [AddCommMonoid β] {d : Dict α β} {k : α} (v : β) (h : k ∉ d) :
    (d.set k v).values.sum = d.values.sum + v := by
  simp [values, entries_set_of_not_mem v h]

/-- A deletion takes its value out of the sum. -/
lemma sum_values_erase [AddCommMonoid β] {d : Dict α β} {k : α} {v : β} (h : d.get? k = some v) :
    d.values.sum = v + (d.erase k).values.sum := by
  rw [values, ((perm_cons_erase h).map Prod.snd).sum_eq]
  simp [values]

section Count
variable (p : β → Bool)

/-- How many values satisfy `p`. -/
def count (d : Dict α β) : Nat := d.values.countP p

/-- A new key adds its value to the count. -/
lemma count_set_of_not_mem {d : Dict α β} {k : α} {v : β} (h : k ∉ d) :
    (d.set k v).count p = d.count p + if p v then 1 else 0 := by
  simp [count, values, entries_set_of_not_mem v h, List.countP_append, List.countP_singleton]

/-- An update in place exchanges the old value for the new one in the count. -/
lemma count_modify {d : Dict α β} {k : α} {v : β} (f : β → β) (h : d.get? k = some v) :
    (d.modify k f).count p + (if p v then 1 else 0) = d.count p + if p (f v) then 1 else 0 := by
  have hv := get?_eq_some.1 h
  obtain ⟨l, nd⟩ := d
  simp only [count, values, modify] at hv ⊢
  clear h
  induction l with
  | nil => cases hv
  | cons e l ih =>
    simp only [List.map_cons, List.nodup_cons] at nd
    by_cases he : e.1 = k
    · have hl : l.map (fun e => if e.1 = k then (e.1, f e.2) else e) = l := by
        conv_rhs => rw [← List.map_id l]
        apply List.map_congr_left
        intro a ha
        have hne : a.1 ≠ k := fun h => nd.1 (he ▸ h ▸ List.mem_map_of_mem (f := Prod.fst) ha)
        simp [hne]
      have hev : e.2 = v := by
        rcases List.mem_cons.1 hv with hv | hv
        · exact congrArg Prod.snd hv.symm
        · exact absurd (he ▸ List.mem_map_of_mem (f := Prod.fst) hv) nd.1
      subst hev
      simp only [List.map_cons, he, if_true, hl, List.countP_cons]
      omega
    · have hv' : (k, v) ∈ l := by
        rcases List.mem_cons.1 hv with hv | hv
        · exact absurd (congrArg Prod.fst hv.symm) he
        · exact hv
      have ih := ih nd.2 hv'
      simp only [List.map_cons, he, if_false, List.countP_cons]
      omega

/-- An update of an absent key does nothing. -/
lemma count_modify_of_eq_none {d : Dict α β} {k : α} (f : β → β) (hk : d.get? k = none) :
    (d.modify k f).count p = d.count p := by
  have hm : k ∉ d := get?_eq_none.1 hk
  congr 1
  apply ext
  simp only [modify]
  conv_rhs => rw [← List.map_id d.entries]
  apply List.map_congr_left
  intro e he
  have hne : e.1 ≠ k := fun hx => hm (hx ▸ List.mem_map_of_mem (f := Prod.fst) he)
  simp [hne]

/-- An update that does not change `p` keeps the count. -/
lemma count_modify_of_eq (d : Dict α β) (k : α) {f : β → β} (h : ∀ v, p (f v) = p v) :
    (d.modify k f).count p = d.count p := by
  cases hk : d.get? k with
  | none => exact count_modify_of_eq_none p f hk
  | some v =>
    have := count_modify p f hk
    rw [h v] at this
    omega

/-- An update that makes `p` true of no new value does not raise the count. -/
lemma count_modify_le (d : Dict α β) (k : α) {f : β → β} (h : ∀ v, p (f v) = true → p v = true) :
    (d.modify k f).count p ≤ d.count p := by
  simp only [count, values, modify]
  generalize d.entries = l
  induction l with
  | nil => exact le_rfl
  | cons e l ih =>
    simp only [List.map_cons, List.countP_cons]
    by_cases he : e.1 = k
    · by_cases hp : p (f e.2) = true
      · simp only [he, if_true, hp, h _ hp]
        omega
      · simp only [he, if_true, hp]
        exact ih.trans (Nat.le_add_right _ _)
    · simp only [he, if_false]
      omega

/-- An update that keeps `p` does not lower the count. -/
lemma le_count_modify (d : Dict α β) (k : α) {f : β → β} (h : ∀ v, p v = true → p (f v) = true) :
    d.count p ≤ (d.modify k f).count p := by
  cases hk : d.get? k with
  | none => exact (count_modify_of_eq_none p f hk).ge
  | some v =>
    have hc := count_modify p f hk
    by_cases hp : p v = true
    · rw [if_pos hp, if_pos (h v hp)] at hc
      omega
    · rw [if_neg hp] at hc
      omega

/-- An assignment raises the count by its own value at most. -/
lemma count_set_le (d : Dict α β) (k : α) (v : β) :
    (d.set k v).count p ≤ d.count p + if p v then 1 else 0 := by
  by_cases h : k ∈ d
  · obtain ⟨w, hw⟩ := mem_iff_get?.1 h
    have hc := count_modify p (fun _ => v) hw
    rw [set, dif_pos h]
    omega
  · exact (count_set_of_not_mem p h).le

/-- When every value satisfies exactly one of three conditions, their counts add up to the size. -/
lemma count_add_count_add_count {q r : β → Bool} (d : Dict α β)
    (h : ∀ k v, d.get? k = some v → (p v).toNat + (q v).toNat + (r v).toNat = 1) :
    d.count p + d.count q + d.count r = d.size := by
  have hv : ∀ e ∈ d.entries, (p e.2).toNat + (q e.2).toNat + (r e.2).toNat = 1 :=
    fun e he => h e.1 e.2 (get?_eq_some.2 he)
  simp only [count, values, size]
  generalize d.entries = l at hv
  induction l with
  | nil => rfl
  | cons e l ih =>
    have he := hv e List.mem_cons_self
    have ih := ih fun a ha => hv a (.tail _ ha)
    simp only [List.map_cons, List.countP_cons, List.length_cons]
    cases hp : p e.2 <;> cases hq : q e.2 <;> cases hr : r e.2 <;> simp_all <;> omega

/-- A deletion takes the old value out of the count. -/
lemma count_erase {d : Dict α β} {k : α} {v : β} (h : d.get? k = some v) :
    (d.erase k).count p + (if p v then 1 else 0) = d.count p := by
  have hv := get?_eq_some.1 h
  obtain ⟨l, nd⟩ := d
  simp only [count, values, erase] at hv ⊢
  clear h
  induction l with
  | nil => cases hv
  | cons e l ih =>
    simp only [List.map_cons, List.nodup_cons] at nd
    by_cases he : e.1 = k
    · have hl : l.filter (fun e => decide (e.1 ≠ k)) = l := by
        apply List.filter_eq_self.2
        intro a ha
        have hne : a.1 ≠ k := fun h => nd.1 (he ▸ h ▸ List.mem_map_of_mem (f := Prod.fst) ha)
        simp [hne]
      have hev : e.2 = v := by
        rcases List.mem_cons.1 hv with hv | hv
        · exact congrArg Prod.snd hv.symm
        · exact absurd (he ▸ List.mem_map_of_mem (f := Prod.fst) hv) nd.1
      subst hev
      rw [List.filter_cons_of_neg (by simp [he]), hl]
      simp [List.countP_cons]
    · have hv' : (k, v) ∈ l := by
        rcases List.mem_cons.1 hv with hv | hv
        · exact absurd (congrArg Prod.fst hv.symm) he
        · exact hv
      have ih := ih nd.2 hv'
      rw [List.filter_cons_of_pos (by simp [he])]
      simp only [List.map_cons, List.countP_cons]
      omega

end Count
end Dict
end Gambit.Lib
