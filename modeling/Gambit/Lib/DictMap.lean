import Gambit.Lib.Dict

/-!
# Mapping the values of a dictionary

`Dict.mapVal` keeps the keys and their order, so it commutes with every operation that looks at keys only. These
are the rules for carrying an operation on a dictionary over to a view of its values.
-/

namespace Gambit.Lib.Dict
variable {α β γ : Type*} (f : α → β → γ) {d : Dict α β} {k : α}

/-- The entries are mapped one by one. -/
@[simp] lemma entries_mapVal (d : Dict α β) : (d.mapVal f).entries = d.entries.map fun e => (e.1, f e.1 e.2) := by
  unfold mapVal filterMap
  exact List.filterMap_eq_map (f := fun e : α × β => (e.1, f e.1 e.2)) ▸ rfl

/-- Nothing is mapped in an empty dictionary. -/
@[simp] lemma mapVal_empty : (∅ : Dict α β).mapVal f = ∅ := rfl

/-- The keys stay. -/
@[simp] lemma keys_mapVal (d : Dict α β) : (d.mapVal f).keys = d.keys := by
  unfold keys
  rw [entries_mapVal, List.map_map]
  rfl

/-- The values are mapped one by one. -/
lemma values_mapVal (g : β → γ) (d : Dict α β) : (d.mapVal fun _ v => g v).values = d.values.map g := by
  unfold values
  rw [entries_mapVal, List.map_map, List.map_map]
  rfl

/-- A key stays in the dictionary. -/
@[simp] lemma mem_mapVal : k ∈ d.mapVal f ↔ k ∈ d := by
  rw [mem_def, keys_mapVal, mem_def]

variable [DecidableEq α]

/-- A look-up finds the mapped value. -/
@[simp] lemma get?_mapVal (d : Dict α β) (k : α) : (d.mapVal f).get? k = (d.get? k).map (f k) := by
  unfold mapVal
  rw [get?_filterMap]
  cases d.get? k with
  | none => rfl
  | some v => rfl

/-- The same with a default. -/
lemma getD_mapVal (g : β → γ) (d : Dict α β) (k : α) (v : β) :
    (d.mapVal fun _ v => g v).getD k (g v) = g (d.getD k v) := by
  rw [getD_eq, getD_eq, get?_mapVal]
  cases d.get? k with
  | none => rfl
  | some w => rfl

/-- An update of a value is one of its view. -/
lemma mapVal_modify {g : β → β} {g' : γ → γ} (h : ∀ v, f k (g v) = g' (f k v)) (d : Dict α β) :
    (d.modify k g).mapVal f = (d.mapVal f).modify k g' := by
  have hent : ∀ (d : Dict α γ) (g : γ → γ),
      (d.modify k g).entries = d.entries.map fun e => if e.1 = k then (e.1, g e.2) else e := fun _ _ => rfl
  apply ext
  rw [hent, entries_mapVal, entries_mapVal]
  unfold modify
  rw [List.map_map, List.map_map]
  apply List.map_congr_left
  intro e _
  by_cases he : e.1 = k
  · subst he
    simp only [Function.comp_apply, if_true, h]
  · simp only [Function.comp_apply, he, if_false]

/-- An update that the view does not show. -/
lemma mapVal_modify_eq {g : β → β} (h : ∀ v, f k (g v) = f k v) (d : Dict α β) :
    (d.modify k g).mapVal f = d.mapVal f := by
  have hid : (d.mapVal f).modify k id = d.mapVal f := by
    apply ext
    refine (List.map_congr_left fun e _ => ?_).trans (List.map_id _)
    split
    · rfl
    · rfl
  rw [← hid]
  exact mapVal_modify f h d

/-- Mapping after an assignment. -/
lemma mapVal_set (d : Dict α β) (k : α) (v : β) : (d.set k v).mapVal f = (d.mapVal f).set k (f k v) := by
  by_cases h : k ∈ d
  · have h' : k ∈ d.mapVal f := (mem_mapVal f).2 h
    unfold set
    rw [dif_pos h, dif_pos h']
    exact mapVal_modify f (fun _ => rfl) d
  · have h' : k ∉ d.mapVal f := fun hm => h ((mem_mapVal f).1 hm)
    apply ext
    rw [entries_mapVal, entries_set_of_not_mem _ h, entries_set_of_not_mem _ h', entries_mapVal, List.map_append]
    rfl

/-- Mapping after a deletion. -/
lemma mapVal_erase (d : Dict α β) (k : α) : (d.erase k).mapVal f = (d.mapVal f).erase k := by
  have hent : ((d.mapVal f).erase k).entries = (d.mapVal f).entries.filter fun e => e.1 ≠ k := rfl
  apply ext
  rw [hent, entries_mapVal, entries_mapVal, List.filter_map]
  rfl

omit [DecidableEq α] in
/-- Mapped values are counted by what they are mapped to. -/
lemma count_mapVal (g : β → γ) (p : γ → Bool) (d : Dict α β) :
    (d.mapVal fun _ v => g v).count p = d.count fun v => p (g v) := by
  unfold count
  rw [values_mapVal, List.countP_map]
  rfl

end Gambit.Lib.Dict
