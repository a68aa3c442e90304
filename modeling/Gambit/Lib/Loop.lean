import Mathlib

/-!
# Loops

A Python loop over a list is a `List.foldl`, and one whose body can raise a `List.foldlM` in `Except`. If
the body never raises while an invariant over the consumed prefix holds, and keeps it, then the loop does
not raise and ends in the invariant of the whole list.
-/

namespace Gambit.Lib

variable {α ε ι : Type*}

/-- The invariant rule for loops that may raise. -/
lemma foldlM_ok {f : α → ι → Except ε α} (P : List ι → α → Prop) (l : List ι) {a : α} (h0 : P [] a)
    (step : ∀ done x rest b, l = done ++ x :: rest → P done b → ∃ b', f b x = .ok b' ∧ P (done ++ [x]) b') :
    ∃ b, l.foldlM f a = .ok b ∧ P l b := by
  suffices H : ∀ (rest done : List ι) (b : α), l = done ++ rest → P done b →
      ∃ b', rest.foldlM f b = .ok b' ∧ P l b' from H l [] a rfl h0
  intro rest
  induction rest with
  | nil =>
    intro done b hl hb
    rw [List.append_nil] at hl
    subst hl
    exact ⟨b, rfl, hb⟩
  | cons x rest ih =>
    intro done b hl hb
    obtain ⟨b', hf, hb'⟩ := step done x rest b hl hb
    obtain ⟨c, hc, hp⟩ := ih (done ++ [x]) b' (by rw [hl, List.append_assoc, List.singleton_append]) hb'
    refine ⟨c, ?_, hp⟩
    rw [List.foldlM_cons, hf]
    exact hc

/-- A comprehension whose elements can all be computed. -/
lemma mapM_eq_some_map {α β : Type} {f : α → Option β} {g : α → β} {l : List α}
    (h : ∀ a ∈ l, f a = some (g a)) : l.mapM f = some (l.map g) := by
  induction l with
  | nil => rfl
  | cons a l ih =>
    rw [List.mapM_cons, h a List.mem_cons_self, ih fun b hb => h b (List.mem_cons_of_mem _ hb)]
    rfl

/-- A loop over a list that does not raise. -/
lemma mapM_ok_iff {α β ε : Type} {f : α → Except ε β} {l : List α} {l' : List β} :
    l.mapM f = .ok l' ↔ List.Forall₂ (fun a b => f a = .ok b) l l' := by
  induction l generalizing l' with
  | nil =>
    rw [List.mapM_nil, List.forall₂_nil_left_iff]
    constructor
    · intro h
      cases h
      rfl
    · rintro rfl
      rfl
  | cons a l ih =>
    rw [List.mapM_cons, List.forall₂_cons_left_iff]
    constructor
    · intro h
      cases ha : f a with
      | error e =>
        rw [ha] at h
        cases h
      | ok b =>
        rw [ha] at h
        cases hl : l.mapM f with
        | error e =>
          rw [hl] at h
          cases h
        | ok bs =>
          rw [hl] at h
          cases h
          exact ⟨b, bs, rfl, ih.1 hl, rfl⟩
    · rintro ⟨b, bs, ha, hl, rfl⟩
      rw [ha, ih.2 hl]
      rfl

/-- A step that does not raise. -/
lemma bind_eq_ok {α β ε : Type} {x : Except ε α} {f : α → Except ε β} {b : β} :
    x >>= f = .ok b ↔ ∃ a, x = .ok a ∧ f a = .ok b := by
  constructor
  · intro h
    cases x with
    | error e => cases h
    | ok a => exact ⟨a, rfl, h⟩
  · rintro ⟨a, rfl, h⟩
    exact h

/-- A check of all elements that does not raise. -/
lemma forM_ok_iff {ε ι : Type} {f : ι → Except ε Unit} {l : List ι} : l.forM f = .ok () ↔ ∀ x ∈ l, f x = .ok () := by
  induction l with
  | nil =>
    constructor
    · intro _ x hx
      cases hx
    · intro _
      rfl
  | cons x l ih =>
    change (f x >>= fun _ => l.forM f) = .ok () ↔ _
    rw [bind_eq_ok, List.forall_mem_cons, ← ih]
    constructor
    · rintro ⟨_, hx, hl⟩
      exact ⟨hx, hl⟩
    · rintro ⟨hx, hl⟩
      exact ⟨(), hx, hl⟩

/-- The invariant rule for a loop that did not raise. -/
lemma foldlM_keeps {ε ι α : Type} {f : α → ι → Except ε α} (P : List ι → α → Prop) {l : List ι} {a b : α}
    (h : l.foldlM f a = .ok b) (h0 : P [] a)
    (step : ∀ done x a a', P done a → f a x = .ok a' → P (done ++ [x]) a') : P l b := by
  suffices H : ∀ (rest done : List ι) (a : α), P done a → rest.foldlM f a = .ok b → P (done ++ rest) b from
    H l [] a h0 h
  intro rest
  induction rest with
  | nil =>
    intro done a ha h
    cases h
    rwa [List.append_nil]
  | cons x rest ih =>
    intro done a ha h
    rw [List.foldlM_cons, bind_eq_ok] at h
    obtain ⟨a', hx, h⟩ := h
    have hrest := ih (done ++ [x]) a' (step done x a a' ha hx) h
    rwa [List.append_assoc, List.singleton_append] at hrest

end Gambit.Lib
