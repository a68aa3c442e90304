import Gambit.Lib.Dict

/-!
# Rearranging in place along the cycles of a map

A loop over the keys of a map from sources to destinations that only ever swaps two cells of a state. For
each key the cycle through it is followed: the content of the key's own cell goes to its destination, and
what was there is now in the key's cell and goes on from there. The map is updated during the iteration, a
cell that has its content being sent to itself.

What is still to be moved is a permutation `g`, the content of cell `x` having to go to `g x`. A swap of
`src` with `g src` makes it `g * swap src (g src)`, which fixes one cell more; so the inner loop ends, and
an invariant that each swap keeps holds in the end of the permutation `1`.
-/

namespace Gambit.Lib

universe u

section
variable {σ α : Type u} [DecidableEq α]

/-- The inner loop: while `src` is not `dst`, swap the two, mark `dst` as done and go on to where the
content of `dst` has to go. -/
def followCycle (swap : σ → α → α → σ) (src : α) : Nat → α → σ → Dict α α → Option (σ × Dict α α)
  | 0, _, _, _ => none
  | fuel + 1, dst, s, m =>
    if src = dst then some (s, m)
    else followCycle swap src fuel (m.getD dst dst) (swap s src dst) (m.set dst dst)

/-- The loop over the keys. A Python loop over a dictionary fails when the size of it changes. -/
def followCycles (swap : σ → α → α → σ) (fuel : Nat) :
    List α → σ → Dict α α → Option (σ × Dict α α)
  | [], s, m => some (s, m)
  | src :: rest, s, m => do
    let dst ← m.get? src
    let (s', m') ← followCycle swap src fuel dst s m
    if m'.size = m.size then followCycles swap fuel rest s' m' else none

variable {swap : σ → α → α → σ} {P : Equiv.Perm α → σ → Prop} {src : α} {rest : List α}

/-- The cells of a list that a permutation moves. -/
def movedCells (g : Equiv.Perm α) (l : List α) : Finset α := l.toFinset.filter fun x => g x ≠ x

/-- Where the content of `src` goes there is something to be moved on, and its place is in the list. -/
lemma movedCells_next {g : Equiv.Perm α} (hfix : ∀ x, x ∉ src :: rest → g x = x) (hne : src ≠ g src) :
    g src ∈ rest ∧ g (g src) ≠ g src := by
  have hmoved : g (g src) ≠ g src := fun he => hne (g.injective he).symm
  refine ⟨?_, hmoved⟩
  by_contra hmem
  apply hmoved
  apply hfix
  intro hc
  cases List.mem_cons.1 hc with
  | inl he => exact hne he.symm
  | inr hr => exact hmem hr

/-- A swap fixes one cell more. -/
lemma movedCells_swap {g : Equiv.Perm α} (hsrc : src ∉ rest) (hmem : g src ∈ rest)
    (hmoved : g (g src) ≠ g src) :
    (movedCells (g * Equiv.swap src (g src)) rest).card < (movedCells g rest).card := by
  apply Finset.card_lt_card
  refine ⟨fun x hx => ?_, fun hsub => ?_⟩
  · obtain ⟨hxr, hxm⟩ := Finset.mem_filter.1 hx
    have hxs : x ≠ src := fun he => hsrc (he ▸ List.mem_toFinset.1 hxr)
    have hxd : x ≠ g src := by
      intro he
      apply hxm
      rw [he, Equiv.Perm.mul_apply, Equiv.swap_apply_right]
    rw [Equiv.Perm.mul_apply, Equiv.swap_apply_of_ne_of_ne hxs hxd] at hxm
    exact Finset.mem_filter.2 ⟨hxr, hxm⟩
  · have hin : g src ∈ movedCells g rest := Finset.mem_filter.2 ⟨List.mem_toFinset.2 hmem, hmoved⟩
    apply (Finset.mem_filter.1 (hsub hin)).2
    rw [Equiv.Perm.mul_apply, Equiv.swap_apply_right]

/-- When the content of `src` is where it has to go, `src` is done too. -/
lemma fixed_of_next_eq {g : Equiv.Perm α} (hfix : ∀ x, x ∉ src :: rest → g x = x) (he : src = g src) :
    ∀ x, x ∉ rest → g x = x := by
  intro x hx
  by_cases hxs : x = src
  · rw [hxs]
    exact he.symm
  · exact hfix x fun hc => (List.mem_cons.1 hc).elim hxs hx

/-- The inner loop ends, with `src` done. -/
lemma followCycle_ok (hsrc : src ∉ rest)
    (step : ∀ g s dst, dst ∈ rest → P g s → P (g * Equiv.swap src dst) (swap s src dst)) (n : Nat)
    {g : Equiv.Perm α} {s : σ} {m : Dict α α} (hn : (movedCells g rest).card < n) (h : P g s)
    (hfix : ∀ x, x ∉ src :: rest → g x = x) (hm : ∀ x ∈ rest, m.get? x = some (g x)) :
    ∃ g' s' m', P g' s' ∧ (∀ x, x ∉ rest → g' x = x) ∧ (∀ x ∈ rest, m'.get? x = some (g' x)) ∧
      m'.size = m.size ∧ ∀ fuel, n ≤ fuel → followCycle swap src fuel (g src) s m = some (s', m') := by
  induction n generalizing g s m with
  | zero => exact absurd hn (Nat.not_lt_zero _)
  | succ n ih =>
    by_cases hne : src = g src
    · refine ⟨g, s, m, h, fixed_of_next_eq hfix hne, hm, rfl, fun fuel hf => ?_⟩
      obtain ⟨fuel, rfl⟩ := Nat.exists_eq_succ_of_ne_zero (by omega : fuel ≠ 0)
      rw [followCycle, if_pos hne]
    obtain ⟨hmem, hmoved⟩ := movedCells_next hfix hne
    have hlt := movedCells_swap hsrc hmem hmoved
    have hnext : (g * Equiv.swap src (g src)) src = g (g src) := by
      rw [Equiv.Perm.mul_apply, Equiv.swap_apply_left]
    have hother : ∀ x, x ≠ src → x ≠ g src → (g * Equiv.swap src (g src)) x = g x := by
      intro x hxs hxd
      rw [Equiv.Perm.mul_apply, Equiv.swap_apply_of_ne_of_ne hxs hxd]
    have hfix' : ∀ x, x ∉ src :: rest → (g * Equiv.swap src (g src)) x = x := by
      intro x hx
      rw [hother x (fun he => hx (he ▸ List.mem_cons_self)) fun he => hx (he ▸ List.mem_cons_of_mem _ hmem)]
      exact hfix x hx
    have hm' : ∀ x ∈ rest,
        (m.set (g src) (g src)).get? x = some ((g * Equiv.swap src (g src)) x) := by
      intro x hx
      rw [Dict.get?_set]
      by_cases hxd : x = g src
      · rw [if_pos hxd, hxd, Equiv.Perm.mul_apply, Equiv.swap_apply_right]
      · rw [if_neg hxd, hother x (fun he => hsrc (he ▸ hx)) hxd]
        exact hm x hx
    obtain ⟨g', s', m', h', hfix'', hm'', hsize, hrun⟩ :=
      ih (by omega) (step g s (g src) hmem h) hfix' hm'
    refine ⟨g', s', m', h', hfix'', hm'', ?_, fun fuel hf => ?_⟩
    · have hkeys := congrArg List.length (Dict.keys_set_of_mem (g src) (Dict.mem_of_get? (hm _ hmem)))
      rw [Dict.keys, Dict.keys, List.length_map, List.length_map] at hkeys
      exact hsize.trans hkeys
    · obtain ⟨fuel, rfl⟩ := Nat.exists_eq_succ_of_ne_zero (by omega : fuel ≠ 0)
      rw [followCycle, if_neg hne, Dict.getD_eq, hm _ hmem, Option.getD_some, ← hnext]
      exact hrun fuel (by omega)

/-- The loop ends with every content where it has to go, in a state that has the invariant. -/
theorem followCycles_ok (swap : σ → α → α → σ) {keys : List α} (hnd : keys.Nodup)
    (step : ∀ g s i j, i ∈ keys → j ∈ keys → P g s → P (g * Equiv.swap i j) (swap s i j))
    {g : Equiv.Perm α} {s : σ} {m : Dict α α} (h : P g s) (hfix : ∀ x, x ∉ keys → g x = x)
    (hm : ∀ x ∈ keys, m.get? x = some (g x)) :
    ∃ s' m', P 1 s' ∧ ∀ fuel, keys.length ≤ fuel → followCycles swap fuel keys s m = some (s', m') := by
  induction keys generalizing g s m with
  | nil =>
    have hg : g = 1 := Equiv.ext fun x => hfix x List.not_mem_nil
    exact ⟨s, m, hg ▸ h, fun _ _ => rfl⟩
  | cons src rest ih =>
    obtain ⟨hsrc, hnd⟩ := List.nodup_cons.1 hnd
    have hcard : (movedCells g rest).card < rest.length + 1 := by
      have h1 : (movedCells g rest).card ≤ rest.toFinset.card := Finset.card_filter_le _ _
      have h2 := rest.toFinset_card_le
      omega
    obtain ⟨g', s', m', h', hfix', hm', hsize, hrun⟩ :=
      followCycle_ok hsrc
        (fun g s dst hd => step g s src dst List.mem_cons_self (List.mem_cons_of_mem _ hd))
        (rest.length + 1) hcard h hfix fun x hx => hm x (List.mem_cons_of_mem _ hx)
    obtain ⟨s'', m'', h'', hrun'⟩ :=
      ih hnd (fun g s i j hi hj => step g s i j (List.mem_cons_of_mem _ hi) (List.mem_cons_of_mem _ hj))
        h' hfix' hm'
    refine ⟨s'', m'', h'', fun fuel hf => ?_⟩
    rw [List.length_cons] at hf
    rw [followCycles, hm src List.mem_cons_self]
    simp only [Option.bind_eq_bind, Option.bind_some]
    rw [hrun fuel hf, Option.bind_some, if_pos hsize]
    exact hrun' fuel (by omega)

end

section
variable {α : Type*} [DecidableEq α] {l l' : List α} {x : α}

/-- The cell at the same position of the other list. -/
def sendTo (l l' : List α) (x : α) : α := (l'[l.idxOf x]?).getD x

lemma sendTo_getElem (hnd : l.Nodup) {k : Nat} (hk : k < l.length) (hk' : k < l'.length) :
    sendTo l l' l[k] = l'[k] := by
  rw [sendTo, hnd.idxOf_getElem k hk, List.getElem?_eq_getElem hk', Option.getD_some]

lemma sendTo_of_notMem (hlen : l.length = l'.length) (hx : x ∉ l) : sendTo l l' x = x := by
  rw [sendTo, List.idxOf_eq_length hx, List.getElem?_eq_none hlen.ge, Option.getD_none]

/-- Sending there and back. -/
lemma sendTo_sendTo (hnd : l.Nodup) (hnd' : l'.Nodup) (hp : l.Perm l') :
    sendTo l' l (sendTo l l' x) = x := by
  by_cases hx : x ∈ l
  · obtain ⟨k, hk, rfl⟩ := List.getElem_of_mem hx
    have hk' : k < l'.length := hp.length_eq ▸ hk
    rw [sendTo_getElem hnd hk hk', sendTo_getElem hnd' hk' hk]
  · rw [sendTo_of_notMem hp.length_eq hx]
    exact sendTo_of_notMem hp.length_eq.symm fun hx' => hx (hp.mem_iff.2 hx')

/-- Two lists of the same cells, each once, as a permutation. -/
def sendPerm (hnd : l.Nodup) (hnd' : l'.Nodup) (hp : l.Perm l') : Equiv.Perm α where
  toFun := sendTo l l'
  invFun := sendTo l' l
  left_inv _ := sendTo_sendTo hnd hnd' hp
  right_inv _ := sendTo_sendTo hnd' hnd hp.symm

end
end Gambit.Lib
