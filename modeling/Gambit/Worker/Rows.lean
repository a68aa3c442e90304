import Gambit.Worker.InputBatch

/-!
# The rows of the batch

Which request is in which row, through the calls of an update. `Wf` says that ids, index and log match the
owners of the rows; it holds while requests are removed and added. `Condensing n` is the invariant of the
loop of `condense`, in which the rows from `n` on are empty already, and `Packed` says that the filled
rows are the first ones, as `condense` leaves them and the swaps keep them.
-/

namespace Gambit.Worker
open Gambit.Lib

namespace InputBatch
variable {b : InputBatch} {i n : Nat} {r : CachedRequestState} {rid : ReqId}

/-- Ids and index follow the owners. -/
structure Indexed (b : InputBatch) : Prop where
  ids : ∀ i, (b.reqIds[i]?).join = (b.owner i).map CachedRequestState.reqId
  index : ∀ rid i, b.reqIdToIndex.get? rid = some i ↔ (b.owner i).map CachedRequestState.reqId = some rid

/-- The rows while requests are removed and added: the log knows the empty ones. -/
structure Wf (b : InputBatch) : Prop extends Indexed b where
  nodup : b.builder.removed.Nodup
  holes : ∀ i, i ∈ b.builder.removed ↔ i < b.reqIds.length ∧ b.owner i = none

/-- The filled rows are the first ones. -/
structure Packed (b : InputBatch) : Prop extends Indexed b where
  full : ∀ i, (b.owner i).isSome ↔ i < b.numReqs
  length : b.reqIds.length = b.numReqs

/-- A filled row is in the list of ids. -/
lemma Indexed.lt_length (h : b.Indexed) (ho : b.owner i = some r) : i < b.reqIds.length := by
  by_contra hlt
  have hid := h.ids i
  rw [List.getElem?_eq_none (by omega), ho] at hid
  cases hid

/-- A request is in one row. -/
lemma Indexed.inj (h : b.Indexed) {j : Nat} {r' : CachedRequestState} (hi : b.owner i = some r)
    (hj : b.owner j = some r') (he : r.reqId = r'.reqId) : i = j := by
  have h1 := (h.index r.reqId i).2 (by rw [hi, Option.map_some])
  have h2 := (h.index r.reqId j).2 (by rw [hj, Option.map_some, he])
  rw [h1] at h2
  exact Option.some.inj h2

/-- The indexed rows are the filled ones. -/
lemma Indexed.mem_values (h : b.Indexed) : i ∈ b.reqIdToIndex.values ↔ (b.owner i).isSome := by
  constructor
  · intro hi
    obtain ⟨⟨rid, j⟩, he, rfl⟩ := List.mem_map.1 hi
    obtain ⟨r, hr, -⟩ := Option.map_eq_some_iff.1 ((h.index rid j).1 (Dict.get?_eq_some.2 he))
    exact Option.isSome_iff_exists.2 ⟨r, hr⟩
  · intro hs
    obtain ⟨r, hr⟩ := Option.isSome_iff_exists.1 hs
    have hg := (h.index r.reqId i).2 (by rw [hr, Option.map_some])
    exact List.mem_map.2 ⟨(r.reqId, i), Dict.get?_eq_some.1 hg, rfl⟩

/-- No row is indexed twice. -/
lemma Indexed.values_nodup (h : b.Indexed) : b.reqIdToIndex.values.Nodup := by
  refine (List.nodup_map_iff_inj_on b.reqIdToIndex.entries_nodup).2 ?_
  rintro ⟨rid, i⟩ he ⟨rid', j⟩ he' heq
  dsimp only at heq
  subst heq
  have h1 := (h.index rid i).1 (Dict.get?_eq_some.2 he)
  have h2 := (h.index rid' i).1 (Dict.get?_eq_some.2 he')
  rw [h1] at h2
  rw [Option.some.inj h2]

/-- The filled rows and the holes are all rows. -/
lemma Wf.count (h : b.Wf) : b.numReqs + b.builder.removed.length = b.reqIds.length := by
  have hperm : (b.reqIdToIndex.values ++ b.builder.removed).Perm (List.range b.reqIds.length) := by
    refine (List.perm_ext_iff_of_nodup (h.values_nodup.append h.nodup fun i hi hr => ?_)
      List.nodup_range).2 fun i => ?_
    · have hs := h.mem_values.1 hi
      rw [((h.holes i).1 hr).2] at hs
      cases hs
    · rw [List.mem_append, h.mem_values, h.holes, List.mem_range]
      constructor
      · rintro (hs | hr)
        · obtain ⟨r, hr⟩ := Option.isSome_iff_exists.1 hs
          exact h.lt_length hr
        · exact hr.1
      · intro hi
        cases ho : b.owner i with
        | some r => exact .inl rfl
        | none => exact .inr ⟨hi, rfl⟩
  have hlen := hperm.length_eq
  rw [List.length_append, List.length_range, Dict.values, List.length_map] at hlen
  exact hlen

/-- Without holes the rows are packed. -/
lemma Wf.packed (h : b.Wf) (hr : b.builder.removed = []) : b.Packed := by
  have hlen : b.reqIds.length = b.numReqs := by
    have := h.count
    rw [hr, List.length_nil] at this
    omega
  refine ⟨h.toIndexed, fun i => ⟨fun hs => ?_, fun hi => ?_⟩, hlen⟩
  · obtain ⟨r, ho⟩ := Option.isSome_iff_exists.1 hs
    exact hlen ▸ h.lt_length ho
  · cases ho : b.owner i with
    | some r => rfl
    | none =>
      have := (h.holes i).2 ⟨by omega, ho⟩
      rw [hr] at this
      cases this

/-- A packed batch with an empty log is well formed. -/
lemma Packed.wf (h : b.Packed) : b.resetLog.Wf := by
  refine ⟨⟨h.ids, h.index⟩, List.nodup_nil, fun i => ⟨fun hm => ?_, fun ⟨hi, ho⟩ => ?_⟩⟩
  · cases hm
  · have hs : (b.owner i).isSome := (h.full i).2 (h.length ▸ hi)
    have ho' : b.owner i = none := ho
    rw [ho'] at hs
    cases hs

/-- What removing a request does to the rows. -/
lemma removeRequest_cases (b : InputBatch) (rid : ReqId) :
    (b.reqIdToIndex.get? rid = none ∧ b.removeRequest rid = b) ∨
      ∃ i, b.reqIdToIndex.get? rid = some i ∧
        (b.removeRequest rid).reqIds = b.reqIds.set i none ∧
        (b.removeRequest rid).reqIdToIndex = b.reqIdToIndex.erase rid ∧
        (b.removeRequest rid).owner = Function.update b.owner i none ∧
        (b.removeRequest rid).builder = { b.builder with removed := b.builder.removed ++ [i] } := by
  unfold removeRequest
  cases hi : b.reqIdToIndex.get? rid with
  | none => exact .inl ⟨rfl, rfl⟩
  | some i =>
    refine .inr ⟨i, rfl, ?_⟩
    dsimp only
    split <;> exact ⟨rfl, rfl, rfl, rfl⟩

/-- Removing a request leaves a hole. -/
lemma Wf.removeRequest (h : b.Wf) (rid : ReqId) : (b.removeRequest rid).Wf := by
  rcases removeRequest_cases b rid with ⟨-, he⟩ | ⟨i, hi, hids, hidx, hown, hlog⟩
  · rw [he]
    exact h
  obtain ⟨r, ho, rfl⟩ := Option.map_eq_some_iff.1 ((h.index rid i).1 hi)
  have hlt := h.lt_length ho
  refine ⟨⟨fun j => ?_, fun x j => ?_⟩, ?_, fun j => ?_⟩
  · rw [hids, hown, List.getElem?_set]
    by_cases hj : i = j
    · subst hj
      simp [hlt]
    · rw [if_neg hj, Function.update_of_ne (Ne.symm hj)]
      exact h.ids j
  · rw [hidx, hown, Dict.get?_erase]
    by_cases hx : x = r.reqId
    · rw [if_pos hx]
      refine ⟨nofun, fun hj => ?_⟩
      by_cases hji : j = i
      · rw [hji, Function.update_self] at hj
        cases hj
      · rw [Function.update_of_ne hji] at hj
        obtain ⟨r', hr', he⟩ := Option.map_eq_some_iff.1 hj
        exact absurd (h.inj hr' ho (he.trans hx)) hji
    · rw [if_neg hx, h.index]
      by_cases hji : j = i
      · rw [hji, Function.update_self, ho]
        simpa using Ne.symm hx
      · rw [Function.update_of_ne hji]
  · rw [hlog]
    refine h.nodup.append (List.nodup_singleton i) fun j hj hj' => ?_
    rw [List.mem_singleton] at hj'
    have := ((h.holes j).1 hj).2
    rw [hj', ho] at this
    cases this
  · rw [hlog, hids, hown, List.mem_append, List.mem_singleton, h.holes, List.length_set]
    by_cases hji : j = i
    · subst hji
      simp [hlt]
    · rw [Function.update_of_ne hji]
      simp [hji]

/-- What adding a request does to the rows. -/
lemma addRequest_rows (b : InputBatch) (r : CachedRequestState) :
    (b.addRequest r).reqIds =
        (if b.newIndex = b.reqIds.length then b.reqIds ++ [some r.reqId]
          else b.reqIds.set b.newIndex (some r.reqId)) ∧
      (b.addRequest r).reqIdToIndex = b.reqIdToIndex.set r.reqId b.newIndex ∧
      (b.addRequest r).owner = Function.update b.owner b.newIndex (some r) ∧
      (b.addRequest r).builder =
        { b.builder.popRemoved with added := b.builder.added ++ addedEntry b.newIndex r } := by
  unfold addRequest addTask
  dsimp only
  split <;> exact ⟨rfl, rfl, rfl, rfl⟩

/-- A request is added to the lowest hole, or after the last row. -/
lemma Wf.newIndex_cases (h : b.Wf) :
    (b.builder.removed = [] ∧ b.newIndex = b.reqIds.length ∧ b.builder.popRemoved.removed = []) ∨
      (b.newIndex ∈ b.builder.removed ∧ (∀ j ∈ b.builder.removed, b.newIndex ≤ j) ∧
        b.builder.popRemoved.removed = b.builder.removed.erase b.newIndex) := by
  cases hp : b.builder.peekRemoved with
  | none =>
    have hnil : b.builder.removed = [] := List.min?_eq_none_iff.1 hp
    have hcount := h.count
    rw [hnil, List.length_nil] at hcount
    refine .inl ⟨hnil, ?_, ?_⟩
    · rw [newIndex, hp, Option.getD_none]
      omega
    · rw [BatchUpdateBuilder.popRemoved, hp]
      exact hnil
  | some k =>
    obtain ⟨hk, hmin⟩ := List.min?_eq_some_iff.1 hp
    have hidx : b.newIndex = k := by rw [newIndex, hp, Option.getD_some]
    rw [hidx]
    refine .inr ⟨hk, fun j hj => hmin j hj, ?_⟩
    rw [BatchUpdateBuilder.popRemoved, hp]

/-- The new row is empty and is a hole or comes after the last one. -/
lemma Wf.newIndex_le (h : b.Wf) : b.newIndex ≤ b.reqIds.length ∧ b.owner b.newIndex = none := by
  rcases h.newIndex_cases with ⟨-, he, -⟩ | ⟨hm, -, -⟩
  · refine ⟨he.le, ?_⟩
    cases ho : b.owner b.newIndex with
    | none => rfl
    | some r =>
      have := h.lt_length ho
      omega
  · obtain ⟨hlt, ho⟩ := (h.holes _).1 hm
    exact ⟨hlt.le, ho⟩

/-- Adding a new request fills a row. -/
lemma Wf.addRequest (h : b.Wf) (hnew : r.reqId ∉ b.reqIdToIndex) : (b.addRequest r).Wf := by
  obtain ⟨hids, hidx, hown, hlog⟩ := addRequest_rows b r
  obtain ⟨hle, hnone⟩ := h.newIndex_le
  have hother : ∀ j r', b.owner j = some r' → r'.reqId ≠ r.reqId := by
    intro j r' ho he
    exact hnew (Dict.mem_of_get? ((h.index r.reqId j).2 (by rw [ho, Option.map_some, he])))
  have hrow : ∀ j, ((b.addRequest r).reqIds[j]?).join =
      if j = b.newIndex then some r.reqId else (b.reqIds[j]?).join := by
    intro j
    rw [hids]
    split
    · next he =>
      rw [he]
      by_cases hj : j = b.reqIds.length
      · subst hj
        simp
      · rw [if_neg hj]
        rcases Nat.lt_or_gt_of_ne hj with hlt | hgt
        · rw [List.getElem?_append_left hlt]
        · rw [List.getElem?_eq_none (by simp; omega), List.getElem?_eq_none (by omega)]
    · next he =>
      rw [List.getElem?_set]
      by_cases hj : b.newIndex = j
      · rw [if_pos hj, if_pos hj.symm, if_pos (by omega)]
        rfl
      · rw [if_neg hj, if_neg (Ne.symm hj)]
  have hlen : (b.addRequest r).reqIds.length =
      if b.newIndex = b.reqIds.length then b.reqIds.length + 1 else b.reqIds.length := by
    rw [hids]
    split <;> simp
  refine ⟨⟨fun j => ?_, fun x j => ?_⟩, ?_, fun j => ?_⟩
  · rw [hrow, hown]
    by_cases hj : j = b.newIndex
    · rw [hj, if_pos rfl, Function.update_self, Option.map_some]
    · rw [if_neg hj, Function.update_of_ne hj]
      exact h.ids j
  · rw [hidx, hown, Dict.get?_set]
    by_cases hj : j = b.newIndex
    · rw [hj, Function.update_self, Option.map_some]
      by_cases hx : x = r.reqId
      · simp [hx]
      · rw [if_neg hx, h.index, hnone]
        simpa using Ne.symm hx
    · rw [Function.update_of_ne hj]
      by_cases hx : x = r.reqId
      · rw [if_pos hx]
        refine ⟨fun he => absurd (Option.some.inj he).symm hj, fun ho => ?_⟩
        obtain ⟨r', hr', he⟩ := Option.map_eq_some_iff.1 ho
        exact absurd (he.trans hx) (hother j r' hr')
      · rw [if_neg hx]
        exact h.index x j
  · rw [hlog]
    rcases h.newIndex_cases with ⟨-, -, hpop⟩ | ⟨-, -, hpop⟩
    · rw [hpop]
      exact List.nodup_nil
    · rw [hpop]
      exact h.nodup.erase _
  · rw [hlog, hlen, hown]
    rcases h.newIndex_cases with ⟨hnil, he, hpop⟩ | ⟨hm, -, hpop⟩
    · rw [hpop, if_pos he]
      refine ⟨nofun, fun ⟨hj, ho⟩ => ?_⟩
      by_cases hjn : j = b.newIndex
      · rw [hjn, Function.update_self] at ho
        cases ho
      · rw [Function.update_of_ne hjn] at ho
        have := (h.holes j).2 ⟨by omega, ho⟩
        rw [hnil] at this
        cases this
    · have hlt := ((h.holes _).1 hm).1
      rw [hpop, if_neg (by omega), h.nodup.mem_erase_iff, h.holes]
      by_cases hjn : j = b.newIndex
      · rw [hjn, Function.update_self]
        simp
      · rw [Function.update_of_ne hjn]
        simp [hjn]

/-- The loop of `condense`: rows from `n` on are empty, and the log has the holes below. -/
structure Condensing (n : Nat) (b : InputBatch) : Prop extends Indexed b where
  nodup : b.builder.removed.Nodup
  above : ∀ i, n ≤ i → b.owner i = none
  empty : ∀ i ∈ b.builder.removed, b.owner i = none
  hole : ∀ i < n, b.owner i = none → i ∈ b.builder.removed
  length : n ≤ b.reqIds.length

/-- What a move does to the rows. -/
lemma moveRow_rows (b : InputBatch) (src dst : Nat) (rid : ReqId) :
    (b.moveRow src dst rid).reqIds = (b.reqIds.set dst (some rid)).set src none ∧
      (b.moveRow src dst rid).reqIdToIndex = b.reqIdToIndex.set rid dst ∧
      (b.moveRow src dst rid).owner =
        Function.update (Function.update b.owner dst (b.owner src)) src none ∧
      (b.moveRow src dst rid).builder =
        if b.isPoolingModel then b.builder.popRemoved
        else { b.builder.popRemoved with moved := b.builder.moved ++ [(src, dst, .unidirectional)] } := by
  have hmoved : b.builder.popRemoved.moved = b.builder.moved := by
    unfold BatchUpdateBuilder.popRemoved
    split <;> rfl
  unfold moveRow
  dsimp only
  split
  · exact ⟨rfl, rfl, rfl, rfl⟩
  · refine ⟨rfl, rfl, rfl, ?_⟩
    simp only [moveSampling, hmoved]

/-- The owner of a row after a move. -/
lemma owner_moveRow (b : InputBatch) (src dst : Nat) (rid : ReqId) (j : Nat) :
    (b.moveRow src dst rid).owner j =
      if j = src then none else if j = dst then b.owner src else b.owner j := by
  rw [(moveRow_rows b src dst rid).2.2.1, Function.update_apply, Function.update_apply]

/-- The holes after a move. -/
lemma removed_moveRow (b : InputBatch) (src : Nat) (rid : ReqId) {dst : Nat}
    (hd : b.builder.peekRemoved = some dst) :
    (b.moveRow src dst rid).builder.removed = b.builder.removed.erase dst := by
  have hpop : b.builder.popRemoved.removed = b.builder.removed.erase dst := by
    rw [BatchUpdateBuilder.popRemoved, hd]
  rw [(moveRow_rows b src dst rid).2.2.2]
  split <;> exact hpop

/-- A move of the last request into the lowest hole. -/
lemma Condensing.moveRow {last dst : Nat} (h : b.Condensing (last + 1))
    (hd : b.builder.peekRemoved = some dst) (hr : b.owner last = some r) (hlt : dst < last) :
    (b.moveRow last dst r.reqId).Condensing last := by
  obtain ⟨hids, hidx, hown, -⟩ := moveRow_rows b last dst r.reqId
  have hrem := removed_moveRow b last r.reqId hd
  have hown' := owner_moveRow b last dst r.reqId
  have hdm : dst ∈ b.builder.removed := (List.min?_eq_some_iff.1 hd).1
  have hdn : b.owner dst = none := h.empty dst hdm
  have hlen := h.length
  refine ⟨⟨fun j => ?_, fun x j => ?_⟩, ?_, fun j hj => ?_, fun j hj => ?_, fun j hj ho => ?_, ?_⟩
  · rw [hids, hown', List.getElem?_set, List.getElem?_set]
    by_cases h1 : last = j
    · rw [if_pos h1, if_pos h1.symm, List.length_set, if_pos (by omega)]
      rfl
    · rw [if_neg h1, if_neg (Ne.symm h1)]
      by_cases h2 : dst = j
      · rw [if_pos h2, if_pos h2.symm, if_pos (by omega), hr]
        rfl
      · rw [if_neg h2, if_neg (Ne.symm h2)]
        exact h.ids j
  · rw [hidx, hown', Dict.get?_set]
    by_cases hx : x = r.reqId
    · rw [if_pos hx]
      by_cases h1 : j = last
      · rw [if_pos h1]
        refine ⟨fun he => ?_, nofun⟩
        have := Option.some.inj he
        omega
      · rw [if_neg h1]
        by_cases h2 : j = dst
        · simp [h2, hr, hx]
        · rw [if_neg h2]
          refine ⟨fun he => absurd (Option.some.inj he).symm h2, fun ho => ?_⟩
          obtain ⟨r', hr', he⟩ := Option.map_eq_some_iff.1 ho
          exact absurd (h.inj hr' hr (he.trans hx)) h1
    · rw [if_neg hx, h.index]
      by_cases h1 : j = last
      · rw [if_pos h1, h1, hr]
        simpa using Ne.symm hx
      · rw [if_neg h1]
        by_cases h2 : j = dst
        · rw [if_pos h2, h2, hdn, hr]
          simpa using Ne.symm hx
        · rw [if_neg h2]
  · rw [hrem]
    exact h.nodup.erase _
  · rw [hown']
    by_cases h1 : j = last
    · rw [if_pos h1]
    · rw [if_neg h1, if_neg (by omega)]
      exact h.above j (by omega)
  · rw [hrem, h.nodup.mem_erase_iff] at hj
    rw [hown', if_neg hj.1]
    split
    · rfl
    · exact h.empty j hj.2
  · rw [hown', if_neg (by omega)] at ho
    rw [hrem, h.nodup.mem_erase_iff]
    by_cases h2 : j = dst
    · rw [if_pos h2, hr] at ho
      cases ho
    · rw [if_neg h2] at ho
      exact ⟨h2, h.hole j (by omega) ho⟩
  · rw [hids, List.length_set, List.length_set]
    omega

/-- A move keeps the number of requests. -/
lemma Indexed.numReqs_moveRow {src : Nat} (h : b.Indexed) (ho : b.owner src = some r) (dst : Nat) :
    (b.moveRow src dst r.reqId).numReqs = b.numReqs := by
  have hmem : r.reqId ∈ b.reqIdToIndex :=
    Dict.mem_of_get? ((h.index r.reqId src).2 (by rw [ho, Option.map_some]))
  have hkeys := congrArg List.length (Dict.keys_set_of_mem dst hmem)
  rw [numReqs, (moveRow_rows b src dst r.reqId).2.1]
  simpa [numReqs, Dict.size, Dict.keys] using hkeys

/-- The rule for the loop of `condense`: what skipping an empty row and moving a request keep holds at
its end, where the filled rows are the first ones. -/
lemma Condensing.loop {P : Nat → InputBatch → Prop} (h : b.Condensing n) (hP : P n b)
    (skip : ∀ {c last}, last ∈ c.builder.removed → P (last + 1) c → P last c)
    (move : ∀ {c last dst r}, c.Condensing (last + 1) → c.builder.peekRemoved = some dst →
      c.owner last = some r → dst < last → P (last + 1) c → P last (c.moveRow last dst r.reqId)) :
    ∃ m, P m (condenseFrom n b) ∧ (condenseFrom n b).Condensing m ∧
      ∀ i, ((condenseFrom n b).owner i).isSome ↔ i < m := by
  have done : ∀ {m : Nat} {c : InputBatch}, c.Condensing m → (∀ i < m, i ∉ c.builder.removed) →
      ∀ i, (c.owner i).isSome ↔ i < m := by
    intro m c hc hnot i
    constructor
    · intro hs
      by_contra hlt
      rw [hc.above i (by omega)] at hs
      cases hs
    · intro hi
      cases ho : c.owner i with
      | some r => rfl
      | none => exact absurd (hc.hole i hi ho) (hnot i hi)
  induction n generalizing b with
  | zero => exact ⟨0, hP, h, done h fun i hi => by omega⟩
  | succ last ih =>
    rw [condenseFrom]
    cases hd : b.builder.peekRemoved with
    | none =>
      have hnil : b.builder.removed = [] := List.min?_eq_none_iff.1 hd
      exact ⟨last + 1, hP, h, done h fun i _ => by rw [hnil]; exact nofun⟩
    | some dst =>
      obtain ⟨-, hmin⟩ := List.min?_eq_some_iff.1 hd
      dsimp only
      split
      · next hlast =>
        refine ih ⟨h.toIndexed, h.nodup, fun i hi => ?_, h.empty, fun i hi => h.hole i (by omega), ?_⟩
          (skip hlast hP)
        · rcases Nat.eq_or_lt_of_le hi with rfl | hi
          · exact h.empty _ hlast
          · exact h.above i hi
        · have := h.length
          omega
      next hlast =>
      split
      · next hle =>
        refine ⟨last + 1, hP, h, done h fun i hi hm => ?_⟩
        have := hmin i hm
        have hil : i = last := by omega
        exact hlast (hil ▸ hm)
      next hle =>
      cases ho : b.owner last with
      | none => exact absurd (h.hole last (by omega) ho) hlast
      | some r =>
        have hid := h.ids last
        rw [ho, Option.map_some] at hid
        rw [hid]
        exact ih (h.moveRow hd ho (by omega)) (move h hd ho (by omega) hP)

/-- Before the loop the rows are well formed. -/
lemma Wf.condensing (h : b.Wf) : b.Condensing (b.numReqs + b.builder.removed.length) := by
  rw [h.count]
  refine ⟨h.toIndexed, h.nodup, fun i hi => ?_, fun i hi => ((h.holes i).1 hi).2,
    fun i hi ho => (h.holes i).2 ⟨hi, ho⟩, le_refl _⟩
  cases ho : b.owner i with
  | none => rfl
  | some r =>
    have := h.lt_length ho
    omega

/-- The rule for `condense`: it packs the rows, and what the loop keeps holds of the result, up to the
trimming of the list of ids. -/
lemma Wf.condense {P : Nat → InputBatch → Prop} (h : b.Wf)
    (hP : P (b.numReqs + b.builder.removed.length) b)
    (skip : ∀ {c last}, last ∈ c.builder.removed → P (last + 1) c → P last c)
    (move : ∀ {c last dst r}, c.Condensing (last + 1) → c.builder.peekRemoved = some dst →
      c.owner last = some r → dst < last → P (last + 1) c → P last (c.moveRow last dst r.reqId)) :
    b.condense.Packed ∧ ∃ m c ids, P m c ∧ b.condense = { c with reqIds := ids } := by
  unfold InputBatch.condense
  split
  · next hnil =>
    exact ⟨h.packed (List.isEmpty_iff.1 hnil), _, b, b.reqIds, hP, rfl⟩
  next hne =>
  split
  · next h0 =>
    refine ⟨⟨⟨fun i => ?_, h.index⟩, fun i => ?_, h0.symm⟩, _, b, [], hP, rfl⟩
    all_goals
      have hnone : b.owner i = none := by
        cases ho : b.owner i with
        | none => rfl
        | some r =>
          have hm := h.mem_values.2 (Option.isSome_iff_exists.2 ⟨r, ho⟩)
          have hlen : b.reqIdToIndex.values.length = 0 := by
            rw [Dict.values, List.length_map]
            exact h0
          rw [List.length_eq_zero_iff.1 hlen] at hm
          cases hm
    · simp [hnone]
    · have hsize : numReqs { b with reqIds := [] } = 0 := h0
      simp [hnone, hsize]
  next h0 =>
  obtain ⟨m, hPm, hc, hfull⟩ := h.condensing.loop
    (P := fun n c => P n c ∧ c.numReqs = b.numReqs) ⟨hP, rfl⟩
    (fun hm hp => ⟨skip hm hp.1, hp.2⟩)
    (fun hc hd ho hlt hp => ⟨move hc hd ho hlt hp.1, (hc.numReqs_moveRow ho _).trans hp.2⟩)
  generalize b.condenseFrom (b.numReqs + b.builder.removed.length) = c at hPm hc hfull ⊢
  have hm : m = b.numReqs := by
    have hperm : c.reqIdToIndex.values.Perm (List.range m) := by
      refine (List.perm_ext_iff_of_nodup hc.values_nodup List.nodup_range).2 fun i => ?_
      rw [hc.mem_values, hfull, List.mem_range]
    have hlen := hperm.length_eq
    rw [List.length_range, Dict.values, List.length_map] at hlen
    exact hlen.symm.trans hPm.2
  subst hm
  have hlen := hc.length
  have hnum : numReqs { c with reqIds := c.reqIds.take b.numReqs } = b.numReqs := hPm.2
  refine ⟨⟨⟨fun i => ?_, hc.index⟩, fun i => ?_, ?_⟩, _, c, _, hPm.1, rfl⟩
  · dsimp only
    rw [List.getElem?_take]
    split
    · exact hc.ids i
    · next hlt =>
      rw [hc.above i (by omega)]
      rfl
  · rw [hnum]
    exact hfull i
  · rw [hnum]
    dsimp only
    rw [List.length_take]
    omega

/-- An exchange, by value. -/
lemma swapValues_apply {α : Type} (t : Nat → α) (i1 i2 j : Nat) :
    swapValues t i1 i2 j = if j = i2 then t i1 else if j = i1 then t i2 else t j := by
  rw [swapValues, Function.update_apply, Function.update_apply]

/-- An exchange reads the other row. -/
lemma swapValues_eq {α : Type} (t : Nat → α) (i1 i2 j : Nat) :
    swapValues t i1 i2 j = t (Equiv.swap i1 i2 j) := by
  rw [swapValues_apply, Equiv.swap_apply_def]
  by_cases h1 : j = i1
  · rw [if_pos h1, if_pos h1]
    by_cases h2 : j = i2
    · rw [if_pos h2, ← h1, ← h2]
    · rw [if_neg h2]
  · rw [if_neg h1, if_neg h1]
    split <;> rfl

/-- What a swap of two filled rows does to the rows. -/
lemma swapStates_rows {i1 i2 : Nat} {r1 r2 : CachedRequestState} (h : b.Indexed)
    (h1 : b.owner i1 = some r1) (h2 : b.owner i2 = some r2) :
    (b.swapStates i1 i2).reqIds = (b.reqIds.set i1 (some r2.reqId)).set i2 (some r1.reqId) ∧
      (b.swapStates i1 i2).reqIdToIndex = (b.reqIdToIndex.set r1.reqId i2).set r2.reqId i1 ∧
      (b.swapStates i1 i2).owner = swapValues b.owner i1 i2 ∧
      (b.swapStates i1 i2).builder =
        if b.isPoolingModel then b.builder
        else { b.builder with moved := b.builder.moved ++ [(i1, i2, .swap)] } := by
  have e1 : (b.reqIds[i1]?).join = some r1.reqId := by rw [h.ids, h1, Option.map_some]
  have e2 : (b.reqIds[i2]?).join = some r2.reqId := by rw [h.ids, h2, Option.map_some]
  have g1 : b.reqIdToIndex.getD r1.reqId 0 = i1 := by
    rw [Dict.getD_eq, (h.index r1.reqId i1).2 (by rw [h1, Option.map_some]), Option.getD_some]
  have g2 : b.reqIdToIndex.getD r2.reqId 0 = i2 := by
    rw [Dict.getD_eq, (h.index r2.reqId i2).2 (by rw [h2, Option.map_some]), Option.getD_some]
  unfold swapStates
  rw [e1, e2]
  dsimp only
  rw [g1, g2]
  split <;> exact ⟨rfl, rfl, rfl, rfl⟩

/-- Swapping filled rows keeps the batch packed. -/
lemma Packed.swapStates {i1 i2 : Nat} (h : b.Packed) (h1 : i1 < b.numReqs) (h2 : i2 < b.numReqs) :
    (b.swapStates i1 i2).Packed ∧ (b.swapStates i1 i2).numReqs = b.numReqs := by
  obtain ⟨r1, ho1⟩ := Option.isSome_iff_exists.1 ((h.full i1).2 h1)
  obtain ⟨r2, ho2⟩ := Option.isSome_iff_exists.1 ((h.full i2).2 h2)
  obtain ⟨hids, hidx, hown, -⟩ := swapStates_rows h.toIndexed ho1 ho2
  have hlen := h.length
  have hown' : ∀ j, (b.swapStates i1 i2).owner j =
      if j = i2 then b.owner i1 else if j = i1 then b.owner i2 else b.owner j := by
    intro j
    rw [hown, swapValues_apply]
  have hmem : ∀ {i r}, b.owner i = some r → r.reqId ∈ b.reqIdToIndex := fun ho =>
    Dict.mem_of_get? ((h.index _ _).2 (by rw [ho, Option.map_some]))
  have hnum : (b.swapStates i1 i2).numReqs = b.numReqs := by
    have hkeys := congrArg List.length
      ((Dict.keys_set_of_mem i1 (Dict.mem_set.2 (.inr (hmem ho2)))).trans
        (Dict.keys_set_of_mem i2 (hmem ho1)))
    rw [numReqs, hidx]
    simpa [numReqs, Dict.size, Dict.keys] using hkeys
  refine ⟨⟨⟨fun j => ?_, fun x j => ?_⟩, fun j => ?_, ?_⟩, hnum⟩
  · rw [hids, hown', List.getElem?_set, List.getElem?_set, List.length_set]
    by_cases hj2 : i2 = j
    · rw [if_pos hj2, if_pos hj2.symm, if_pos (by omega), ho1]
      rfl
    · rw [if_neg hj2, if_neg (Ne.symm hj2)]
      by_cases hj1 : i1 = j
      · rw [if_pos hj1, if_pos hj1.symm, if_pos (by omega), ho2]
        rfl
      · rw [if_neg hj1, if_neg (Ne.symm hj1)]
        exact h.ids j
  · rw [hidx, hown', Dict.get?_set, Dict.get?_set]
    -- a row that is not swapped keeps its request, and the swapped ones differ from it
    have hrow : ∀ {i r}, b.owner i = some r → x = r.reqId → j ≠ i →
        ¬ (b.owner j).map CachedRequestState.reqId = some x := by
      intro i r ho hx hji hj
      obtain ⟨r', hr', he⟩ := Option.map_eq_some_iff.1 hj
      exact hji (h.inj hr' ho (he.trans hx))
    by_cases hx2 : x = r2.reqId
    · rw [if_pos hx2]
      by_cases hj2 : j = i2
      · rw [if_pos hj2, ho1, Option.map_some, hx2]
        constructor
        · intro he
          have heq : i1 = i2 := (Option.some.inj he).trans hj2
          subst heq
          rw [ho1] at ho2
          cases ho2
          rfl
        · intro he
          rw [hj2, h.inj ho1 ho2 (Option.some.inj he)]
      · rw [if_neg hj2]
        by_cases hj1 : j = i1
        · simp [hj1, ho2, hx2]
        · rw [if_neg hj1]
          exact ⟨fun he => absurd (Option.some.inj he).symm hj1, fun hj => absurd hj (hrow ho2 hx2 hj2)⟩
    · rw [if_neg hx2]
      by_cases hx1 : x = r1.reqId
      · rw [if_pos hx1]
        by_cases hj2 : j = i2
        · simp [hj2, ho1, hx1]
        · rw [if_neg hj2]
          by_cases hj1 : j = i1
          · rw [if_pos hj1, ho2, Option.map_some]
            refine ⟨fun he => absurd (Option.some.inj he).symm hj2, fun he => ?_⟩
            exact absurd (Option.some.inj he).symm hx2
          · rw [if_neg hj1]
            exact ⟨fun he => absurd (Option.some.inj he).symm hj2, fun hj => absurd hj (hrow ho1 hx1 hj1)⟩
      · rw [if_neg hx1, h.index]
        by_cases hj2 : j = i2
        · rw [if_pos hj2, hj2, ho1, ho2]
          simp [Ne.symm hx1, Ne.symm hx2]
        · rw [if_neg hj2]
          by_cases hj1 : j = i1
          · rw [if_pos hj1, hj1, ho1, ho2]
            simp [Ne.symm hx1, Ne.symm hx2]
          · rw [if_neg hj1]
  · rw [hnum, hown']
    split
    · next hj => simp [hj, ho1, h2]
    · split
      · next hj => simp [hj, ho2, h1]
      · exact h.full j
  · rw [hnum, hids, List.length_set, List.length_set]
    exact hlen

end InputBatch

/-- The rows between two calls: well formed, and packed from `condense` on. -/
structure BatchState.Wf (s : BatchState) : Prop where
  wf : s.phase ≠ .swapping → s.batch.Wf
  packed : s.phase = .swapping → s.batch.Packed

/-- The rows of an empty batch. -/
lemma BatchState.Wf.init {s : BatchState} (hp : s.phase = .removing) (ho : ∀ i, s.batch.owner i = none)
    (hids : s.batch.reqIds = []) (hidx : s.batch.reqIdToIndex = ∅) (hlog : s.batch.builder = {}) :
    s.Wf := by
  refine ⟨fun _ => ⟨⟨fun i => ?_, fun rid i => ?_⟩, ?_, fun i => ?_⟩, fun hsw => ?_⟩
  · rw [hids, ho]
    rfl
  · rw [hidx, ho]
    simp
  · rw [hlog]
    exact List.nodup_nil
  · rw [hlog, hids]
    simp
  · rw [hp] at hsw
    cases hsw

/-- The ids and the index follow the owners in every phase. -/
lemma BatchState.Wf.indexed {s : BatchState} (h : s.Wf) : s.batch.Indexed := by
  by_cases hp : s.phase = .swapping
  · exact (h.packed hp).toIndexed
  · exact (h.wf hp).toIndexed

/-- Every call keeps the rows well formed. -/
lemma BatchState.Wf.next {s : BatchState} {c : Call} (h : s.Wf) (hc : s.Allowed c) : (s.next c).Wf := by
  cases c with
  | remove rid =>
    have hp : s.phase = .removing := hc
    refine ⟨fun _ => (h.wf (by rw [hp]; nofun)).removeRequest rid, fun hsw => ?_⟩
    have hsw : s.phase = .swapping := hsw
    rw [hp] at hsw
    cases hsw
  | add r => exact ⟨fun _ => (h.wf hc.1).addRequest hc.2.1, nofun⟩
  | condense =>
    have hpacked := ((h.wf hc).condense (P := fun _ _ => True) trivial (fun _ _ => trivial)
      (fun _ _ _ _ _ => trivial)).1
    exact ⟨fun hsw => absurd rfl hsw, fun _ => hpacked⟩
  | swap i1 i2 =>
    refine ⟨fun hsw => absurd hc.1 hsw, fun _ => ?_⟩
    exact ((h.packed hc.1).swapStates hc.2.1 hc.2.2).1
  | refresh => exact ⟨fun _ => (h.packed hc).wf, nofun⟩

end Gambit.Worker
