import Gambit.Lib.Links
import Gambit.KV.Accounts

/-!
# The queue of free blocks

Model of `FreeKVCacheBlockQueue`: a doubly linked list through the blocks themselves, between a fake head and a
fake tail. `links` holds the attributes `prev_free_block` and `next_free_block` of every block there is, in the
queue or not; a block that was never in a queue has neither.

The bulk operations write the links on their own, not through the operations on one block. An operation that
raises has not written anything when it is called as it should be, so a run goes on from the queue as it was.

The block pool keeps its free blocks as a list. `pool_over_queue` says that, while a linked queue is that list, what
the pool does to its list the operations of the queue do to the links.
-/

namespace Gambit.KV
open Gambit.Lib

/-- A node of the linked list. -/
inductive Node (α : Type) where
  | head
  | tail
  | block (b : α)
  deriving DecidableEq

/-- Why an operation of the queue raises. -/
inductive QueueError where
  /-- `num_free_blocks ({self.num_free_blocks}) is out of sync with the free list.` -/
  | outOfSync
  /-- `No free blocks available` -/
  | noFreeBlocks
  /-- `Invalid block found in popleft() which doesn't have a valid next_free_block` -/
  | invalidFirst
  /-- the assertions of `popleft_n`: `self.num_free_blocks >= n`, `curr_block is not None` -/
  | tooFewBlocks
  /-- `remove() called on an invalid block: {block}` -/
  | invalidBlock
  /-- `prev_free_block of fake_free_list_tail should always exist` -/
  | noLastBlock
  /-- `next_free_block of fake_free_list_head should always exist` -/
  | noFirstBlock

/-- Python `FreeKVCacheBlockQueue`. -/
structure FreeQueue (α : Type) where
  numFreeBlocks : Int
  links : Links (Node α)

namespace FreeQueue
variable {α : Type} [DecidableEq α]

/-- The loop of `__init__` over consecutive blocks; `p` is the block before. -/
def linkConsecutive : Option α → List α → Links (Node α) → Links (Node α)
  | _, [], s => s
  | p, b :: blocks, s =>
    let s := match p with
      | some a => s.setPrev (.block b) (some (.block a))
      | none => s
    let s := match blocks with
      | c :: _ => s.setNext (.block b) (some (.block c))
      | [] => s
    linkConsecutive (some b) blocks s

/-- Python `__init__`, on blocks that are in no queue. -/
def init (blocks : List α) : FreeQueue α where
  numFreeBlocks := blocks.length
  links :=
    let s := linkConsecutive none blocks .empty
    match blocks.head?, blocks.getLast? with
    | some first, some last =>
      (((s.setNext .head (some (.block first))).setPrev (.block first) (some .head)).setPrev .tail
        (some (.block last))).setNext (.block last) (some .tail)
    | _, _ => (s.setNext .head (some .tail)).setPrev .tail (some .head)

variable (q : FreeQueue α)

/-- What `popleft` raises on an empty list. -/
def emptyError : QueueError := if q.numFreeBlocks = 0 then .noFreeBlocks else .outOfSync

/-- Python `popleft`. -/
def popleft : Except QueueError (Node α × FreeQueue α) :=
  match q.links.next .head with
  | none => .error q.emptyError
  | some first =>
    if first = .tail then .error q.emptyError
    else
      match q.links.next first with
      | none => .error .invalidFirst
      | some second =>
        .ok (first, {
          numFreeBlocks := q.numFreeBlocks - 1
          links := ((q.links.setNext .head (some second)).setPrev second (some .head)).clear first })

/-- The loop of `popleft_n`: the popped blocks, the block after them, and the links. -/
def popLoop : Nat → Option (Node α) → Links (Node α) →
    Except QueueError (List (Node α) × Option (Node α) × Links (Node α))
  | 0, curr, s => .ok ([], curr, s)
  | _ + 1, none, _ => .error .tooFewBlocks
  | n + 1, some b, s => (popLoop n (s.next b) (s.clear b)).map fun r => (b :: r.1, r.2)

/-- Python `popleft_n`. -/
def popleftN (n : Nat) : Except QueueError (List (Node α) × FreeQueue α) :=
  if n = 0 then .ok ([], q)
  else if q.numFreeBlocks < n then .error .tooFewBlocks
  else
    (popLoop n (q.links.next .head) q.links).map fun r =>
      (r.1, {
        numFreeBlocks := q.numFreeBlocks - n
        links := match r.2.1 with
          | some curr => (r.2.2.setNext .head (some curr)).setPrev curr (some .head)
          | none => r.2.2 })

/-- Python `remove`. -/
def remove (b : α) : Except QueueError (FreeQueue α) :=
  match q.links.prev (.block b), q.links.next (.block b) with
  | some p, some n =>
    .ok {
      numFreeBlocks := q.numFreeBlocks - 1
      links := ((q.links.setNext p (some n)).setPrev n (some p)).clear (.block b) }
  | _, _ => .error .invalidBlock

/-- Python `append`. -/
def append (b : α) : Except QueueError (FreeQueue α) :=
  match q.links.prev .tail with
  | none => .error .noLastBlock
  | some last =>
    .ok {
      numFreeBlocks := q.numFreeBlocks + 1
      links := (((q.links.setNext last (some (.block b))).setPrev (.block b) (some last)).setNext (.block b)
        (some .tail)).setPrev .tail (some (.block b)) }

/-- The loop of `append_n`, and the connection of the last block to the fake tail. -/
def linkAll : Node α → List α → Links (Node α) → Links (Node α)
  | last, [], s => (s.setNext last (some .tail)).setPrev .tail (some last)
  | last, b :: blocks, s =>
    linkAll (.block b) blocks ((s.setPrev (.block b) (some last)).setNext last (some (.block b)))

/-- Python `append_n`. -/
def appendN (blocks : List α) : Except QueueError (FreeQueue α) :=
  if blocks = [] then .ok q
  else
    match q.links.prev .tail with
    | none => .error .noLastBlock
    | some last =>
      .ok {
        numFreeBlocks := q.numFreeBlocks + blocks.length
        links := linkAll last blocks q.links }

omit [DecidableEq α] in
/-- Python `get_all_free_blocks`, with fuel for its loop. -/
def getAllFreeBlocks (fuel : Nat) : Option (Except QueueError (List (Node α))) :=
  match q.links.next .head with
  | none => some (.error .noFirstBlock)
  | some first => (collect q.links.next fuel first).map .ok

/-- The nodes of the linked list of a list of blocks. -/
def path (l : List α) : List (Node α) := .head :: (l.map .block ++ [.tail])

/-- The queue is the list: its links thread the list and no block outside it, and it counts its blocks. -/
structure Represents (q : FreeQueue α) (l : List α) : Prop where
  count : q.numFreeBlocks = l.length
  nodup : l.Nodup
  threads : Threads q.links (path l)

variable {q : FreeQueue α} {l : List α} {b : α} {s : Links (Node α)}

omit [DecidableEq α] in
lemma nodup_map_block (h : l.Nodup) : (l.map Node.block).Nodup :=
  h.map fun _ _ e => Node.block.inj e

omit [DecidableEq α] in
lemma path_nodup (h : l.Nodup) : (path l).Nodup := by
  unfold path
  rw [List.nodup_cons, List.nodup_append']
  refine ⟨by simp, nodup_map_block h, List.nodup_singleton _, ?_⟩
  intro n hn
  simp only [List.mem_map] at hn
  obtain ⟨b, -, rfl⟩ := hn
  simp

/-- One iteration writes the links of one block to its neighbours. -/
lemma linkConsecutive_cons (p : Option α) (b : α) (l : List α) (s : Links (Node α)) :
    ∃ s', linkConsecutive p (b :: l) s = linkConsecutive (some b) l s' ∧
      (∀ n, s'.next n = if n = .block b then (l.head?.map .block).or (s.next n) else s.next n) ∧
      (∀ n, s'.prev n = if n = .block b then (p.map .block).or (s.prev n) else s.prev n) := by
  refine ⟨_, rfl, ?_, ?_⟩
  · intro n
    cases p <;> cases l <;> simp
  · intro n
    cases p <;> cases l <;> simp

lemma linkConsecutive_next (hnd : l.Nodup) (p : Option α) (s : Links (Node α)) (n : Node α) :
    (linkConsecutive p l s).next n = (after (l.map Node.block) n).or (s.next n) := by
  induction l generalizing p s with
  | nil => simp [linkConsecutive]
  | cons b l ih =>
    rw [List.nodup_cons] at hnd
    obtain ⟨s', e, hn, -⟩ := linkConsecutive_cons p b l s
    rw [e, ih hnd.2, hn]
    have hb : n = .block b → after (l.map Node.block) n = none := by
      intro e
      apply after_of_not_mem
      rw [e]
      simpa using hnd.1
    by_cases h1 : n = .block b
    · rw [hb h1, if_pos h1]
      cases l <;> simp [h1]
    · rw [if_neg h1]
      cases l <;> simp [h1]

lemma linkConsecutive_prev (p : Option α) (hnd : (p.toList ++ l).Nodup) (s : Links (Node α)) (n : Node α) :
    (linkConsecutive p l s).prev n =
      (after ((p.toList ++ l).map Node.block).reverse n).or (s.prev n) := by
  induction l generalizing p s with
  | nil => cases p <;> simp [linkConsecutive]
  | cons b l ih =>
    have hnd' : (b :: l).Nodup := hnd.sublist (List.sublist_append_right _ _)
    obtain ⟨s', e, -, hp⟩ := linkConsecutive_cons p b l s
    have hr : (((some b).toList ++ l).map Node.block).reverse = (l.map Node.block).reverse ++ [.block b] := by
      simp
    rw [e, ih (some b) hnd', hp, hr]
    cases p with
    | none => simp
    | some a =>
      have hr' : (((some a).toList ++ b :: l).map Node.block).reverse =
          (l.map Node.block).reverse ++ .block b :: [.block a] := by simp
      have hb : n = .block b → n ∉ (l.map Node.block).reverse := by
        intro e
        have : b ∉ l := (List.nodup_cons.mp hnd').1
        simpa [e] using this
      rw [hr', after_append _ [Node.block a]]
      by_cases h1 : n ∈ (l.map Node.block).reverse
      · rw [if_pos h1, if_neg fun e => hb e h1]
      · rw [if_neg h1, after_append _ [], if_neg h1]
        simp
        split <;> rfl

/-- The constructor makes the queue of its blocks. -/
lemma init_represents (hnd : l.Nodup) : Represents (init l) l where
  count := rfl
  nodup := hnd
  threads := by
    cases hf : l.head? with
    | none =>
      cases List.head?_eq_none_iff.mp hf
      refine ⟨?_, ?_⟩
      · intro n
        simp [init, linkConsecutive, path]
      · intro n
        simp [init, linkConsecutive, path]
    | some first =>
      obtain ⟨last, hl⟩ : ∃ last, l.getLast? = some last := by
        cases l with
        | nil => cases hf
        | cons b l => exact ⟨_, List.getLast?_eq_getLast_of_ne_nil (List.cons_ne_nil b l)⟩
      have hlinks : (init l).links = ((((linkConsecutive none l .empty).setNext .head
          (some (.block first))).setPrev (.block first) (some .head)).setPrev .tail
            (some (.block last))).setNext (.block last) (some .tail) := by
        unfold init
        rw [hf, hl]
      have hm := nodup_map_block hnd
      refine ⟨?_, ?_⟩
      · intro n
        rw [hlinks, path, after_ends (a := .block first) (b := .block last) hm (by simp [hf]) (by simp [hl])
          (by simp)]
        simp [linkConsecutive_next hnd]
      · intro n
        have hr : (path l).reverse = .tail :: ((l.map Node.block).reverse ++ [.head]) := by simp [path]
        rw [hlinks, hr, after_ends (a := .block last) (b := .block first) (List.nodup_reverse.mpr hm)
          (by simp [hl]) (by simp [hf]) (by simp)]
        simp only [Links.prev_setNext, Links.prev_setPrev, linkConsecutive_prev none (l := l) (by simpa using hnd)]
        by_cases h1 : n = .block first
        · simp [h1]
        · simp [h1]

omit [DecidableEq α] in
/-- After any first blocks there is a next node, the tail if no block. -/
lemma path_append (l l' : List α) : ∃ y v,
    path (l ++ l') = .head :: (l.map .block ++ y :: v) ∧ path l' = .head :: y :: v := by
  obtain ⟨y, v, e⟩ := List.exists_cons_of_ne_nil (l := l'.map Node.block ++ [.tail]) (by simp)
  refine ⟨y, v, ?_, ?_⟩
  · rw [path, List.map_append, List.append_assoc, e]
  · rw [path, e]

lemma popleft_nil (h : Represents q []) : q.popleft = .error .noFreeBlocks := by
  have hn := (h.threads.first (v := []) (path_nodup h.nodup)).1
  have hc : q.numFreeBlocks = 0 := h.count
  simp only [popleft, hn, if_true, emptyError, hc]

lemma popleft_cons (h : Represents q (b :: l)) :
    ∃ q', q.popleft = .ok (.block b, q') ∧ Represents q' l := by
  obtain ⟨y, v, ep, ep'⟩ := path_append [b] l
  have ht := h.threads
  have hnd := path_nodup h.nodup
  rw [show b :: l = [b] ++ l from rfl, ep] at ht hnd
  have hhead : q.links.next .head = some (.block b) := (ht.first hnd).1
  have hb : q.links.next (.block b) = some y := (Threads.between (u := []) ht hnd).2
  have hy : y ≠ .block b := by
    intro e
    rw [e] at hnd
    simp at hnd
  have hyh : y ≠ .head := by
    intro e
    rw [e] at hnd
    simp at hnd
  refine ⟨{
      numFreeBlocks := q.numFreeBlocks - 1
      links := ((q.links.setNext .head (some y)).setPrev y (some .head)).clear (.block b) }, ?_, ?_, ?_, ?_⟩
  · simp only [popleft, hhead, hb, reduceCtorEq, if_false]
  · show q.numFreeBlocks - 1 = _
    rw [h.count, List.length_cons]
    omega
  · exact (List.nodup_cons.mp h.nodup).2
  · rw [ep']
    apply Threads.unlink (u := []) (x := Node.head) (w := [.block b]) (y := y) (v := v) ht hnd
    · intro n
      simp
    · intro n
      simp

/-- The loop of `popleft_n` on nodes that are followed by another. -/
lemma popLoop_path {mid : List (Node α)} {y : Node α} (hnd : (mid ++ [y]).Nodup)
    (hs : ∀ n ∈ mid, s.next n = after (mid ++ [y]) n) :
    ∃ s', popLoop mid.length (mid ++ [y]).head? s = .ok (mid, some y, s') ∧
      (∀ n, s'.next n = if n ∈ mid then none else s.next n) ∧
      (∀ n, s'.prev n = if n ∈ mid then none else s.prev n) := by
  induction mid generalizing s with
  | nil => exact ⟨s, rfl, by simp, by simp⟩
  | cons x mid ih =>
    rw [List.cons_append, List.nodup_cons] at hnd
    obtain ⟨z, w, e⟩ := List.exists_cons_of_ne_nil (l := mid ++ [y]) (by simp)
    have hx : s.next x = (mid ++ [y]).head? := by
      rw [hs x List.mem_cons_self, List.cons_append, e, after_cons_cons, if_pos rfl]
      rfl
    have hne : ∀ n ∈ mid, n ≠ x := by
      intro n hn en
      rw [en] at hn
      exact hnd.1 (List.mem_append_left _ hn)
    have hs' : ∀ n ∈ mid, (s.clear x).next n = after (mid ++ [y]) n := by
      intro n hn
      rw [Links.next_clear, if_neg (hne n hn), hs n (List.mem_cons_of_mem x hn), List.cons_append,
        after_cons_of_ne (hne n hn)]
    obtain ⟨s', hr, hn, hp⟩ := ih hnd.2 hs'
    refine ⟨s', ?_, ?_, ?_⟩
    · simp only [List.length_cons, List.cons_append, List.head?_cons, popLoop, hx, hr]
      rfl
    · intro n
      rw [hn, Links.next_clear]
      by_cases h1 : n = x
      · simp [h1]
      · simp [h1]
    · intro n
      rw [hp, Links.prev_clear]
      by_cases h1 : n = x
      · simp [h1]
      · simp [h1]

lemma popleftN_spec {n : Nat} (h : Represents q l) (hn : n ≤ l.length) :
    ∃ q', q.popleftN n = .ok ((l.take n).map .block, q') ∧ Represents q' (l.drop n) := by
  by_cases h0 : n = 0
  · subst h0
    exact ⟨q, by simp [popleftN], by simpa using h⟩
  obtain ⟨y, v, ep, ep'⟩ := path_append (l.take n) (l.drop n)
  rw [List.take_append_drop] at ep
  have ht := h.threads
  have hnd := path_nodup h.nodup
  rw [ep] at ht hnd
  have hlen : ((l.take n).map Node.block).length = n := by
    rw [List.length_map, List.length_take, Nat.min_eq_left hn]
  have hnd' := (List.nodup_cons.mp hnd).2
  have hseg : ((l.take n).map Node.block ++ [y]).Nodup := by
    apply List.Nodup.sublist _ hnd'
    simp
  have hhead : q.links.next .head = ((l.take n).map Node.block ++ [y]).head? := by
    rw [ht.next]
    cases (l.take n).map Node.block <;> simp
  have hstep : ∀ m ∈ (l.take n).map Node.block, q.links.next m = after ((l.take n).map Node.block ++ [y]) m := by
    intro m hm
    have hmh : m ≠ .head := by
      intro e
      exact (List.nodup_cons.mp hnd).1 (List.mem_append_left _ (e ▸ hm))
    rw [ht.next, after_cons_of_ne hmh, after_append, if_pos hm]
  have hyb : ∀ m ∈ (l.take n).map Node.block, m ≠ y ∧ m ≠ .head := by grind
  obtain ⟨s', hr, hn', hp'⟩ := popLoop_path hseg hstep
  refine ⟨{
      numFreeBlocks := q.numFreeBlocks - n
      links := (s'.setNext .head (some y)).setPrev y (some .head) }, ?_, ?_, ?_, ?_⟩
  · have hc : ¬q.numFreeBlocks < n := by
      rw [h.count]
      omega
    rw [hlen] at hr
    rw [popleftN, if_neg h0, if_neg hc, hhead, hr]
    rfl
  · show q.numFreeBlocks - n = _
    rw [h.count, List.length_drop]
    omega
  · exact List.Nodup.sublist (List.drop_sublist n l) h.nodup
  · rw [ep']
    apply Threads.unlink (u := []) (x := Node.head) (w := (l.take n).map .block) (y := y) (v := v) ht hnd
    · intro m
      rw [Links.next_setPrev, Links.next_setNext, hn']
      by_cases h1 : m ∈ (l.take n).map Node.block
      · rw [if_pos h1, if_pos h1, if_neg (hyb m h1).2]
      · rw [if_neg h1, if_neg h1]
    · intro m
      rw [Links.prev_setPrev, Links.prev_setNext, hp']
      by_cases h1 : m ∈ (l.take n).map Node.block
      · rw [if_pos h1, if_pos h1, if_neg (hyb m h1).1]
      · rw [if_neg h1, if_neg h1]

omit [DecidableEq α] in
/-- Between any two blocks, or a block and an end, there are a node before and a node after. -/
lemma path_split (l l' : List α) : ∃ u x y v, (∀ m, path (l ++ (m ++ l')) = u ++ x :: (m.map .block ++ y :: v)) ∧
    (l' = [] → y = .tail ∧ v = []) := by
  obtain ⟨u, x, e⟩ : ∃ u x, .head :: l.map Node.block = u ++ [x] := by
    refine ⟨_, _, (List.dropLast_append_getLast (List.cons_ne_nil _ _)).symm⟩
  obtain ⟨y, v, e'⟩ := List.exists_cons_of_ne_nil (l := l'.map Node.block ++ [.tail]) (by simp)
  refine ⟨u, x, y, v, ?_, ?_⟩
  · intro m
    have : path (l ++ (m ++ l')) = (.head :: l.map Node.block) ++ (m.map .block ++ (l'.map .block ++ [.tail])) := by
      simp [path]
    rw [this, e, e']
    simp
  · intro hl
    subst hl
    cases e'
    exact ⟨rfl, rfl⟩

lemma remove_mem (h : Represents q l) (hb : b ∈ l) :
    ∃ q', q.remove b = .ok q' ∧ Represents q' (l.erase b) := by
  obtain ⟨l1, l2, rfl⟩ := List.append_of_mem hb
  have hb1 : b ∉ l1 := by
    intro hm
    exact (List.nodup_append'.mp h.nodup).2.2 hm List.mem_cons_self
  have he : (l1 ++ b :: l2).erase b = l1 ++ l2 := by
    rw [List.erase_append_right _ hb1, List.erase_cons_head]
  obtain ⟨u, x, y, v, hpath, -⟩ := path_split l1 l2
  have ht := h.threads
  have hnd := path_nodup h.nodup
  rw [show l1 ++ b :: l2 = l1 ++ ([b] ++ l2) from rfl, hpath] at ht hnd
  obtain ⟨hprev, hnext⟩ := ht.between hnd
  have hxb : x ≠ .block b ∧ y ≠ .block b := by grind
  refine ⟨{
      numFreeBlocks := q.numFreeBlocks - 1
      links := ((q.links.setNext x (some y)).setPrev y (some x)).clear (.block b) }, ?_, ?_, ?_, ?_⟩
  · simp only [remove, hprev, hnext]
  · show q.numFreeBlocks - 1 = _
    rw [h.count, List.length_erase_of_mem hb]
    have := List.length_pos_of_mem hb
    omega
  · exact h.nodup.erase b
  · rw [he, show l1 ++ l2 = l1 ++ ([] ++ l2) from rfl, hpath]
    apply Threads.unlink (u := u) (x := x) (w := [.block b]) (y := y) (v := v) ht hnd
    · intro n
      simp
    · intro n
      simp

omit [DecidableEq α] in
lemma block_not_mem_path (hb : b ∉ l) : Node.block b ∉ path l := by
  simpa [path] using hb

lemma remove_not_mem (h : Represents q l) (hb : b ∉ l) : q.remove b = .error .invalidBlock := by
  have ho := h.threads.outside (block_not_mem_path hb)
  simp only [remove, ho.1, ho.2]

/-- The links that the loop of `append_n` writes, whichever were there. -/
lemma linkAll_next {last : Node α} (hnd : (last :: l.map Node.block).Nodup) (n : Node α) :
    (linkAll last l s).next n =
      if n ∈ last :: l.map .block then after (last :: (l.map .block ++ [.tail])) n else s.next n := by
  induction l generalizing last s with
  | nil =>
    simp only [linkAll, Links.next_setPrev, Links.next_setNext, List.map_nil, List.nil_append, List.mem_singleton]
    by_cases h1 : n = last
    · simp [h1]
    · simp [h1]
  | cons b l ih =>
    rw [List.map_cons, List.nodup_cons] at hnd
    rw [linkAll, ih hnd.2, List.map_cons]
    by_cases h1 : n = last
    · have h2 : n ∉ .block b :: l.map Node.block := by
        rw [h1]
        exact hnd.1
      rw [if_neg h2]
      simp [h1]
    · simp [h1]

lemma linkAll_prev {last : Node α} (hnd : (l.map Node.block).Nodup) (n : Node α) :
    (linkAll last l s).prev n = if n ∈ l.map .block ++ [.tail] then
      after (.tail :: ((l.map .block).reverse ++ [last])) n else s.prev n := by
  induction l generalizing last s with
  | nil =>
    simp only [linkAll, Links.prev_setPrev, Links.prev_setNext, List.map_nil, List.nil_append, List.mem_singleton,
      List.reverse_nil]
    by_cases h1 : n = .tail
    · simp [h1]
    · simp [h1]
  | cons b l ih =>
    rw [List.map_cons, List.nodup_cons] at hnd
    have hr : Node.tail :: ((Node.block b :: l.map .block).reverse ++ [last]) =
        (.tail :: (l.map .block).reverse) ++ .block b :: [last] := by simp
    have hm : n ∈ Node.tail :: (l.map Node.block).reverse ↔ n ∈ l.map Node.block ++ [.tail] := by
      simp [or_comm]
    rw [linkAll, ih hnd.2, List.map_cons, hr, after_append, List.cons_append]
    simp only [hm]
    by_cases h1 : n ∈ l.map Node.block ++ [.tail]
    · rw [if_pos h1, if_pos (List.mem_cons_of_mem _ h1), if_pos h1, List.cons_append]
    · rw [if_neg h1, if_neg h1]
      by_cases h2 : n = .block b
      · simp [h2]
      · simp only [Links.prev_setNext, Links.prev_setPrev, List.mem_cons, h2, h1, or_self, if_false]

/-- Blocks that are linked in at the end. -/
lemma represents_append (h : Represents q l) {bs : List α} (hnd : (l ++ bs).Nodup) {last : Node α}
    (hlast : q.links.prev .tail = some last) {q' : FreeQueue α}
    (hc : q'.numFreeBlocks = q.numFreeBlocks + bs.length)
    (hn : ∀ n, q'.links.next n =
      if n ∈ last :: bs.map .block then after (last :: (bs.map .block ++ [.tail])) n else q.links.next n)
    (hp : ∀ n, q'.links.prev n = if n ∈ bs.map .block ++ [.tail] then
      after (.tail :: ((bs.map .block).reverse ++ [last])) n else q.links.prev n) :
    Represents q' (l ++ bs) where
  count := by
    rw [hc, h.count, List.length_append]
    omega
  nodup := hnd
  threads := by
    obtain ⟨u, x, y, v, hpath, htail⟩ := path_split l []
    obtain ⟨rfl, rfl⟩ := htail rfl
    have hnd' := path_nodup hnd
    have ht := h.threads
    have hl := path_nodup h.nodup
    rw [show l = l ++ ([] ++ []) by simp, hpath] at ht hl
    have hx : last = x := Option.some.inj (hlast.symm.trans (ht.last hl).1)
    subst hx
    rw [show l ++ bs = l ++ (bs ++ []) by simp, hpath] at hnd' ⊢
    exact Threads.link (u := u) (x := last) (w := bs.map .block) (y := .tail) (v := []) ht hnd' hn hp

/-- The tail always has a node before it. -/
lemma prev_tail (h : Represents q l) : ∃ last, q.links.prev .tail = some last ∧ ∀ b ∉ l, last ≠ .block b := by
  obtain ⟨u, x, y, v, hpath, htail⟩ := path_split l []
  obtain ⟨rfl, rfl⟩ := htail rfl
  have ht := h.threads
  have hl := path_nodup h.nodup
  have hp := hpath []
  rw [show l ++ ([] ++ []) = l by simp] at hp
  rw [hp] at ht hl
  refine ⟨x, (ht.last hl).1, ?_⟩
  intro b hb e
  apply block_not_mem_path hb
  rw [hp, ← e]
  simp

lemma append_spec (h : Represents q l) (hb : b ∉ l) :
    ∃ q', q.append b = .ok q' ∧ Represents q' (l ++ [b]) := by
  obtain ⟨last, hlast, hne⟩ := prev_tail h
  have hlb := (hne b hb).symm
  have hnd : (l ++ [b]).Nodup := by
    rw [List.nodup_append']
    exact ⟨h.nodup, List.nodup_singleton b, by simpa using hb⟩
  refine ⟨{
      numFreeBlocks := q.numFreeBlocks + 1
      links := (((q.links.setNext last (some (.block b))).setPrev (.block b) (some last)).setNext (.block b)
        (some .tail)).setPrev .tail (some (.block b)) }, ?_, represents_append h hnd hlast rfl ?_ ?_⟩
  · simp only [append, hlast]
  · intro n
    by_cases h1 : n = last
    · simp [h1, hlb.symm]
    · by_cases h2 : n = .block b
      · simp [h2, hlb]
      · simp [h1, h2]
  · intro n
    by_cases h1 : n = .tail
    · simp [h1]
    · by_cases h2 : n = .block b
      · simp [h2]
      · simp [h1, h2]

lemma appendN_spec (h : Represents q l) {bs : List α} (hnd : bs.Nodup) (hbs : ∀ b ∈ bs, b ∉ l) :
    ∃ q', q.appendN bs = .ok q' ∧ Represents q' (l ++ bs) := by
  by_cases h0 : bs = []
  · subst h0
    exact ⟨q, by simp [appendN], by simpa using h⟩
  obtain ⟨last, hlast, hne⟩ := prev_tail h
  have hnd' : (l ++ bs).Nodup := by
    rw [List.nodup_append']
    exact ⟨h.nodup, hnd, fun a ha hb => hbs a hb ha⟩
  have hl : (last :: bs.map Node.block).Nodup := by
    rw [List.nodup_cons]
    refine ⟨?_, nodup_map_block hnd⟩
    intro hm
    obtain ⟨b, hb, e⟩ := List.mem_map.mp hm
    exact hne b (hbs b hb) e.symm
  refine ⟨{
      numFreeBlocks := q.numFreeBlocks + bs.length
      links := linkAll last bs q.links }, ?_, represents_append h hnd' hlast rfl ?_ ?_⟩
  · simp only [appendN, if_neg h0, hlast]
  · exact linkAll_next hl
  · exact linkAll_prev (nodup_map_block hnd)

/-- An operation on the queue. -/
inductive QueueOp (α : Type) where
  | popleft
  | popleftN (n : Nat)
  | remove (b : α)
  | append (b : α)
  | appendN (bs : List α)

/-- Call an operation on the queue: the popped nodes, or why it raised. -/
def exec (q : FreeQueue α) : QueueOp α → FreeQueue α × Except QueueError (List (Node α))
  | .popleft =>
    match q.popleft with
    | .ok (b, q') => (q', .ok [b])
    | .error e => (q, .error e)
  | .popleftN n =>
    match q.popleftN n with
    | .ok (bs, q') => (q', .ok bs)
    | .error e => (q, .error e)
  | .remove b =>
    match q.remove b with
    | .ok q' => (q', .ok [])
    | .error e => (q, .error e)
  | .append b =>
    match q.append b with
    | .ok q' => (q', .ok [])
    | .error e => (q, .error e)
  | .appendN bs =>
    match q.appendN bs with
    | .ok q' => (q', .ok [])
    | .error e => (q, .error e)

/-- The operation on a list of blocks. -/
def listExec (l : List α) : QueueOp α → List α × Except QueueError (List α)
  | .popleft =>
    match l with
    | [] => ([], .error .noFreeBlocks)
    | b :: l => (l, .ok [b])
  | .popleftN n => (l.drop n, .ok (l.take n))
  | .remove b => if b ∈ l then (l.erase b, .ok []) else (l, .error .invalidBlock)
  | .append b => (l ++ [b], .ok [])
  | .appendN bs => (l ++ bs, .ok [])

/-- May the operation be called on the list? `popleft` and `remove` always may. -/
def Allowed (l : List α) : QueueOp α → Prop
  | .popleft => True
  | .popleftN n => n ≤ l.length
  | .remove _ => True
  | .append b => b ∉ l
  | .appendN bs => bs.Nodup ∧ ∀ b ∈ bs, b ∉ l

instance (l : List α) : DecidablePred (Allowed l)
  | .popleft => inferInstanceAs (Decidable True)
  | .popleftN n => inferInstanceAs (Decidable (n ≤ l.length))
  | .remove _ => inferInstanceAs (Decidable True)
  | .append b => inferInstanceAs (Decidable (b ∉ l))
  | .appendN bs => inferInstanceAs (Decidable (bs.Nodup ∧ ∀ b ∈ bs, b ∉ l))

/-- Call one operation after the other and collect what they return. -/
def runOps {σ ρ : Type} (exec : σ → QueueOp α → σ × ρ) : σ → List (QueueOp α) → σ × List ρ
  | s, [] => (s, [])
  | s, op :: ops => ((runOps exec (exec s op).1 ops).1, (exec s op).2 :: (runOps exec (exec s op).1 ops).2)

/-- Every operation may be called when its turn comes. -/
def AllowedRun : List α → List (QueueOp α) → Prop
  | _, [] => True
  | l, op :: ops => Allowed l op ∧ AllowedRun (listExec l op).1 ops

/-- The nodes of blocks that were popped. -/
def nodes (r : Except QueueError (List α)) : Except QueueError (List (Node α)) := r.map (List.map .block)

/-- An operation on the queue is the operation on the list. -/
lemma exec_represents (h : Represents q l) {op : QueueOp α} (ha : Allowed l op) :
    (q.exec op).2 = nodes (listExec l op).2 ∧ Represents (q.exec op).1 (listExec l op).1 := by
  cases op with
  | popleft =>
    cases l with
    | nil =>
      simp only [exec, popleft_nil h]
      exact ⟨rfl, h⟩
    | cons b l =>
      obtain ⟨q', e, hq'⟩ := popleft_cons h
      simp only [exec, e]
      exact ⟨rfl, hq'⟩
  | popleftN n =>
    obtain ⟨q', e, hq'⟩ := popleftN_spec h ha
    simp only [exec, e]
    exact ⟨rfl, hq'⟩
  | remove b =>
    by_cases hb : b ∈ l
    · obtain ⟨q', e, hq'⟩ := remove_mem h hb
      simp only [exec, e, listExec, if_pos hb]
      exact ⟨rfl, hq'⟩
    · simp only [exec, remove_not_mem h hb, listExec, if_neg hb]
      exact ⟨rfl, h⟩
  | append b =>
    obtain ⟨q', e, hq'⟩ := append_spec h ha
    simp only [exec, e]
    exact ⟨rfl, hq'⟩
  | appendN bs =>
    obtain ⟨q', e, hq'⟩ := appendN_spec h ha.1 ha.2
    simp only [exec, e]
    exact ⟨rfl, hq'⟩

lemma runOps_represents (h : Represents q l) {ops : List (QueueOp α)} (ha : AllowedRun l ops) :
    (runOps exec q ops).2 = (runOps listExec l ops).2.map nodes ∧
      Represents (runOps exec q ops).1 (runOps listExec l ops).1 := by
  induction ops generalizing q l with
  | nil => exact ⟨rfl, h⟩
  | cons op ops ih =>
    obtain ⟨e, h'⟩ := exec_represents h ha.1
    obtain ⟨es, hs⟩ := ih h' ha.2
    refine ⟨?_, hs⟩
    show _ :: _ = _ :: _
    rw [e, es]

/-- What is seen of a queue that is a list. -/
structure BehavesAs (q : FreeQueue α) (l : List α) : Prop where
  count : q.numFreeBlocks = l.length
  all : ∀ fuel, l.length < fuel → q.getAllFreeBlocks fuel = some (.ok (l.map .block))
  backward : ∀ fuel, l.length < fuel →
    (q.links.prev .tail).bind (collect q.links.prev fuel) = some (l.reverse.map .block)
  outside : ∀ b ∉ l, q.links.prev (.block b) = none ∧ q.links.next (.block b) = none
  popleft : (∃ e, q.popleft = .error e) ↔ l = []
  remove : ∀ b, (∃ e, q.remove b = .error e) ↔ b ∉ l

lemma Represents.behavesAs (h : Represents q l) : BehavesAs q l where
  count := h.count
  all fuel hf := by
    have hf' : (l.map Node.block).length < fuel := by simpa using hf
    obtain ⟨first, e, hc⟩ := Option.bind_eq_some_iff.mp (h.threads.collect (path_nodup h.nodup) hf')
    simp only [getAllFreeBlocks, e, hc, Option.map_some]
  backward fuel hf := by
    have hr : (path l).reverse = .tail :: (l.reverse.map .block ++ [.head]) := by simp [path]
    have ht := h.threads.flip
    have hnd := List.nodup_reverse.mpr (path_nodup h.nodup)
    rw [hr] at ht hnd
    exact ht.collect hnd (by simpa using hf)
  outside b hb := (h.threads.outside (block_not_mem_path hb)).symm
  popleft := by
    cases l with
    | nil => simp [popleft_nil h]
    | cons b l =>
      obtain ⟨q', e, -⟩ := popleft_cons h
      simp [e]
  remove b := by
    by_cases hb : b ∈ l
    · obtain ⟨q', e, -⟩ := remove_mem h hb
      simp [e, hb]
    · simp [remove_not_mem h hb, hb]

/-- The queue is a list. Over every run of operations that may be called, from the constructor on different
blocks, the operations return what they return on the list of the blocks, and what is seen of the queue is that
list. -/
theorem free_queue_is_list (blocks : List α) (ops : List (QueueOp α)) (hnd : blocks.Nodup)
    (hops : AllowedRun blocks ops) :
    (runOps exec (init blocks) ops).2 = (runOps listExec blocks ops).2.map nodes ∧
      BehavesAs (runOps exec (init blocks) ops).1 (runOps listExec blocks ops).1 := by
  obtain ⟨e, h⟩ := runOps_represents (init_represents hnd) hops
  exact ⟨e, h.behavesAs⟩

theorem free_queue_is_list_refilled :
    BehavesAs (runOps exec (init [1, 2, 3]) [.popleftN 3, .popleft, .appendN [3, 1], .append 2, .remove 1]).1
      [3, 2] := by
  have h := free_queue_is_list [1, 2, 3] [.popleftN 3, .popleft, .appendN [3, 1], .append 2, .remove 1] (by decide)
    ⟨by decide, trivial, by decide, by decide, trivial, trivial⟩
  exact h.2

section Pool
variable {η : Type} [DecidableEq η] {p : BlockPool η} {q : FreeQueue Nat} {held : Nat → Nat} {b : Nat}

omit [DecidableEq η] in
/-- A new pool pops its null block from the queue of all blocks, and goes on with the rest as its list. -/
theorem init_pool {n : Nat} (hn : 0 < n) (caching : Bool) :
    ∃ q', (init (List.range n)).popleft = .ok (.block 0, q') ∧
      Represents q' (BlockPool.init n caching : BlockPool η).freeBlockQueue := by
  obtain ⟨m, rfl⟩ := Nat.exists_eq_add_one_of_ne_zero (Nat.ne_of_gt hn)
  have h := init_represents (List.nodup_range (n := m + 1))
  rw [List.range_succ_eq_map] at h ⊢
  obtain ⟨q', e, hq'⟩ := popleft_cons h
  refine ⟨q', e, ?_⟩
  show Represents q' (List.range (m + 1)).tail
  rw [List.range_succ_eq_map, List.tail_cons]
  exact hq'

/-- `get_new_blocks` hands out what `popleft_n` pops. -/
lemma getNewBlocks_queue {n : Nat} (hq : Represents q p.freeBlockQueue) (hp : Accounts p held)
    (hn : n ≤ p.freeBlockQueue.length) :
    ∃ p' bs q', p.getNewBlocks n = .ok (p', bs) ∧ q.popleftN n = .ok (bs.map .block, q') ∧
      Represents q' p'.freeBlockQueue := by
  obtain ⟨p', e, -, -, hqueue, -⟩ := hp.getNewBlocks hn
  obtain ⟨q', e', hq'⟩ := popleftN_spec hq hn
  exact ⟨p', _, q', e, e', hqueue ▸ hq'⟩

omit [DecidableEq η] in
/-- `touch` removes a block that nobody holds, and raises when `remove` does. -/
lemma touchBlock_queue (hq : Represents q p.freeBlockQueue) :
    (∃ q' p', (if p.refCnt b = 0 ∧ b ≠ 0 then q.remove b else .ok q) = .ok q' ∧ p.touchBlock b = .ok p' ∧
        Represents q' p'.freeBlockQueue) ∨
      p.refCnt b = 0 ∧ b ≠ 0 ∧ q.remove b = .error .invalidBlock ∧ p.touchBlock b = .error () := by
  unfold BlockPool.touchBlock
  by_cases h0 : p.refCnt b = 0 ∧ b ≠ 0
  · rw [if_pos h0, if_pos h0]
    by_cases hb : b ∈ p.freeBlockQueue
    · obtain ⟨q', e, hq'⟩ := remove_mem hq hb
      rw [if_pos hb]
      exact .inl ⟨q', _, e, rfl, hq'⟩
    · rw [if_neg hb]
      exact .inr ⟨h0.1, h0.2, remove_not_mem hq hb, rfl⟩
  · rw [if_neg h0, if_neg h0]
    exact .inl ⟨q, _, rfl, rfl, hq⟩

/-- `free_blocks` appends the blocks that nobody holds any more. -/
lemma freeBlocks_queue {bs : List Nat} (hq : Represents q p.freeBlockQueue)
    (hp : Accounts p fun x => held x + bs.count x) (hone : ∀ b, b ≠ 0 → bs.count b ≤ 1) :
    ∃ freed q', (p.freeBlocks bs).freeBlockQueue = p.freeBlockQueue ++ freed ∧ q.appendN freed = .ok q' ∧
      Represents q' (p.freeBlocks bs).freeBlockQueue := by
  obtain ⟨freed, e⟩ : ∃ freed, (p.freeBlocks bs).freeBlockQueue = p.freeBlockQueue ++ freed := by
    obtain ⟨-, -, he⟩ := BlockPool.foldl_release bs p
    unfold BlockPool.freeBlocks
    rw [he]
    exact ⟨_, rfl⟩
  have hnd := (hp.freeBlocks hone).1.nodup
  rw [e, List.nodup_append'] at hnd
  obtain ⟨q', e', hq'⟩ := appendN_spec hq hnd.2.1 fun b hb hm => hnd.2.2 hm hb
  exact ⟨freed, q', e, e', e ▸ hq'⟩

/-- The pool over a linked queue: as long as the queue is the list of its free blocks, `get_new_blocks`, `touch` and
`free_blocks` do to that list what `popleft_n`, `remove` and `append_n` do to the links. -/
theorem pool_over_queue (hq : Represents q p.freeBlockQueue) :
    (∀ n, Accounts p held → n ≤ p.freeBlockQueue.length →
      ∃ p' bs q', p.getNewBlocks n = .ok (p', bs) ∧ q.popleftN n = .ok (bs.map .block, q') ∧
        Represents q' p'.freeBlockQueue) ∧
    (∀ b, (∃ q' p', (if p.refCnt b = 0 ∧ b ≠ 0 then q.remove b else .ok q) = .ok q' ∧ p.touchBlock b = .ok p' ∧
        Represents q' p'.freeBlockQueue) ∨
      p.refCnt b = 0 ∧ b ≠ 0 ∧ q.remove b = .error .invalidBlock ∧ p.touchBlock b = .error ()) ∧
    ∀ bs : List Nat, (Accounts p fun x => held x + bs.count x) → (∀ b, b ≠ 0 → bs.count b ≤ 1) →
      ∃ freed q', (p.freeBlocks bs).freeBlockQueue = p.freeBlockQueue ++ freed ∧ q.appendN freed = .ok q' ∧
        Represents q' (p.freeBlocks bs).freeBlockQueue :=
  ⟨fun _ hp hn => getNewBlocks_queue hq hp hn, fun _ => touchBlock_queue hq,
    fun _ hp hone => freeBlocks_queue hq hp hone⟩

end Pool

end FreeQueue

end Gambit.KV
