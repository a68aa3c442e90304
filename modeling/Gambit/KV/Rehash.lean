import Gambit.KV.Hash

/-!
# Hashing blocks as they become full

`append_output_token_ids` hashes the blocks that have become full, and starts over from the last multimodal item: it
takes for granted that no other item can lie in the block that the prompt ends in, and that an item which ends where
that block starts has not been counted yet.

`onePass` are the contents that one pass over all tokens hashes, and `contentsAfter` those that were hashed call by
call. One pass takes in the items that overlap a block (`newContents_zero`); the calls do so unless the guess is wrong
(`incremental_hashes_iff`).
-/

namespace Gambit.KV
open Gambit.Sched

/-- Where an item ends. -/
def mmStop (f : MmFeature) : Nat := f.offset + f.length

/-- The item and the tokens from `start` to `stop` have a position in common. -/
def Overlaps (start stop : Nat) (f : MmFeature) : Prop := f.offset < stop ∧ start < mmStop f

instance (start stop : Nat) (f : MmFeature) : Decidable (Overlaps start stop f) := inferInstanceAs (Decidable (_ ∧ _))

/-- The items of a request lie in its prompt, one behind the other. The processor ignores empty ones. -/
structure Placed (r : Request) : Prop where
  nonempty : ∀ f ∈ r.mmFeatures, 0 < f.length
  ordered : r.mmFeatures.Pairwise fun f g => mmStop f ≤ g.offset
  inside : ∀ f ∈ r.mmFeatures, mmStop f ≤ r.promptTokenIds.length

/-- Python `append_output_token_ids` on a list of tokens. -/
def appendOutputTokenIds (r : Request) (ts : List Token) : Request :=
  { r with outputTokenIds := r.outputTokenIds ++ ts }

/-- The items behind an item that is there. -/
lemma stop_le_of_pairwise {fs : List MmFeature} (h : fs.Pairwise fun f g => mmStop f ≤ g.offset) {last f : MmFeature}
    (hlast : fs.getLast? = some last) (hf : f ∈ fs) : mmStop f ≤ mmStop last := by
  obtain ⟨init, rfl⟩ := List.getLast?_eq_some_iff.1 hlast
  rw [List.pairwise_append] at h
  obtain hf | hf := List.mem_append.1 hf
  · exact (h.2.2 f hf last (.head _)).trans (Nat.le_add_right _ _)
  · obtain rfl := List.mem_singleton.1 hf
    exact le_rfl

/-- The loop over the items that end after the start of the block: it takes those that start in the block, and passes
those that end in it. -/
lemma mmExtraKeys_eq {start : Nat} (stop : Nat) {fs : List MmFeature} (hpos : ∀ f ∈ fs, 0 < f.length)
    (hord : fs.Pairwise fun f g => mmStop f ≤ g.offset) (hopen : ∀ f ∈ fs, start < mmStop f) :
    (mmExtraKeys start stop fs).1 = (fs.filter (·.offset < stop)).map (·.identifier) ∧
      fs.drop (mmExtraKeys start stop fs).2 = fs.filter (stop < mmStop ·) := by
  induction fs with
  | nil => exact ⟨rfl, rfl⟩
  | cons f fs ih =>
    obtain ⟨hord₁, hord₂⟩ := List.pairwise_cons.1 hord
    have hf : 0 < f.length := hpos f (.head _)
    have hstart : start < f.offset + f.length := hopen f (.head _)
    -- nothing behind an item that goes on past the block starts in it
    have hrest : stop ≤ mmStop f → fs.filter (·.offset < stop) = [] ∧
        fs.filter (stop < mmStop ·) = fs := by
      intro hstop
      constructor
      · rw [List.filter_eq_nil_iff]
        intro g hg
        have := hord₁ g hg
        simpa using (by omega : stop ≤ g.offset)
      · rw [List.filter_eq_self]
        intro g hg
        have h₁ := hord₁ g hg
        have h₂ := hpos g (.tail _ hg)
        exact decide_eq_true (by unfold mmStop at *; omega)
    rw [mmExtraKeys, List.filter_cons, List.filter_cons]
    rcases Nat.lt_or_ge f.offset stop with hlt | hge
    · rw [if_pos hlt, if_neg (Nat.not_lt.2 hstart.le), if_pos (decide_eq_true hlt)]
      rcases Nat.lt_or_ge stop (mmStop f) with hcut | hin
      · obtain ⟨h₁, h₂⟩ := hrest hcut.le
        rw [if_neg (show ¬ f.offset + f.length ≤ stop from Nat.not_le.2 hcut), if_pos (decide_eq_true hcut), h₁, h₂]
        exact ⟨rfl, rfl⟩
      · obtain ⟨h₁, h₂⟩ := ih (fun g hg => hpos g (.tail _ hg)) hord₂ fun g hg => hopen g (.tail _ hg)
        rw [if_pos (show f.offset + f.length ≤ stop from hin), if_neg (by simpa using hin)]
        exact ⟨congrArg (f.identifier :: ·) h₁, h₂⟩
    · have hcut : stop < mmStop f := by
        unfold mmStop
        omega
      obtain ⟨h₁, h₂⟩ := hrest hcut.le
      rw [if_neg (Nat.not_lt.2 hge), if_neg (by simpa using hge), if_pos (decide_eq_true hcut), h₁, h₂]
      exact ⟨rfl, rfl⟩

namespace Hasher
variable {η : Type} (H : Hasher η)

/-- The tokens of a block. -/
def pageTokens (r : Request) (k : Nat) : List Token := (r.allTokenIds.drop (k * H.blockSize)).take H.blockSize

/-- The keys of a block: the adapter, the items that overlap the block, and the salt of the first block. -/
def pageKeys (r : Request) (k : Nat) : List ExtraKey :=
  H.genLoraExtraHashKeys r ++
    (r.mmFeatures.filter (Overlaps (k * H.blockSize) (k * H.blockSize + H.blockSize) ·)).map (·.identifier) ++
    if k = 0 then r.cacheSalt.toList else []

/-- The content of a block. -/
def page (r : Request) (k : Nat) : BlockContent := (H.pageTokens r k, H.pageKeys r k)

/-- The contents of the full blocks of a request. -/
def pages (r : Request) : List BlockContent := (List.range (r.numTokens / H.blockSize)).map (H.page r)

/-- The contents that were hashed after some calls of `append_output_token_ids`. -/
def extendContents : Request → List BlockContent → List (List Token) → List BlockContent
  | _, contents, [] => contents
  | r, contents, ts :: calls =>
    extendContents (appendOutputTokenIds r ts)
      (contents ++ H.newContents (appendOutputTokenIds r ts) contents.length) calls

/-- The block hashes after some calls of `append_output_token_ids`. -/
def extendHashes : Request → List η → List (List Token) → List η
  | _, hashes, [] => hashes
  | r, hashes, ts :: calls =>
    extendHashes (appendOutputTokenIds r ts) (hashes ++ H.requestBlockHasher (appendOutputTokenIds r ts) hashes) calls

/-- The contents behind the hashes of a request that was created with its prompt and extended by some calls. -/
def contentsAfter (r : Request) (calls : List (List Token)) : List BlockContent :=
  H.extendContents r (H.newContents r 0) calls

/-- The hashes of a request that was created with its prompt and extended by some calls. -/
def hashesAfter (r : Request) (calls : List (List Token)) : List η :=
  H.extendHashes r (H.requestBlockHasher r []) calls

variable {H} {r : Request}

/-- The hashes are the chain over the contents. -/
lemma extendHashes_eq (r : Request) (c : List BlockContent) (calls : List (List Token)) :
    H.extendHashes r (H.hashChain none c) calls = H.hashChain none (H.extendContents r c calls) := by
  induction calls generalizing r c with
  | nil => rfl
  | cons ts calls ih =>
    rw [extendHashes, extendContents, requestBlockHasher, length_hashChain, ← hashChain_none_append]
    exact ih (appendOutputTokenIds r ts) _

lemma hashesAfter_eq (r : Request) (calls : List (List Token)) :
    H.hashesAfter r calls = H.hashChain none (H.contentsAfter r calls) :=
  extendHashes_eq r _ calls

/-- The keys of the items of a block, from an index behind which the items end after the start of the block. -/
lemma genMmExtraHashKeys_eq (hr : Placed r) {start stop idx : Nat} (hle : start ≤ stop)
    (hidx : r.mmFeatures.drop idx = r.mmFeatures.filter (start < mmStop ·)) :
    ∃ idx' : Nat, genMmExtraHashKeys r.mmFeatures start stop idx =
        ((r.mmFeatures.filter (Overlaps start stop ·)).map (·.identifier), (idx' : Int)) ∧
      r.mmFeatures.drop idx' = r.mmFeatures.filter (stop < mmStop ·) := by
  -- the items that overlap the block
  have hover : r.mmFeatures.filter (Overlaps start stop ·) = (r.mmFeatures.drop idx).filter (·.offset < stop) := by
    rw [hidx, List.filter_filter]
    exact List.filter_congr fun f _ => Bool.decide_and ..
  rw [hover, genMmExtraHashKeys]
  cases hlast : r.mmFeatures.getLast? with
  | none =>
    rw [List.getLast?_eq_none_iff.1 hlast]
    exact ⟨idx, by rw [List.drop_nil]; rfl, List.drop_nil⟩
  | some last =>
    have hmax := fun f hf => stop_le_of_pairwise hr.ordered hlast (f := f) hf
    show ∃ idx' : Nat, (if mmStop last < start then _ else _) = _ ∧ _
    rcases Nat.lt_or_ge (mmStop last) start with hpast | hpast
    · have hnone : ∀ s, start ≤ s → r.mmFeatures.filter (s < mmStop ·) = [] := by
        intro s hs
        rw [List.filter_eq_nil_iff]
        intro f hf
        have := hmax f hf
        simpa using (by omega : mmStop f ≤ s)
      rw [hnone _ le_rfl] at hidx
      rw [if_pos hpast, hidx, hnone _ hle]
      exact ⟨idx, rfl, hidx⟩
    · have hint : (if (idx : Int) < 0 then (r.mmFeatures.length : Int) + idx else idx).toNat = idx := by
        rw [if_neg (by omega)]
        rfl
      have hopen : ∀ f ∈ r.mmFeatures.drop idx, start < mmStop f := by
        intro f hf
        rw [hidx] at hf
        exact of_decide_eq_true (List.mem_filter.1 hf).2
      obtain ⟨h₁, h₂⟩ := mmExtraKeys_eq stop (fun f hf => hr.nonempty f (List.mem_of_mem_drop hf))
        (hr.ordered.sublist (List.drop_sublist _ _)) hopen
      rw [if_neg (Nat.not_lt.2 hpast)]
      refine ⟨idx + (mmExtraKeys start stop (r.mmFeatures.drop idx)).2, ?_, ?_⟩
      · simp only [hint, h₁]
        rfl
      · rw [← List.drop_drop, h₂, hidx, List.filter_filter]
        exact List.filter_congr fun f _ => by
          rw [Bool.and_eq_left_iff_imp, decide_eq_true_eq, decide_eq_true_eq]
          omega

/-- The salt is a key of the first block. -/
lemma start_eq_zero (hB : 0 < H.blockSize) (k : Nat) : (k * H.blockSize = 0) = (k = 0) := by
  rw [eq_iff_iff, Nat.mul_eq_zero]
  exact or_iff_left hB.ne'

/-- The contents of some blocks, from an index behind which the items end after their start. -/
lemma contentsFrom_eq (hr : Placed r) (hB : 0 < H.blockSize) (n : Nat) {k idx : Nat}
    (hidx : r.mmFeatures.drop idx = r.mmFeatures.filter (k * H.blockSize < mmStop ·)) :
    H.contentsFrom r (k * H.blockSize) idx n = (List.range' k n).map (H.page r) := by
  induction n generalizing k idx with
  | zero => rfl
  | succ n ih =>
    have hnext : (k + 1) * H.blockSize = k * H.blockSize + H.blockSize := Nat.succ_mul k _
    obtain ⟨idx', hkeys, hidx'⟩ := genMmExtraHashKeys_eq hr (Nat.le_add_right (k * H.blockSize) H.blockSize) hidx
    rw [← hnext] at hidx'
    rw [contentsFrom, generateBlockHashExtraKeys, hkeys, List.range'_succ, List.map_cons, ← ih hidx', hnext, page,
      pageTokens, pageKeys]
    simp only [start_eq_zero hB]

/-- One pass over a request takes in the items that overlap each block. -/
lemma newContents_zero (hr : Placed r) : H.newContents r 0 = H.pages r := by
  rw [newContents, pages, Nat.zero_mul, Nat.sub_zero, if_neg (Nat.lt_irrefl 0)]
  rcases Nat.eq_zero_or_pos H.blockSize with hB | hB
  · rw [hB, Nat.div_zero]
    rfl
  · have hall : r.mmFeatures.drop 0 = r.mmFeatures.filter (0 * H.blockSize < mmStop ·) := by
      rw [List.drop_zero, Nat.zero_mul, List.filter_eq_self.2]
      intro f hf
      exact decide_eq_true ((hr.nonempty f hf).trans_le (Nat.le_add_left _ _))
    have h := contentsFrom_eq hr hB (r.numTokens / H.blockSize) hall
    rw [Nat.zero_mul] at h
    rw [List.range_eq_range']
    exact h

/-- The number of full blocks of the prompt: the prompt ends in the block after them. -/
def promptPages (H : Hasher η) (r : Request) : Nat := r.promptTokenIds.length / H.blockSize

/-- The keys of the items in a block at which the hasher starts over: the last item, unless it ends before the block. -/
def restartKeys (H : Hasher η) (r : Request) (k : Nat) : List ExtraKey :=
  (r.mmFeatures.getLast?.toList.filter (k * H.blockSize ≤ mmStop ·)).map (·.identifier)

lemma restartKeys_some {last : MmFeature} (hlast : r.mmFeatures.getLast? = some last) (k : Nat) :
    H.restartKeys r k = if k * H.blockSize ≤ mmStop last then [last.identifier] else [] := by
  rw [restartKeys, hlast, Option.toList_some, List.filter_cons, List.filter_nil]
  split_ifs with h h' h'
  · rfl
  · exact absurd (of_decide_eq_true h) h'
  · exact absurd (decide_eq_true h') h
  · rfl

/-- The content of a block as it is hashed call by call. -/
def guessedPage (H : Hasher η) (r : Request) (k : Nat) : BlockContent :=
  if k = H.promptPages r ∧ 0 < k then (H.pageTokens r k, H.genLoraExtraHashKeys r ++ H.restartKeys r k) else H.page r k

/-- The items end before the blocks behind the prompt. -/
lemma stop_lt_of_past (hr : Placed r) (hB : 0 < H.blockSize) {k : Nat} (hk : H.promptPages r < k) {f : MmFeature}
    (hf : f ∈ r.mmFeatures) : mmStop f < k * H.blockSize := by
  have hlt : r.promptTokenIds.length < (H.promptPages r + 1) * H.blockSize := by
    rw [Nat.mul_comm]
    exact Nat.lt_mul_div_succ _ hB
  exact ((hr.inside f hf).trans_lt hlt).trans_le (Nat.mul_le_mul_right _ hk)

/-- The blocks behind the prompt hold no items, whatever the index. -/
lemma contentsFrom_past (hr : Placed r) (hB : 0 < H.blockSize) (n : Nat) {k : Nat} (hk : H.promptPages r < k)
    (idx : Int) : H.contentsFrom r (k * H.blockSize) idx n = (List.range' k n).map (H.page r) := by
  induction n generalizing k idx with
  | zero => rfl
  | succ n ih =>
    have hnext : (k + 1) * H.blockSize = k * H.blockSize + H.blockSize := Nat.succ_mul k _
    have hpast := fun f hf => stop_lt_of_past hr hB hk (f := f) hf
    have hover : r.mmFeatures.filter (Overlaps (k * H.blockSize) (k * H.blockSize + H.blockSize) ·) = [] := by
      rw [List.filter_eq_nil_iff]
      intro f hf h
      exact absurd (of_decide_eq_true h).2 (Nat.not_lt.2 (hpast f hf).le)
    have hkeys : genMmExtraHashKeys r.mmFeatures (k * H.blockSize) (k * H.blockSize + H.blockSize) idx = ([], idx) := by
      rw [genMmExtraHashKeys]
      cases hlast : r.mmFeatures.getLast? with
      | none => rfl
      | some last => exact if_pos (hpast last (List.mem_of_getLast? hlast))
    rw [contentsFrom, generateBlockHashExtraKeys, hkeys, List.range'_succ, List.map_cons,
      ← ih (Nat.lt_succ_of_lt hk) idx, hnext, page, pageTokens, pageKeys, hover]
    simp only [start_eq_zero hB]
    rfl

/-- The hasher starts over at the block that the prompt ends in. -/
lemma contentsFrom_restart (hr : Placed r) (hB : 0 < H.blockSize) (hk : 0 < H.promptPages r) (n : Nat) :
    H.contentsFrom r (H.promptPages r * H.blockSize) (-1) n =
      (List.range' (H.promptPages r) n).map (H.guessedPage r) := by
  cases n with
  | zero => rfl
  | succ n =>
    have hnext : (H.promptPages r + 1) * H.blockSize = H.promptPages r * H.blockSize + H.blockSize := Nat.succ_mul _ _
    have hstart : H.promptPages r * H.blockSize ≠ 0 := Nat.mul_ne_zero hk.ne' hB.ne'
    obtain ⟨idx, hkeys⟩ : ∃ idx, genMmExtraHashKeys r.mmFeatures (H.promptPages r * H.blockSize)
        (H.promptPages r * H.blockSize + H.blockSize) (-1) = (H.restartKeys r (H.promptPages r), idx) := by
      cases hlast : r.mmFeatures.getLast? with
      | none =>
        rw [genMmExtraHashKeys, restartKeys, hlast]
        exact ⟨_, rfl⟩
      | some last =>
        have hstop : mmStop last < (H.promptPages r + 1) * H.blockSize :=
          stop_lt_of_past hr hB (Nat.lt_succ_self _) (List.mem_of_getLast? hlast)
        obtain ⟨init, hinit⟩ := List.getLast?_eq_some_iff.1 hlast
        -- only the last item is left
        have hdrop : r.mmFeatures.drop ((r.mmFeatures.length : Int) + -1).toNat = [last] := by
          have hlen : ((r.mmFeatures.length : Int) + -1).toNat = init.length := by
            rw [hinit, List.length_append, List.length_singleton]
            omega
          rw [hlen, hinit, List.drop_left]
        rw [genMmExtraHashKeys, hlast, restartKeys_some hlast]
        show ∃ idx, (if mmStop last < H.promptPages r * H.blockSize then _ else _) = _
        rcases Nat.lt_or_ge (mmStop last) (H.promptPages r * H.blockSize) with hpast | hopen
        · rw [if_pos hpast, if_neg (Nat.not_le.2 hpast)]
          exact ⟨-1, rfl⟩
        · have hin : last.offset < H.promptPages r * H.blockSize + H.blockSize := by
            rw [hnext, mmStop] at hstop
            omega
          rw [if_neg (Nat.not_lt.2 hopen), if_pos hopen]
          simp only [show (-1 : Int) < 0 from by decide, if_true, hdrop, mmExtraKeys, if_pos hin,
            if_neg (show ¬ last.offset + last.length < _ from Nat.not_lt.2 hopen)]
          split_ifs
          · exact ⟨_, rfl⟩
          · exact ⟨_, rfl⟩
    have hrest : (List.range' (H.promptPages r + 1) n).map (H.guessedPage r) =
        (List.range' (H.promptPages r + 1) n).map (H.page r) := by
      refine List.map_congr_left fun k hk => if_neg fun h => ?_
      have := (List.mem_range'_1.1 hk).1
      omega
    have hfirst : H.guessedPage r (H.promptPages r) =
        (H.pageTokens r (H.promptPages r), H.genLoraExtraHashKeys r ++ H.restartKeys r (H.promptPages r) ++ []) := by
      rw [guessedPage, if_pos ⟨rfl, hk⟩, List.append_nil]
    rw [contentsFrom, generateBlockHashExtraKeys, hkeys, List.range'_succ, List.map_cons, hrest, hfirst,
      ← contentsFrom_past hr hB n (Nat.lt_succ_self _) idx, hnext]
    simp only [if_neg hstart]
    rfl

/-- What a call hashes: the blocks that have become full, as they are guessed. -/
lemma newContents_eq (hr : Placed r) {k : Nat} (hk : H.promptPages r ≤ k) :
    H.newContents r k = (List.range' k ((r.numTokens - k * H.blockSize) / H.blockSize)).map (H.guessedPage r) := by
  rcases Nat.eq_zero_or_pos H.blockSize with hB | hB
  · rw [newContents, hB, Nat.div_zero]
    rfl
  · rcases Nat.eq_zero_or_pos k with rfl | hpos
    · have hpage : H.guessedPage r = H.page r := by
        funext k
        exact if_neg fun h => by omega
      rw [newContents_zero hr, pages, hpage, Nat.zero_mul, Nat.sub_zero, List.range_eq_range']
    · rw [newContents, if_pos (Nat.mul_pos hpos hB)]
      obtain rfl | hlt := Nat.eq_or_lt_of_le hk
      · exact contentsFrom_restart hr hB hpos _
      · rw [contentsFrom_past hr hB _ hlt]
        refine (List.map_congr_left fun i hi => if_neg fun h => ?_).symm
        have := (List.mem_range'_1.1 hi).1
        omega

lemma numTokens_appendOutputTokenIds (r : Request) (ts : List Token) :
    (appendOutputTokenIds r ts).numTokens = r.numTokens + ts.length := by
  rw [appendOutputTokenIds, Request.numTokens, Request.allTokenIds, Request.numTokens, Request.allTokenIds,
    ← List.append_assoc, List.length_append]

/-- More tokens do not change the full blocks. -/
lemma guessedPage_append (r : Request) (ts : List Token) {k : Nat} (hk : k < r.numTokens / H.blockSize) :
    H.guessedPage (appendOutputTokenIds r ts) k = H.guessedPage r k := by
  have htokens : H.pageTokens (appendOutputTokenIds r ts) k = H.pageTokens r k := by
    have hall : (appendOutputTokenIds r ts).allTokenIds = r.allTokenIds ++ ts := (List.append_assoc ..).symm
    have hle : k * H.blockSize + H.blockSize ≤ r.allTokenIds.length := by
      have := (Nat.mul_le_mul_right H.blockSize hk).trans (Nat.div_mul_le_self r.numTokens H.blockSize)
      rwa [Nat.succ_mul] at this
    rw [pageTokens, pageTokens, hall, List.drop_append_of_le_length (by omega), List.take_append_of_le_length]
    rw [List.length_drop]
    omega
  have hsame : ∀ ks : List ExtraKey, (H.pageTokens (appendOutputTokenIds r ts) k, ks) = (H.pageTokens r k, ks) :=
    fun ks => by rw [htokens]
  unfold guessedPage page
  exact ite_congr rfl (fun _ => hsame _) fun _ => hsame _

/-- The contents after some calls, from those before. -/
lemma extendContents_eq (hr : Placed r) {c : List BlockContent}
    (hc : c = (List.range (r.numTokens / H.blockSize)).map (H.guessedPage r)) (calls : List (List Token)) :
    H.extendContents r c calls =
      (List.range ((r.numTokens + calls.flatten.length) / H.blockSize)).map
        (H.guessedPage (appendOutputTokenIds r calls.flatten)) := by
  induction calls generalizing r c with
  | nil =>
    have hr' : appendOutputTokenIds r [] = r := by rw [appendOutputTokenIds, List.append_nil]
    rw [extendContents, List.flatten_nil, List.length_nil, Nat.add_zero, hr', hc]
  | cons ts calls ih =>
    have hplaced : Placed (appendOutputTokenIds r ts) := ⟨hr.nonempty, hr.ordered, hr.inside⟩
    have hpages : H.promptPages (appendOutputTokenIds r ts) ≤ c.length := by
      rw [hc, List.length_map, List.length_range]
      refine Nat.div_le_div_right ?_
      rw [Request.numTokens, Request.allTokenIds, List.length_append]
      exact Nat.le_add_right _ _
    have hlen : c.length = r.numTokens / H.blockSize := by rw [hc, List.length_map, List.length_range]
    have hnum := numTokens_appendOutputTokenIds r ts
    have hflat : appendOutputTokenIds (appendOutputTokenIds r ts) calls.flatten =
        appendOutputTokenIds r (ts :: calls).flatten := by
      rw [List.flatten_cons, appendOutputTokenIds, appendOutputTokenIds, appendOutputTokenIds, List.append_assoc]
    have hstep : c ++ H.newContents (appendOutputTokenIds r ts) c.length =
        (List.range ((appendOutputTokenIds r ts).numTokens / H.blockSize)).map
          (H.guessedPage (appendOutputTokenIds r ts)) := by
      have hcount : ((appendOutputTokenIds r ts).numTokens - c.length * H.blockSize) / H.blockSize =
          (appendOutputTokenIds r ts).numTokens / H.blockSize - c.length := by
        rw [Nat.mul_comm, Nat.sub_mul_div]
      have hle : c.length ≤ (appendOutputTokenIds r ts).numTokens / H.blockSize := by
        rw [hlen, hnum]
        exact Nat.div_le_div_right (Nat.le_add_right _ _)
      have hold : c = (List.range c.length).map (H.guessedPage (appendOutputTokenIds r ts)) := by
        refine hc.trans ?_
        rw [hlen]
        exact List.map_congr_left fun k hk => (guessedPage_append r ts (List.mem_range.1 hk)).symm
      have hsplit := List.range'_append_1 (s := 0) (m := c.length)
        (n := (appendOutputTokenIds r ts).numTokens / H.blockSize - c.length)
      rw [Nat.zero_add, Nat.add_sub_cancel' hle] at hsplit
      rw [newContents_eq hplaced hpages, hcount, List.range_eq_range', ← hsplit, List.map_append,
        ← List.range_eq_range', ← hold]
    rw [extendContents, ih hplaced hstep, hflat, hnum, List.flatten_cons, List.length_append, Nat.add_assoc]

/-- The contents hashed call by call are the blocks as they are guessed. -/
lemma contentsAfter_eq (hr : Placed r) (hout : r.outputTokenIds = []) (calls : List (List Token)) :
    H.contentsAfter r calls = (List.range ((appendOutputTokenIds r calls.flatten).numTokens / H.blockSize)).map
      (H.guessedPage (appendOutputTokenIds r calls.flatten)) := by
  have hnum : r.numTokens / H.blockSize = H.promptPages r := by
    rw [Request.numTokens, Request.allTokenIds, hout, List.append_nil, promptPages]
  rw [contentsAfter, numTokens_appendOutputTokenIds, newContents_zero hr]
  refine extendContents_eq hr (List.map_congr_left fun k hk => (if_neg fun h => ?_).symm) calls
  have := List.mem_range.1 hk
  omega

/-- The guess at the block that the prompt ends in, once that block is full: the last item does not end where the block
starts, and no two items go into it. -/
def GuessRight (H : Hasher η) (r : Request) (total : Nat) : Prop :=
  0 < H.promptPages r → (H.promptPages r + 1) * H.blockSize ≤ total →
    (∀ last, r.mmFeatures.getLast? = some last → mmStop last ≠ H.promptPages r * H.blockSize) ∧
      (r.mmFeatures.filter (H.promptPages r * H.blockSize < mmStop ·)).length ≤ 1

/-- The items that overlap the block that the prompt ends in. -/
lemma filter_overlaps_promptPages (hr : Placed r) (hB : 0 < H.blockSize) :
    r.mmFeatures.filter
        (Overlaps (H.promptPages r * H.blockSize) (H.promptPages r * H.blockSize + H.blockSize) ·) =
      r.mmFeatures.filter (H.promptPages r * H.blockSize < mmStop ·) := by
  refine List.filter_congr fun f hf => ?_
  have hstop := stop_lt_of_past hr hB (Nat.lt_succ_self _) hf
  have hnext : (H.promptPages r).succ * H.blockSize = H.promptPages r * H.blockSize + H.blockSize := Nat.succ_mul _ _
  have hin : f.offset < H.promptPages r * H.blockSize + H.blockSize := by
    rw [hnext, mmStop] at hstop
    omega
  exact decide_eq_decide.2 (and_iff_right hin)

/-- The keys that are guessed are the ones of the items in the block. -/
lemma restartKeys_eq_iff (hr : Placed r) :
    H.restartKeys r (H.promptPages r) =
        (r.mmFeatures.filter (H.promptPages r * H.blockSize < mmStop ·)).map (·.identifier) ↔
      (∀ last, r.mmFeatures.getLast? = some last → mmStop last ≠ H.promptPages r * H.blockSize) ∧
        (r.mmFeatures.filter (H.promptPages r * H.blockSize < mmStop ·)).length ≤ 1 := by
  generalize hs : H.promptPages r * H.blockSize = start
  cases hlast : r.mmFeatures.getLast? with
  | none =>
    rw [restartKeys, List.getLast?_eq_none_iff.1 hlast]
    exact iff_of_true rfl ⟨nofun, Nat.zero_le 1⟩
  | some last =>
    have hmem := List.mem_of_getLast? hlast
    have hmax := fun f hf => stop_le_of_pairwise hr.ordered hlast (f := f) hf
    rw [restartKeys_some hlast, hs]
    rcases Nat.lt_trichotomy (mmStop last) start with hlt | heq | hgt
    · -- no item goes into the block
      have hnone : r.mmFeatures.filter (start < mmStop ·) = [] := by
        rw [List.filter_eq_nil_iff]
        intro f hf
        have := hmax f hf
        simpa using (by omega : mmStop f ≤ start)
      rw [if_neg (Nat.not_le.2 hlt), hnone]
      refine iff_of_true rfl ⟨?_, Nat.zero_le 1⟩
      rintro _ ⟨⟩
      exact hlt.ne
    · have hnone : r.mmFeatures.filter (start < mmStop ·) = [] := by
        rw [List.filter_eq_nil_iff]
        intro f hf
        have := hmax f hf
        simpa using (by omega : mmStop f ≤ start)
      rw [if_pos heq.ge, hnone]
      exact iff_of_false (List.cons_ne_nil _ _) fun h => h.1 last rfl heq
    · have hin : last ∈ r.mmFeatures.filter (start < mmStop ·) := List.mem_filter.2 ⟨hmem, decide_eq_true hgt⟩
      have hne : ∀ l, some last = some l → mmStop l ≠ start := by
        rintro _ ⟨⟩
        exact hgt.ne'
      rw [if_pos hgt.le, and_iff_right hne]
      constructor
      · intro h
        have hlen := congrArg List.length h
        rw [List.length_map] at hlen
        exact hlen.symm.le
      · intro h
        have hone : (r.mmFeatures.filter (start < mmStop ·)).length = 1 :=
          Nat.le_antisymm h (List.length_pos_of_mem hin)
        obtain ⟨f, hf⟩ := List.length_eq_one_iff.1 hone
        rw [hf] at hin ⊢
        obtain rfl := List.mem_singleton.1 hin
        rfl

/-- The hashes of a request are the same in one pass as call by call, and take in the items that overlap each block,
exactly if the guess is right. -/
theorem incremental_hashes_iff (H : Hasher η) {r : Request} (hr : Placed r) (hout : r.outputTokenIds = [])
    (calls : List (List Token)) :
    (H.hashesAfter r calls = H.requestBlockHasher (appendOutputTokenIds r calls.flatten) [] ∧
        H.contentsAfter r calls = H.pages (appendOutputTokenIds r calls.flatten)) ↔
      GuessRight H r (appendOutputTokenIds r calls.flatten).numTokens := by
  have hafter := contentsAfter_eq (H := H) hr hout calls
  have hr' : Placed (appendOutputTokenIds r calls.flatten) := ⟨hr.nonempty, hr.ordered, hr.inside⟩
  have hguess : ∀ total, GuessRight H (appendOutputTokenIds r calls.flatten) total ↔ GuessRight H r total := fun _ => Iff.rfl
  have hpass : H.requestBlockHasher (appendOutputTokenIds r calls.flatten) [] =
      H.hashChain none (H.pages (appendOutputTokenIds r calls.flatten)) := by
    rw [requestBlockHasher, List.length_nil, newContents_zero hr']
    rfl
  rw [hashesAfter_eq, hpass, and_iff_right_of_imp (congrArg _), hafter, ← hguess, pages, List.map_inj_left]
  generalize appendOutputTokenIds r calls.flatten = r' at hr' ⊢
  constructor
  · intro h hpos hfull
    have hB : 0 < H.blockSize := Nat.pos_of_ne_zero fun h0 => by
      rw [promptPages, h0, Nat.div_zero] at hpos
      exact Nat.lt_irrefl 0 hpos
    have hk : H.promptPages r' < r'.numTokens / H.blockSize := (Nat.le_div_iff_mul_le hB).2 hfull
    have hpage := congrArg Prod.snd (h _ (List.mem_range.2 hk))
    rw [guessedPage, if_pos ⟨rfl, hpos⟩, page, pageKeys, filter_overlaps_promptPages hr' hB, if_neg hpos.ne',
      List.append_nil] at hpage
    exact (restartKeys_eq_iff hr').1 (List.append_cancel_left hpage)
  · intro h k hk
    have hk := List.mem_range.1 hk
    rw [guessedPage]
    split_ifs with hat
    · obtain ⟨rfl, hpos⟩ := hat
      have hB : 0 < H.blockSize := Nat.pos_of_ne_zero fun h0 => by
        rw [promptPages, h0, Nat.div_zero] at hpos
        exact Nat.lt_irrefl 0 hpos
      have hkeys := (restartKeys_eq_iff hr').2 (h hpos ((Nat.le_div_iff_mul_le hB).1 hk))
      rw [page, pageKeys, filter_overlaps_promptPages hr' hB, if_neg hpos.ne', List.append_nil, hkeys]
    · rfl

/-- A prompt of two blocks of four tokens, the second with two images. -/
def twoImages (first : Nat) : Request where
  requestId := ['a']
  promptTokenIds := [1, 2, 3, 4, 5, 6]
  mmFeatures := [⟨4, 1, first⟩, ⟨5, 1, 9⟩]

/-- A prompt whose image ends with its first block. -/
def imageAtEdge : Request where
  requestId := ['a']
  promptTokenIds := [1, 2, 3, 4]
  mmFeatures := [⟨2, 2, 9⟩]

/-- A prompt whose image goes over the end of its first block. -/
def imageAcross : Request where
  requestId := ['a']
  promptTokenIds := [1, 2, 3, 4, 5]
  mmFeatures := [⟨2, 3, 9⟩]

/-- A prompt that leaves one image over is hashed the same in one pass. -/
theorem incremental_hashes_across :
    ((Hasher.chain 4).hashesAfter imageAcross [[6], [7, 8, 9]] =
          (Hasher.chain 4).requestBlockHasher (appendOutputTokenIds imageAcross [6, 7, 8, 9]) [] ∧
        (Hasher.chain 4).contentsAfter imageAcross [[6], [7, 8, 9]] =
          (Hasher.chain 4).pages (appendOutputTokenIds imageAcross [6, 7, 8, 9])) ↔
      GuessRight (Hasher.chain 4) imageAcross 9 :=
  incremental_hashes_iff (Hasher.chain 4) ⟨by decide, by decide, by decide⟩ rfl [[6], [7, 8, 9]]

/-- Two prompts that differ in an image share a block, and an image that ends with the first block is counted again in
the second: in one pass neither happens. -/
theorem wrong_guesses :
    (∀ first, Placed (twoImages first)) ∧ Placed imageAtEdge ∧
    (Hasher.chain 4).hashesAfter (twoImages 7) [[7, 8]] = (Hasher.chain 4).hashesAfter (twoImages 8) [[7, 8]] ∧
    (Hasher.chain 4).requestBlockHasher (appendOutputTokenIds (twoImages 7) [7, 8]) [] ≠
      (Hasher.chain 4).requestBlockHasher (appendOutputTokenIds (twoImages 8) [7, 8]) [] ∧
    (Hasher.chain 4).hashesAfter imageAtEdge [[5, 6, 7, 8]] ≠
      (Hasher.chain 4).requestBlockHasher (appendOutputTokenIds imageAtEdge [5, 6, 7, 8]) [] := by
  refine ⟨fun first => ⟨?_, ?_, ?_⟩, ⟨by decide, by decide, by decide⟩, by decide, by decide, by decide⟩
  · exact List.forall_mem_cons.2 ⟨Nat.one_pos, List.forall_mem_cons.2 ⟨Nat.one_pos, nofun⟩⟩
  · exact List.pairwise_cons.2 ⟨List.forall_mem_singleton.2 le_rfl, List.pairwise_singleton _ _⟩
  · exact List.forall_mem_cons.2 ⟨Nat.le_succ 5, List.forall_mem_cons.2 ⟨le_rfl, nofun⟩⟩

end Hasher
end Gambit.KV
