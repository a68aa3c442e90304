import Gambit.Sched.Request

/-!
# Block hashes

Model of the block hashes of a request: `hash_block_tokens`, `generate_block_hash_extra_keys` and
`get_request_block_hasher` of `vllm/v1/core/kv_cache_utils.py`, and `Request.block_hashes`, which the
constructor and every appended token extend by the blocks that have become full.

The hash function is a parameter: it takes the hash of the block before (`none` for `NONE_HASH`), the tokens
of the block and its extra keys. Extra keys are Python strings, told apart by a number; `loraName` gives the
name of a LoRA adapter. No keys and the keys `()` are the same. Prompt embeddings are left out, as in
`Request`.
-/

namespace Gambit.KV
open Gambit.Sched

/-- An extra key (Python `str`). -/
abbrev ExtraKey := Nat

/-- What distinguishes a block from another one behind the same blocks: its tokens and its extra keys. -/
abbrev BlockContent := List Token × List ExtraKey

/-- The hashing of an engine: `caching_hash_fn` with the seed, the block size and the names of adapters. -/
structure Hasher (η : Type) where
  hashFn : Option η → List Token → List ExtraKey → η
  blockSize : Nat
  loraName : Int → ExtraKey := Int.toNat

/-- No two blocks have the same hash: distinct inputs have distinct hashes, and none of them is the seed. -/
def Hasher.Injective {η : Type} (H : Hasher η) : Prop :=
  ∀ h h' ts ts' ks ks', H.hashFn h ts ks = H.hashFn h' ts' ks' → h = h' ∧ ts = ts' ∧ ks = ks'

/-- The loop of `_gen_mm_extra_hash_keys` over the items from the current one on: the keys, and how many
items the block has passed. -/
def mmExtraKeys (start stop : Nat) : List MmFeature → List ExtraKey × Nat
  | [] => ([], 0)
  | f :: fs =>
    if f.offset < stop then
      if f.offset + f.length < start then
        ((mmExtraKeys start stop fs).1, (mmExtraKeys start stop fs).2 + 1)
      else if f.offset + f.length ≤ stop then
        (f.identifier :: (mmExtraKeys start stop fs).1, (mmExtraKeys start stop fs).2 + 1)
      else ([f.identifier], 0)
    else ([], 0)

/-- Python `_gen_mm_extra_hash_keys`; a negative index counts from the end. -/
def genMmExtraHashKeys (fs : List MmFeature) (start stop : Nat) (mmIdx : Int) : List ExtraKey × Int :=
  match fs.getLast? with
  | none => ([], mmIdx)
  | some last =>
    if last.offset + last.length < start then ([], mmIdx)
    else
      let idx := (if mmIdx < 0 then fs.length + mmIdx else mmIdx).toNat
      let (keys, passed) := mmExtraKeys start stop (fs.drop idx)
      (keys, idx + passed)

namespace Hasher
variable {η : Type} (H : Hasher η)

/-- Python `_gen_lora_extra_hash_keys`. -/
def genLoraExtraHashKeys (r : Request) : List ExtraKey := (r.loraRequest.map H.loraName).toList

/-- Python `generate_block_hash_extra_keys`. -/
def generateBlockHashExtraKeys (r : Request) (start stop : Nat) (mmIdx : Int) : List ExtraKey × Int :=
  let (mmKeys, mmIdx) := genMmExtraHashKeys r.mmFeatures start stop mmIdx
  let saltKeys := if start = 0 then r.cacheSalt.toList else []
  (H.genLoraExtraHashKeys r ++ mmKeys ++ saltKeys, mmIdx)

/-- The contents of `n` blocks of a request from the token `start` on. -/
def contentsFrom (r : Request) (start : Nat) (mmIdx : Int) : Nat → List BlockContent
  | 0 => []
  | n + 1 =>
    let (keys, mmIdx) := H.generateBlockHashExtraKeys r start (start + H.blockSize) mmIdx
    ((r.allTokenIds.drop start).take H.blockSize, keys) :: contentsFrom r (start + H.blockSize) mmIdx n

/-- The contents of the full blocks of a request after the first `k`. -/
def newContents (r : Request) (k : Nat) : List BlockContent :=
  let start := k * H.blockSize
  H.contentsFrom r start (if 0 < start then -1 else 0) ((r.numTokens - start) / H.blockSize)

/-- The hashes of a chain of blocks. -/
def hashChain (parent : Option η) : List BlockContent → List η
  | [] => []
  | (tokens, keys) :: rest =>
    H.hashFn parent tokens keys :: hashChain (some (H.hashFn parent tokens keys)) rest

/-- Python `request_block_hasher`: the hashes of the full blocks a request has beyond those it knows. -/
def requestBlockHasher (r : Request) (hashes : List η) : List η :=
  H.hashChain hashes.getLast? (H.newContents r hashes.length)

/-- The hashes after more tokens were appended, one by one. -/
def appendHashes : Request → List η → List Token → List η
  | _, hashes, [] => hashes
  | r, hashes, t :: ts =>
    appendHashes (r.appendOutputTokenId t) (hashes ++ H.requestBlockHasher (r.appendOutputTokenId t) hashes) ts

/-- A request as its constructor made it. -/
def created (r : Request) : Request := { r with outputTokenIds := [] }

/-- Python `Request.block_hashes`: hashed in the constructor, then extended with every output token. -/
def blockHashes (r : Request) : List η :=
  H.appendHashes (created r) (H.requestBlockHasher (created r) []) r.outputTokenIds

/-- The contents after more tokens were appended, one by one. -/
def appendContents : Request → List BlockContent → List Token → List BlockContent
  | _, contents, [] => contents
  | r, contents, t :: ts =>
    appendContents (r.appendOutputTokenId t) (contents ++ H.newContents (r.appendOutputTokenId t) contents.length)
      ts

/-- What the hashes of a request were computed from. -/
def blockContents (r : Request) : List BlockContent :=
  H.appendContents (created r) (H.newContents (created r) 0) r.outputTokenIds

variable {H} {r : Request}

@[simp] lemma length_hashChain (p : Option η) (c : List BlockContent) : (H.hashChain p c).length = c.length := by
  induction c generalizing p with
  | nil => rfl
  | cons x c ih => rw [hashChain, List.length_cons, ih, List.length_cons]

/-- A chain goes on from its last hash. -/
lemma hashChain_append (p : Option η) (c d : List BlockContent) :
    H.hashChain p (c ++ d) = H.hashChain p c ++ H.hashChain ((H.hashChain p c).getLast?.or p) d := by
  induction c generalizing p with
  | nil => rfl
  | cons x c ih =>
    rw [List.cons_append, hashChain, ih, hashChain, List.cons_append, List.getLast?_cons]
    congr 3
    cases (H.hashChain (some (H.hashFn p x.1 x.2)) c).getLast? with
    | none => rfl
    | some h => rfl

/-- The chain of a whole request, one piece after another. -/
lemma hashChain_none_append (c d : List BlockContent) :
    H.hashChain none (c ++ d) = H.hashChain none c ++ H.hashChain (H.hashChain none c).getLast? d := by
  rw [hashChain_append, Option.or_none]

lemma appendHashes_eq (r : Request) (c : List BlockContent) (ts : List Token) :
    H.appendHashes r (H.hashChain none c) ts = H.hashChain none (H.appendContents r c ts) := by
  induction ts generalizing r c with
  | nil => rfl
  | cons t ts ih =>
    rw [appendHashes, appendContents, requestBlockHasher, length_hashChain, ← hashChain_none_append]
    exact ih (r.appendOutputTokenId t) _

/-- The hashes of a request are the chain over its contents. -/
lemma blockHashes_eq (r : Request) : H.blockHashes r = H.hashChain none (H.blockContents r) :=
  appendHashes_eq (created r) _ r.outputTokenIds

lemma appendContents_append (r : Request) (c : List BlockContent) (ts us : List Token) :
    H.appendContents r c (ts ++ us) =
      H.appendContents { r with outputTokenIds := r.outputTokenIds ++ ts } (H.appendContents r c ts) us := by
  induction ts generalizing r c with
  | nil => simp [appendContents]
  | cons t ts ih =>
    rw [List.cons_append, appendContents, ih, appendContents]
    simp [Request.appendOutputTokenId]

/-- Appending a token only adds blocks. -/
lemma blockContents_append (r : Request) (t : Token) :
    H.blockContents (r.appendOutputTokenId t) =
      H.blockContents r ++ H.newContents (r.appendOutputTokenId t) (H.blockContents r).length := by
  have hc : created (r.appendOutputTokenId t) = created r := rfl
  have ho : (r.appendOutputTokenId t).outputTokenIds = r.outputTokenIds ++ [t] := rfl
  have hr : ({ created r with outputTokenIds := (created r).outputTokenIds ++ r.outputTokenIds } : Request) = r := rfl
  rw [blockContents, hc, ho, appendContents_append, hr]
  rfl

@[simp] lemma length_contentsFrom (r : Request) (start : Nat) (mmIdx : Int) (n : Nat) :
    (H.contentsFrom r start mmIdx n).length = n := by
  induction n generalizing start mmIdx with
  | zero => rfl
  | succ n ih => rw [contentsFrom, List.length_cons, ih]

lemma length_newContents (r : Request) (k : Nat) :
    (H.newContents r k).length = (r.numTokens - k * H.blockSize) / H.blockSize :=
  length_contentsFrom ..

lemma numTokens_appendOutputTokenId (r : Request) (t : Token) :
    (r.appendOutputTokenId t).numTokens = r.numTokens + 1 := by
  simp [Request.numTokens, Request.allTokenIds, Request.appendOutputTokenId, Nat.add_assoc]

/-- Every full block of a request is hashed, and only these. -/
lemma length_blockContents (r : Request) : (H.blockContents r).length = r.numTokens / H.blockSize := by
  suffices h : ∀ (ts : List Token) (r : Request), r.outputTokenIds = ts →
      (H.blockContents r).length = r.numTokens / H.blockSize from h _ r rfl
  intro ts
  induction ts using List.reverseRecOn with
  | nil =>
    intro r hr
    have hc : created r = r := by
      rw [created, ← hr]
    rw [blockContents, hr, appendContents, length_newContents, hc, Nat.zero_mul, Nat.sub_zero]
  | append_singleton ts t ih =>
    intro r hr
    have hr' : r = Request.appendOutputTokenId { r with outputTokenIds := ts } t := by
      rw [Request.appendOutputTokenId, ← hr]
    have hlen := ih { r with outputTokenIds := ts } rfl
    rw [hr', blockContents_append, List.length_append, length_newContents, hlen,
      numTokens_appendOutputTokenId, Nat.mul_comm, Nat.sub_mul_div]
    exact Nat.add_sub_of_le (Nat.div_le_div_right (Nat.le_succ _))

/-- The last hash of a chain. -/
lemma getLast?_hashChain_concat (c : List BlockContent) (x : BlockContent) :
    (H.hashChain none (c ++ [x])).getLast? = some (H.hashFn (H.hashChain none c).getLast? x.1 x.2) := by
  rw [hashChain_none_append, hashChain, hashChain, List.getLast?_concat]

/-- The last hash of a chain tells the whole chain. -/
lemma Injective.getLast?_hashChain (inj : H.Injective) {c d : List BlockContent}
    (h : (H.hashChain none c).getLast? = (H.hashChain none d).getLast?) : c = d := by
  induction c using List.reverseRecOn generalizing d with
  | nil =>
    cases d using List.reverseRecOn with
    | nil => rfl
    | append_singleton d y =>
      rw [getLast?_hashChain_concat] at h
      cases h
  | append_singleton c x ih =>
    cases d using List.reverseRecOn with
    | nil =>
      rw [getLast?_hashChain_concat] at h
      cases h
    | append_singleton d y =>
      rw [getLast?_hashChain_concat, getLast?_hashChain_concat] at h
      obtain ⟨hlast, hts, hks⟩ := inj _ _ _ _ _ _ (Option.some.inj h)
      rw [ih hlast, Prod.ext hts hks]

lemma getElem?_hashChain (c : List BlockContent) {i : Nat} (hi : i < c.length) :
    (H.hashChain none c)[i]? = (H.hashChain none (c.take (i + 1))).getLast? := by
  have hsplit := hashChain_none_append (H := H) (c.take (i + 1)) (c.drop (i + 1))
  rw [List.take_append_drop] at hsplit
  have hlen : (H.hashChain none (c.take (i + 1))).length = i + 1 := by
    rw [length_hashChain, List.length_take]
    omega
  rw [hsplit, List.getElem?_append_left (by omega), List.getLast?_eq_getElem?, hlen, Nat.add_sub_cancel]

/-- Equal hashes are at the same place and behind equal contents. -/
lemma Injective.getElem?_hashChain (inj : H.Injective) {c d : List BlockContent} {i j : Nat} {h : η}
    (hi : (H.hashChain none c)[i]? = some h) (hj : (H.hashChain none d)[j]? = some h) :
    i = j ∧ c.take (i + 1) = d.take (j + 1) := by
  have hic : i < c.length := by
    rw [← length_hashChain none c]
    exact (List.getElem?_eq_some_iff.1 hi).1
  have hjd : j < d.length := by
    rw [← length_hashChain none d]
    exact (List.getElem?_eq_some_iff.1 hj).1
  rw [Hasher.getElem?_hashChain c hic] at hi
  rw [Hasher.getElem?_hashChain d hjd] at hj
  have heq := inj.getLast?_hashChain (hi.trans hj.symm)
  have hlen := congrArg List.length heq
  rw [List.length_take, List.length_take] at hlen
  exact ⟨by omega, heq⟩

/-- Two requests with one hash in common agree on all blocks up to it. -/
lemma Injective.blockHashes (inj : H.Injective) {r r' : Request} {i j : Nat} {h : η}
    (hi : (H.blockHashes r)[i]? = some h) (hj : (H.blockHashes r')[j]? = some h) :
    i = j ∧ (H.blockContents r).take (i + 1) = (H.blockContents r').take (j + 1) := by
  rw [blockHashes_eq] at hi hj
  exact inj.getElem?_hashChain hi hj

/-- A request has no hash twice. -/
lemma Injective.nodup_blockHashes (inj : H.Injective) (r : Request) : (H.blockHashes r).Nodup := by
  rw [List.nodup_iff_getElem?_ne_getElem?]
  intro i j hij hj heq
  have hs := List.getElem?_eq_getElem hj
  exact absurd (inj.blockHashes (heq.trans hs) hs).1 hij.ne

@[simp] lemma length_blockHashes (r : Request) : (H.blockHashes r).length = r.numTokens / H.blockSize := by
  rw [blockHashes_eq, length_hashChain, length_blockContents]

end Hasher

/-- The hash of a block as the chain of blocks up to it. -/
inductive BlockChain where
  | first (tokens : List Token) (keys : List ExtraKey)
  | next (parent : BlockChain) (tokens : List Token) (keys : List ExtraKey)
  deriving DecidableEq

/-- Hashing without collisions. -/
def Hasher.chain (blockSize : Nat) : Hasher BlockChain where
  hashFn parent tokens keys :=
    match parent with
    | none => .first tokens keys
    | some h => .next h tokens keys
  blockSize := blockSize

lemma Hasher.injective_chain (blockSize : Nat) : (Hasher.chain blockSize).Injective := by
  intro h h' ts ts' ks ks' he
  cases h with
  | none =>
    cases h' with
    | none =>
      cases he
      exact ⟨rfl, rfl, rfl⟩
    | some _ => cases he
  | some _ =>
    cases h' with
    | none => cases he
    | some _ =>
      cases he
      exact ⟨rfl, rfl, rfl⟩

end Gambit.KV
