import Gambit.Sched.EncoderCache

/-!
# The encoder cache keeps its accounts

The two counters are the capacity without the cached entries, and that plus the entries nobody refers to,
which are exactly the entries of `freeable`. This is an invariant of every call on the cache (`Accounted`),
as long as no input is allocated whose entry is in the cache already. Models with a decoder only check that
before they ask for room; encoder-decoder models do not.

`size` gives the number of tokens of the item behind a hash.
-/

namespace Gambit.Sched
open Gambit.Lib

variable {size : MMHash → Nat} {cap : Nat} {cfg : EncoderConfig}

/-- The tokens of the entries of a dictionary. -/
def tokens {β : Type} (size : MMHash → Nat) (d : Dict MMHash β) : Int :=
  (d.keys.map fun h => (size h : Int)).sum

section Tokens
variable {β : Type} {d : Dict MMHash β} {h : MMHash} {v : β}

lemma tokens_nonneg : 0 ≤ tokens size d :=
  List.sum_nonneg fun x hx => by
    obtain ⟨h, -, rfl⟩ := List.mem_map.1 hx
    exact Int.natCast_nonneg _

lemma tokens_set_of_mem (hm : h ∈ d) : tokens size (d.set h v) = tokens size d := by
  rw [tokens, Dict.keys_set_of_mem v hm, tokens]

lemma tokens_set_of_not_mem (hm : h ∉ d) : tokens size (d.set h v) = tokens size d + size h := by
  rw [tokens, Dict.keys_set_of_not_mem v hm, List.map_append, List.sum_append, tokens]
  simp

lemma tokens_erase (hm : d.get? h = some v) : tokens size d = size h + tokens size (d.erase h) := by
  have hperm := ((Dict.perm_cons_erase hm).map Prod.fst).map fun h => (size h : Int)
  have hsum := hperm.sum_eq
  rw [List.map_cons, List.map_cons, List.sum_cons] at hsum
  exact hsum

end Tokens

/-- The items of a request have the sizes of their hashes. -/
def EncoderRequest.Sized (size : MMHash → Nat) (r : EncoderRequest) : Prop :=
  ∀ f ∈ r.mmFeatures, f.length = size f.identifier

namespace EncoderCacheManager
variable {m m' : EncoderCacheManager} {r : EncoderRequest} {f : MMFeature} {h : MMHash}

/-- The counters and the freeable entries follow the cached entries. -/
structure Accounted (size : MMHash → Nat) (cap : Nat) (m : EncoderCacheManager) : Prop where
  freeSlots : m.numFreeSlots = cap - tokens size m.cached
  freeableSlots : m.numFreeableSlots = m.numFreeSlots + tokens size m.freeable
  sized : ∀ h t, m.freeable.get? h = some t → t = size h
  unreferenced : ∀ h, h ∈ m.freeable ↔ m.cached.get? h = some []
  nonneg : 0 ≤ m.numFreeSlots

/-- What calls that look for room do to the cache: they evict entries nobody refers to. -/
structure Evicts (m m' : EncoderCacheManager) : Prop where
  back : ∀ h, m'.cached.get? h = some [] → m.cached.get? h = some []
  keys : ∀ h ∈ m'.cached, h ∈ m.cached
  room : m.numFreeSlots ≤ m'.numFreeSlots
  freed : ∃ l, m'.freed = m.freed ++ l ∧ ∀ h ∈ l, m.cached.get? h = some []

lemma Evicts.refl (m : EncoderCacheManager) : Evicts m m :=
  ⟨fun _ h => h, fun _ h => h, le_rfl, [], (List.append_nil _).symm, nofun⟩

lemma Evicts.trans {m1 m2 m3 : EncoderCacheManager} (h : Evicts m1 m2) (h' : Evicts m2 m3) :
    Evicts m1 m3 := by
  obtain ⟨l, hl, hu⟩ := h.freed
  obtain ⟨l', hl', hu'⟩ := h'.freed
  refine ⟨fun k hk => h.back k (h'.back k hk), fun k hk => h.keys k (h'.keys k hk), h.room.trans h'.room,
    l ++ l', by rw [hl', hl, List.append_assoc], fun k hk => ?_⟩
  rcases List.mem_append.1 hk with hk | hk
  · exact hu k hk
  · exact h.back k (hu' k hk)

/-- A hit adds a reference. -/
lemma Accounted.checkAndUpdateCache (ha : m.Accounted size cap) (r : EncoderRequest) (h : MMHash) :
    ∃ m' hit, m.checkAndUpdateCache r h = .ok (m', hit) ∧ m'.Accounted size cap ∧ Evicts m m' ∧
      (hit = false → h ∉ m'.cached) := by
  unfold EncoderCacheManager.checkAndUpdateCache
  -- an entry that keeps its key and gets a reference
  have hset : ∀ refs refs' : List ReqId, m.cached.get? h = some refs → refs' ≠ [] → ∀ k,
      (m.cached.set h refs').get? k = some [] → k ≠ h ∧ m.cached.get? k = some [] := by
    intro refs refs' _ hne k hk
    rw [Dict.get?_set] at hk
    split at hk
    · exact absurd (Option.some.inj hk) hne
    · next hkh => exact ⟨hkh, hk⟩
  have hkeys : ∀ refs refs' : List ReqId, m.cached.get? h = some refs → ∀ k ∈ m.cached.set h refs',
      k ∈ m.cached := by
    intro refs refs' hg k hk
    rcases Dict.mem_set.1 hk with rfl | hk
    · exact Dict.mem_of_get? hg
    · exact hk
  split
  · next hg => exact ⟨m, false, rfl, ha, .refl m, fun _ => Dict.get?_eq_none.1 hg⟩
  · next hg =>
    obtain ⟨t, ht⟩ := Dict.mem_iff_get?.1 ((ha.unreferenced h).2 hg)
    rw [ht]
    have hne : ([r.requestId] : List ReqId) ≠ [] := List.cons_ne_nil _ _
    refine ⟨_, true, rfl, ⟨?_, ?_, fun k t' hk => ?_, fun k => ?_, ha.nonneg⟩,
      ⟨fun k hk => (hset [] _ hg hne k hk).2, hkeys [] _ hg, le_rfl, [], (List.append_nil _).symm,
        fun _ h => absurd h List.not_mem_nil⟩,
      fun h => absurd h.symm Bool.false_ne_true⟩
    · dsimp only
      rw [tokens_set_of_mem (Dict.mem_of_get? hg)]
      exact ha.freeSlots
    · dsimp only
      have htok : tokens size m.freeable = size h + tokens size (m.freeable.erase h) := tokens_erase ht
      rw [ha.freeableSlots, ha.sized h t ht]
      omega
    · dsimp only at hk
      rw [Dict.get?_erase] at hk
      split at hk
      · cases hk
      · exact ha.sized k t' hk
    · dsimp only
      rw [Dict.mem_erase, ha.unreferenced, Dict.get?_set]
      by_cases hkh : k = h
      · simp [hkh]
      · simp [hkh]
  · next refs hne hg =>
    have hins : refs.insert r.requestId ≠ [] := by
      intro he
      have hm : r.requestId ∈ refs.insert r.requestId := List.mem_insert_self
      rw [he] at hm
      cases hm
    refine ⟨_, true, rfl, ⟨?_, ha.freeableSlots, ha.sized, fun k => ?_, ha.nonneg⟩,
      ⟨fun k hk => (hset _ _ hg hins k hk).2, hkeys _ _ hg, le_rfl, [], (List.append_nil _).symm,
        fun _ h => absurd h List.not_mem_nil⟩,
      fun h => absurd h.symm Bool.false_ne_true⟩
    · dsimp only
      rw [tokens_set_of_mem (Dict.mem_of_get? hg)]
      exact ha.freeSlots
    · dsimp only
      rw [ha.unreferenced, Dict.get?_set]
      by_cases hkh : k = h
      · rw [if_pos hkh, hkh, hg]
        exact ⟨fun he => absurd (Option.some.inj he) hne, fun he => absurd (Option.some.inj he) hins⟩
      · rw [if_neg hkh]

/-- The loop of `can_allocate` ends before it runs out of entries. -/
lemma Accounted.evictFor {n : Nat} (ha : m.Accounted size cap) (hn : n ≤ m.numFreeableSlots) :
    ∃ m', EncoderCacheManager.evictFor n m.freeable.entries m = .ok m' ∧ m'.Accounted size cap ∧ Evicts m m' ∧
      n ≤ m'.numFreeSlots := by
  generalize hl : m.freeable.entries = l
  induction l generalizing m with
  | nil =>
    have h0 : tokens size m.freeable = 0 := by
      rw [tokens, Dict.keys, hl]
      rfl
    have hfree : ¬ m.numFreeSlots < n := by
      rw [ha.freeableSlots, h0] at hn
      omega
    refine ⟨m, ?_, ha, .refl m, by omega⟩
    rw [EncoderCacheManager.evictFor, if_neg hfree]
  | cons e l ih =>
    obtain ⟨h, t⟩ := e
    rw [EncoderCacheManager.evictFor]
    split
    · next hlt =>
      have hf : m.freeable.get? h = some t := Dict.get?_eq_some.2 (hl ▸ List.mem_cons_self)
      have hc := (ha.unreferenced h).1 (Dict.mem_of_get? hf)
      have hsz := ha.sized h t hf
      have htok : tokens size m.freeable = size h + tokens size (m.freeable.erase h) := tokens_erase hf
      have htok' : tokens size m.cached = size h + tokens size (m.cached.erase h) := tokens_erase hc
      rw [if_pos (Dict.mem_of_get? hc)]
      have ha' : Accounted size cap { m with
          freeable := m.freeable.erase h
          cached := m.cached.erase h
          freed := m.freed ++ [h]
          numFreeSlots := m.numFreeSlots + t } := by
        refine ⟨?_, ?_, fun k t' hk => ?_, fun k => ?_, ?_⟩
        · dsimp only
          rw [ha.freeSlots, hsz]
          omega
        · dsimp only
          rw [ha.freeableSlots, hsz]
          omega
        · dsimp only at hk
          rw [Dict.get?_erase] at hk
          split at hk
          · cases hk
          · exact ha.sized k t' hk
        · dsimp only
          rw [Dict.mem_erase, ha.unreferenced, Dict.get?_erase]
          by_cases hkh : k = h
          · simp [hkh]
          · simp [hkh]
        · have := ha.nonneg
          dsimp only
          omega
      have hrest : (m.freeable.erase h).entries = l := by
        have hnd := m.freeable.nodup
        rw [hl, List.map_cons, List.nodup_cons] at hnd
        change m.freeable.entries.filter (fun e => e.1 ≠ h) = l
        rw [hl, List.filter_cons_of_neg (by simp)]
        refine List.filter_eq_self.2 fun e he => ?_
        simp only [ne_eq, decide_not, Bool.not_eq_true', decide_eq_false_iff_not]
        rintro rfl
        exact hnd.1 (List.mem_map.2 ⟨e, he, rfl⟩)
      obtain ⟨m', hm', ham', hev, hroom⟩ := ih ha' hn hrest
      refine ⟨m', hm', ham', Evicts.trans ⟨fun k hk => ?_, fun k hk => ?_, ?_, [h], rfl, ?_⟩ hev, hroom⟩
      · dsimp only at hk
        rw [Dict.get?_erase] at hk
        split at hk
        · cases hk
        · exact hk
      · exact (Dict.mem_erase.1 hk).2
      · dsimp only
        omega
      · intro k hk
        rw [List.mem_singleton.1 hk]
        exact hc
    · next hge => exact ⟨m, rfl, ha, .refl m, by omega⟩

/-- Looking for room never raises, and finds it where it says so. -/
lemma Accounted.canAllocate (ha : m.Accounted size cap) (n budget toSchedule : Nat) :
    ∃ m' ok, m.canAllocate n budget toSchedule = .ok (m', ok) ∧ m'.Accounted size cap ∧ Evicts m m' ∧
      (ok = true → (n + toSchedule : Nat) ≤ m'.numFreeSlots) := by
  unfold EncoderCacheManager.canAllocate
  dsimp only
  split
  · exact ⟨m, false, rfl, ha, .refl m, nofun⟩
  split
  · next hle => exact ⟨m, true, rfl, ha, .refl m, fun _ => hle⟩
  split
  · exact ⟨m, false, rfl, ha, .refl m, nofun⟩
  · next hge =>
    obtain ⟨m', hm', ha', hev, hroom⟩ := ha.evictFor (n := n + toSchedule) (by omega)
    rw [hm']
    exact ⟨m', true, rfl, ha', hev, fun _ => hroom⟩

/-- Allocating an entry that is not in the cache. -/
lemma Accounted.allocate (ha : m.Accounted size cap) (hnew : f.identifier ∉ m.cached)
    (hsize : f.length = size f.identifier) (hroom : f.length ≤ m.numFreeSlots) (r : EncoderRequest) :
    ∃ m', m.allocate r f = .ok m' ∧ m'.Accounted size cap ∧ m'.numFreeSlots = m.numFreeSlots - f.length ∧
      (∀ h, h ∈ m'.cached ↔ h = f.identifier ∨ h ∈ m.cached) ∧ m'.freed = m.freed := by
  have hfreeable : (f.length : Int) ≤ m.numFreeableSlots := by
    have := ha.freeableSlots
    have hnn : 0 ≤ tokens size m.freeable := tokens_nonneg
    omega
  have hrefs : m.cached.getD f.identifier [] = [] := by
    rw [Dict.getD_eq, Dict.get?_eq_none.2 hnew, Option.getD_none]
  unfold EncoderCacheManager.allocate
  rw [if_pos ⟨hroom, hfreeable⟩, hrefs]
  refine ⟨_, rfl, ⟨?_, ?_, ha.sized, fun k => ?_, ?_⟩, rfl, fun k => Dict.mem_set, rfl⟩
  · dsimp only
    rw [tokens_set_of_not_mem hnew, ha.freeSlots, hsize]
    omega
  · dsimp only
    rw [ha.freeableSlots]
    omega
  · dsimp only
    rw [ha.unreferenced, Dict.get?_set]
    by_cases hk : k = f.identifier
    · rw [if_pos hk, hk, Dict.get?_eq_none.2 hnew]
      simp
    · rw [if_neg hk]
  · dsimp only
    omega

/-- What releasing references does to the cache. -/
structure Releases (m m' : EncoderCacheManager) : Prop where
  keys : ∀ h, h ∈ m'.cached ↔ h ∈ m.cached
  room : m'.numFreeSlots = m.numFreeSlots
  freed : m'.freed = m.freed

lemma Releases.refl (m : EncoderCacheManager) : Releases m m := ⟨fun _ => Iff.rfl, rfl, rfl⟩

/-- Releasing a reference; the last one makes the entry freeable. -/
lemma Accounted.freeEncoderInput (ha : m.Accounted size cap) (hsize : f.length = size f.identifier)
    (r : EncoderRequest) :
    (m.freeEncoderInput r f).Accounted size cap ∧ Releases m (m.freeEncoderInput r f) := by
  unfold EncoderCacheManager.freeEncoderInput
  split
  · exact ⟨ha, .refl m⟩
  · exact ⟨ha, .refl m⟩
  next refs hne hg =>
  have hmem : f.identifier ∈ m.cached := Dict.mem_of_get? hg
  have hkeys : ∀ refs' : List ReqId, ∀ h, h ∈ m.cached.set f.identifier refs' ↔ h ∈ m.cached := by
    intro refs' h
    rw [Dict.mem_set]
    exact ⟨fun hh => hh.elim (fun he => he ▸ hmem) id, .inr⟩
  have hnot : f.identifier ∉ m.freeable := by
    rw [ha.unreferenced, hg]
    exact fun he => hne (Option.some.inj he)
  dsimp only
  split
  · next hempty =>
    have hnil := List.isEmpty_iff.1 hempty
    refine ⟨⟨?_, ?_, fun k t hk => ?_, fun k => ?_, ha.nonneg⟩, hkeys _, rfl, rfl⟩
    · dsimp only
      rw [tokens_set_of_mem hmem]
      exact ha.freeSlots
    · dsimp only
      rw [tokens_set_of_not_mem hnot, ha.freeableSlots, hsize]
      omega
    · dsimp only at hk
      rw [Dict.get?_set] at hk
      split at hk
      · next hkf =>
        rw [hkf, ← hsize]
        exact (Option.some.inj hk).symm
      · exact ha.sized k t hk
    · dsimp only
      rw [Dict.mem_set, ha.unreferenced, Dict.get?_set, hnil]
      by_cases hk : k = f.identifier
      · simp [hk]
      · simp [hk]
  · next hempty =>
    refine ⟨⟨?_, ha.freeableSlots, ha.sized, fun k => ?_, ha.nonneg⟩, hkeys _, rfl, rfl⟩
    · dsimp only
      rw [tokens_set_of_mem hmem]
      exact ha.freeSlots
    · dsimp only
      rw [ha.unreferenced, Dict.get?_set]
      by_cases hk : k = f.identifier
      · rw [if_pos hk, hk, hg]
        refine ⟨fun he => absurd (Option.some.inj he) hne, fun he => ?_⟩
        rw [Option.some.inj he] at hempty
        exact absurd rfl hempty
      · rw [if_neg hk]

/-- A loop that releases references of sized inputs. -/
lemma Accounted.release {step : EncoderCacheManager → MMFeature → EncoderCacheManager} {l : List MMFeature}
    (ha : m.Accounted size cap)
    (hstep : ∀ m f, f ∈ l → m.Accounted size cap → (step m f).Accounted size cap ∧ Releases m (step m f)) :
    (l.foldl step m).Accounted size cap ∧ Releases m (l.foldl step m) := by
  induction l generalizing m with
  | nil => exact ⟨ha, .refl m⟩
  | cons f l ih =>
    obtain ⟨ha1, hr1⟩ := hstep m f List.mem_cons_self ha
    obtain ⟨ha2, hr2⟩ := ih ha1 fun m f' hf => hstep m f' (List.mem_cons_of_mem _ hf)
    exact ⟨ha2, fun h => (hr2.keys h).trans (hr1.keys h), hr2.room.trans hr1.room, hr2.freed.trans hr1.freed⟩

/-- Releasing all references of a request. -/
lemma Accounted.free (ha : m.Accounted size cap) (hs : r.Sized size) :
    (m.free r).Accounted size cap ∧ Releases m (m.free r) :=
  ha.release fun _ f hf ham => ham.freeEncoderInput (hs f (List.mem_filter.1 hf).1) r

/-- Releasing the inputs that are computed. -/
lemma Accounted.freeEncoderInputs (ha : m.Accounted size cap) (hs : r.Sized size) (cfg : EncoderConfig)
    (numComputed : Nat) :
    (Sched.freeEncoderInputs cfg r numComputed m).Accounted size cap ∧
      Releases m (Sched.freeEncoderInputs cfg r numComputed m) := by
  refine ha.release fun m f hf ham => ?_
  split
  · exact ham.freeEncoderInput (hs f (List.mem_filter.1 hf).1) r
  · exact ⟨ham, .refl m⟩

end EncoderCacheManager

open EncoderCacheManager

/-- The loop: what is taken has room, and for a model with a decoder only it is not in the cache. -/
structure TrySchedule.Inv (size : MMHash → Nat) (cap : Nat) (cfg : EncoderConfig) (m0 : EncoderCacheManager)
    (s : TrySchedule) : Prop where
  accounted : s.mgr.Accounted size cap
  evicts : Evicts m0 s.mgr
  tokens : (s.toSchedule.map MMFeature.length).sum + (s.external.map MMFeature.length).sum = s.numTokens
  room : s.numTokens ≤ s.mgr.numFreeSlots
  sized : ∀ f ∈ s.toSchedule ++ s.external, f.length = size f.identifier
  hashes : ∀ f ∈ s.toSchedule ++ s.external, f.identifier ∈ s.hashes
  nodup : cfg.isEncoderDecoder = false → ((s.toSchedule ++ s.external).map MMFeature.identifier).Nodup
  fresh : cfg.isEncoderDecoder = false → ∀ h ∈ s.hashes, h ∉ s.mgr.cached

section TrySchedule
variable {m0 : EncoderCacheManager} {r : EncoderRequest} {numComputed : Nat} {remote : MMFeature → Bool}
  {s : TrySchedule} {f : MMFeature}

/-- A change of the cache that only evicts. -/
lemma TrySchedule.Inv.evict {m : EncoderCacheManager} (h : s.Inv size cap cfg m0) (ha : m.Accounted size cap)
    (he : Evicts s.mgr m) : TrySchedule.Inv size cap cfg m0 { s with mgr := m } :=
  ⟨ha, h.evicts.trans he, h.tokens, h.room.trans he.room, h.sized, h.hashes, h.nodup,
    fun hc k hk hm => h.fresh hc k hk (he.keys k hm)⟩

/-- Taking an input. -/
lemma TrySchedule.Inv.takeInput (h : s.Inv size cap cfg m0) (hs : f.length = size f.identifier)
    (hnew : cfg.isEncoderDecoder = false → f.identifier ∉ s.hashes ∧ f.identifier ∉ s.mgr.cached) :
    ∃ s' go, Sched.takeInput cfg numComputed remote s f = .ok (s', go) ∧ s'.Inv size cap cfg m0 := by
  unfold Sched.takeInput
  split
  · exact ⟨_, false, rfl, h.accounted, h.evicts, h.tokens, h.room, h.sized, h.hashes, h.nodup, h.fresh⟩
  obtain ⟨m, ok, hm, ha, he, hroom⟩ := h.accounted.canAllocate f.length s.budget s.numTokens
  have h' := h.evict ha he
  rw [hm]
  simp only [Except.bind, bind]
  cases ok with
  | false =>
    simp only [Bool.not_false, if_true]
    exact ⟨_, false, rfl, h'.accounted, h'.evicts, h'.tokens, h'.room, h'.sized, h'.hashes, h'.nodup, h'.fresh⟩
  | true =>
    simp only [Bool.not_true, Bool.false_eq_true, if_false]
    have hroom := hroom rfl
    have hfresh : cfg.isEncoderDecoder = false → ∀ k ∈ f.identifier :: s.hashes, k ∉ m.cached := by
      intro hc k hk hmem
      rcases List.mem_cons.1 hk with rfl | hk
      · exact (hnew hc).2 (he.keys _ hmem)
      · exact h.fresh hc k hk (he.keys k hmem)
    have hnd : cfg.isEncoderDecoder = false → f.identifier ∉ (s.toSchedule ++ s.external).map
        MMFeature.identifier := by
      intro hc hmem
      obtain ⟨g, hg, hid⟩ := List.mem_map.1 hmem
      exact (hnew hc).1 (hid ▸ h.hashes g hg)
    split
    · refine ⟨_, true, rfl, ha, h.evicts.trans he, ?_, ?_, fun g hg => ?_, fun g hg => ?_, fun hc => ?_, hfresh⟩
      · have := h.tokens
        simp only [List.map_append, List.sum_append, List.map_cons, List.map_nil, List.sum_cons,
          List.sum_nil]
        omega
      · simpa [Nat.add_comm] using hroom
      · rw [← List.append_assoc, List.mem_append, List.mem_singleton] at hg
        rcases hg with hg | rfl
        · exact h.sized g hg
        · exact hs
      · rw [← List.append_assoc, List.mem_append, List.mem_singleton] at hg
        rcases hg with hg | rfl
        · exact List.mem_cons_of_mem _ (h.hashes g hg)
        · exact List.mem_cons_self
      · dsimp only
        rw [← List.append_assoc, List.map_append]
        exact (h.nodup hc).append (List.nodup_singleton _) (by simpa using hnd hc)
    · refine ⟨_, true, rfl, ha, h.evicts.trans he, ?_, ?_, fun g hg => ?_, fun g hg => ?_, fun hc => ?_, hfresh⟩
      · have := h.tokens
        simp only [List.map_append, List.sum_append, List.map_cons, List.map_nil, List.sum_cons,
          List.sum_nil]
        omega
      · simpa [Nat.add_comm] using hroom
      · have hg : g ∈ (s.toSchedule ++ s.external) ∨ g = f := by
          simpa [or_comm, or_left_comm] using hg
        rcases hg with hg | rfl
        · exact h.sized g hg
        · exact hs
      · have hg : g ∈ (s.toSchedule ++ s.external) ∨ g = f := by
          simpa [or_comm, or_left_comm] using hg
        rcases hg with hg | rfl
        · exact List.mem_cons_of_mem _ (h.hashes g hg)
        · exact List.mem_cons_self
      · dsimp only
        have hperm : ((s.toSchedule ++ [f] ++ s.external).map MMFeature.identifier).Perm
            (f.identifier :: (s.toSchedule ++ s.external).map MMFeature.identifier) := by
          rw [List.append_assoc, List.singleton_append]
          exact (List.perm_middle).map _
        exact hperm.nodup_iff.2 (List.nodup_cons.2 ⟨hnd hc, h.nodup hc⟩)

/-- One input. -/
lemma TrySchedule.Inv.tryInput (h : s.Inv size cap cfg m0) (r : EncoderRequest) (numComputed : Nat)
    (remote : MMFeature → Bool) (hs : f.length = size f.identifier)
    (h0 : cfg.isEncoderDecoder = true → f.offset = 0) :
    ∃ s' go, Sched.tryInput cfg r numComputed remote s f = .ok (s', go) ∧ s'.Inv size cap cfg m0 := by
  unfold Sched.tryInput
  split
  · exact ⟨s, false, rfl, h⟩
  split
  · next hc =>
    rw [if_pos (h0 hc.1)]
    exact ⟨s, true, rfl, h⟩
  split
  · exact ⟨s, true, rfl, h⟩
  split
  · next hc => exact h.takeInput hs fun hf => absurd hc (by simp [hf])
  split
  · exact ⟨s, true, rfl, h⟩
  next hnot =>
  obtain ⟨m, hit, hm, ha, he, hmiss⟩ := h.accounted.checkAndUpdateCache r f.identifier
  have h' := h.evict ha he
  rw [hm]
  simp only [Except.bind, bind]
  cases hit with
  | true => exact ⟨_, true, rfl, h'⟩
  | false =>
    simp only [Bool.false_eq_true, if_false]
    exact h'.takeInput hs fun _ => ⟨hnot, hmiss rfl⟩

/-- The loop over the inputs. -/
lemma TrySchedule.Inv.tryInputs {l : List MMFeature} (h : s.Inv size cap cfg m0) (r : EncoderRequest)
    (numComputed : Nat) (remote : MMFeature → Bool) (hs : ∀ f ∈ l, f.length = size f.identifier)
    (h0 : cfg.isEncoderDecoder = true → ∀ f ∈ l, f.offset = 0) :
    ∃ s', Sched.tryInputs cfg r numComputed remote l s = .ok s' ∧ s'.Inv size cap cfg m0 := by
  induction l generalizing s with
  | nil => exact ⟨s, rfl, h⟩
  | cons f l ih =>
    obtain ⟨s1, go, hs1, h1⟩ := h.tryInput r numComputed remote
      (hs f List.mem_cons_self) fun hc => h0 hc f List.mem_cons_self
    rw [Sched.tryInputs, hs1]
    simp only [Except.bind, bind]
    cases go with
    | false => exact ⟨s1, rfl, h1⟩
    | true =>
      exact ih h1 (fun f hf => hs f (List.mem_cons_of_mem _ hf))
        fun hc f hf => h0 hc f (List.mem_cons_of_mem _ hf)

/-- Trying a request never raises. -/
lemma tryScheduleEncoderInputs_ok (ha : m0.Accounted size cap) (hs : r.Sized size)
    (numComputed numNewTokens budget : Nat) (remote : MMFeature → Bool)
    (h0 : cfg.isEncoderDecoder = true → ∀ f ∈ r.mmFeatures, f.offset = 0) :
    ∃ s, tryScheduleEncoderInputs cfg r numComputed remote numNewTokens budget m0 = .ok s ∧
      s.Inv size cap cfg m0 := by
  have hinit : TrySchedule.Inv size cap cfg m0
      { mgr := m0, numNewTokens := numNewTokens, budget := budget } :=
    ⟨ha, .refl m0, rfl, ha.nonneg, nofun, nofun, fun _ => List.nodup_nil, fun _ => nofun⟩
  unfold tryScheduleEncoderInputs
  dsimp only
  split
  · exact ⟨_, rfl, hinit⟩
  · exact hinit.tryInputs r numComputed remote hs h0

end TrySchedule

/-- What holds between two calls. -/
structure EncoderState.Inv (size : MMHash → Nat) (cap : Nat) (cfg : EncoderConfig) (s : EncoderState) : Prop where
  accounted : s.mgr.Accounted size cap
  room : (s.pending.map fun p => p.2.length).sum ≤ s.mgr.numFreeSlots
  sized : ∀ p ∈ s.pending, p.2.length = size p.2.identifier
  nodup : cfg.isEncoderDecoder = false → (s.pending.map fun p => p.2.identifier).Nodup
  fresh : cfg.isEncoderDecoder = false → ∀ p ∈ s.pending, p.2.identifier ∉ s.mgr.cached

/-- The requests a call is about are well formed: items with one hash have one size, and the inputs of an
encoder-decoder model come first. -/
def EncoderEvent.Sized (size : MMHash → Nat) (cfg : EncoderConfig) : EncoderEvent → Prop
  | .trySchedule r _ _ _ _ =>
    r.Sized size ∧ (cfg.isEncoderDecoder = true → ∀ f ∈ r.mmFeatures, f.offset = 0)
  | .free r | .freeInputs r _ => r.Sized size
  | .allocate | .getFreed => True

/-- An encoder-decoder model allocates no entry that is in the cache already. -/
def EncoderState.AllocatesNew (cfg : EncoderConfig) (s : EncoderState) : EncoderEvent → Prop
  | .allocate => cfg.isEncoderDecoder = true → ∀ p ∈ s.pending.head?, p.2.identifier ∉ s.mgr.cached
  | _ => True

namespace EncoderState
variable {s : EncoderState} {e : EncoderEvent}

/-- Releasing references leaves what is pending in place. -/
lemma Inv.release {m : EncoderCacheManager} (h : s.Inv size cap cfg) (ha : m.Accounted size cap)
    (hr : Releases s.mgr m) : Inv size cap cfg { s with mgr := m } :=
  ⟨ha, hr.room ▸ h.room, h.sized, h.nodup, fun hc p hp hm => h.fresh hc p hp ((hr.keys _).1 hm)⟩

/-- Every call keeps the accounts, does not raise, and evicts only entries nobody refers to. -/
lemma Inv.next (h : s.Inv size cap cfg) (hs : e.Sized size cfg) (hn : s.AllocatesNew cfg e) :
    (s.next cfg e).1.Inv size cap cfg ∧ (s.next cfg e).2 ≠ .raised ∧
      ∀ k ∈ (s.next cfg e).1.mgr.freed, k ∈ s.mgr.freed ∨ s.mgr.cached.get? k = some [] := by
  cases e with
  | trySchedule r numComputed numNewTokens budget remote =>
    obtain ⟨t, ht, hinv⟩ := tryScheduleEncoderInputs_ok h.accounted hs.1 numComputed numNewTokens
      budget (· ∈ remote) hs.2
    have hnext : s.next cfg (.trySchedule r numComputed numNewTokens budget remote) =
        ({ mgr := t.mgr, pending := (t.toSchedule ++ t.external).map (r, ·) }, .done) := by
      rw [EncoderState.next, ht]
      rfl
    rw [hnext]
    refine ⟨⟨hinv.accounted, ?_, fun p hp => ?_, fun hc => ?_, fun hc p hp => ?_⟩, nofun, fun k hk => ?_⟩
    · have := hinv.tokens
      have hsum : (((t.toSchedule ++ t.external).map (r, ·)).map fun p => p.2.length).sum = t.numTokens := by
        rw [List.map_map, ← hinv.tokens, ← List.sum_append, ← List.map_append]
        rfl
      have hroom := hinv.room
      rw [← hsum] at hroom
      exact hroom
    · obtain ⟨f, hf, rfl⟩ := List.mem_map.1 hp
      exact hinv.sized f hf
    · have hnd := hinv.nodup hc
      dsimp only
      rw [List.map_map]
      exact hnd
    · obtain ⟨f, hf, rfl⟩ := List.mem_map.1 hp
      exact hinv.fresh hc _ (hinv.hashes f hf)
    · obtain ⟨l, hl, hu⟩ := hinv.evicts.freed
      have hk : k ∈ t.mgr.freed := hk
      rw [hl] at hk
      exact (List.mem_append.1 hk).imp_right (hu k)
  | allocate =>
    cases hp : s.pending with
    | nil =>
      have hnext : s.next cfg .allocate = (s, .done) := by rw [EncoderState.next, hp]
      rw [hnext]
      exact ⟨h, nofun, fun k hk => .inl hk⟩
    | cons p rest =>
      obtain ⟨r, f⟩ := p
      have hmem : (r, f) ∈ s.pending := hp ▸ List.mem_cons_self
      have hroom := h.room
      rw [hp, List.map_cons, List.sum_cons] at hroom
      rw [Nat.cast_add] at hroom
      dsimp only at hroom
      have hnew : f.identifier ∉ s.mgr.cached := by
        cases hc : cfg.isEncoderDecoder with
        | false => exact h.fresh hc _ hmem
        | true =>
          have hn : cfg.isEncoderDecoder = true → ∀ p ∈ s.pending.head?, p.2.identifier ∉ s.mgr.cached := hn
          exact hn hc (r, f) (by rw [hp]; rfl)
      obtain ⟨m, hm, ha, hfree, hkeys, hfreed⟩ := h.accounted.allocate hnew (h.sized _ hmem) (by omega) r
      have hnext : s.next cfg .allocate = ({ mgr := m, pending := rest }, .done) := by
        rw [EncoderState.next, hp]
        dsimp only
        rw [hm]
        rfl
      rw [hnext]
      refine ⟨⟨ha, ?_, fun p hpm => ?_, fun hc => ?_, fun hc p hpm hin => ?_⟩, nofun, fun k hk => ?_⟩
      · dsimp only
        rw [hfree]
        omega
      · exact h.sized p (hp ▸ List.mem_cons_of_mem _ hpm)
      · have hnd := h.nodup hc
        rw [hp, List.map_cons, List.nodup_cons] at hnd
        exact hnd.2
      · have hnd := h.nodup hc
        rw [hp, List.map_cons, List.nodup_cons] at hnd
        rcases (hkeys _).1 hin with he | hin
        · exact hnd.1 (List.mem_map.2 ⟨p, hpm, he⟩)
        · exact h.fresh hc p (hp ▸ List.mem_cons_of_mem _ hpm) hin
      · have hk : k ∈ m.freed := hk
        rw [hfreed] at hk
        exact .inl hk
  | free r =>
    obtain ⟨ha, hr⟩ := h.accounted.free hs
    refine ⟨h.release ha hr, nofun, fun k hk => .inl ?_⟩
    rw [← hr.freed]
    exact hk
  | freeInputs r numComputed =>
    obtain ⟨ha, hr⟩ := h.accounted.freeEncoderInputs hs cfg numComputed
    refine ⟨h.release ha hr, nofun, fun k hk => .inl ?_⟩
    rw [← hr.freed]
    exact hk
  | getFreed => exact ⟨⟨⟨h.accounted.freeSlots, h.accounted.freeableSlots, h.accounted.sized,
      h.accounted.unreferenced, h.accounted.nonneg⟩, h.room, h.sized, h.nodup, h.fresh⟩, nofun, nofun⟩

end EncoderState

section Runs
variable {h : List EncoderEvent} {o : List EncoderOutput} {s : EncoderState}

end Runs

instance (cfg : EncoderConfig) (cap : Nat) (h : List EncoderEvent) (e : EncoderEvent) :
    Decidable ((encoderMachine cfg cap).ok h e) :=
  inferInstanceAs (Decidable True)

instance (size : MMHash → Nat) (r : EncoderRequest) : Decidable (r.Sized size) :=
  inferInstanceAs (Decidable (∀ f ∈ r.mmFeatures, f.length = size f.identifier))

instance (size : MMHash → Nat) (cfg : EncoderConfig) : (e : EncoderEvent) → Decidable (e.Sized size cfg)
  | .trySchedule r _ _ _ _ => inferInstanceAs (Decidable (r.Sized size ∧ (_ → _)))
  | .free r | .freeInputs r _ => inferInstanceAs (Decidable (r.Sized size))
  | .allocate | .getFreed => inferInstanceAs (Decidable True)

instance (cfg : EncoderConfig) (s : EncoderState) : (e : EncoderEvent) → Decidable (s.AllocatesNew cfg e)
  | .allocate => inferInstanceAs (Decidable (_ → ∀ p ∈ s.pending.head?, p.2.identifier ∉ s.mgr.cached))
  | .trySchedule _ _ _ _ _ | .free _ | .freeInputs _ _ | .getFreed => inferInstanceAs (Decidable True)

/-- Two tokens for the item `a`, four for the others. -/
def itemSize (h : MMHash) : Nat := if h = ['a'] then 2 else 4

/-- A request with one item at its beginning. -/
def withItem (rid : ReqId) (h : MMHash) : EncoderRequest :=
  { requestId := rid, mmFeatures := [{ identifier := h, offset := 0, length := itemSize h }] }

/-- Two requests share an item, one of them is preempted, and a third one evicts it in the end. -/
def shareItem : List EncoderEvent :=
  [.trySchedule (withItem ['x'] ['a']) 0 3 9 [], .allocate, .trySchedule (withItem ['y'] ['a']) 0 3 9 [],
    .free (withItem ['y'] ['a']), .getFreed, .freeInputs (withItem ['x'] ['a']) 3,
    .trySchedule (withItem ['z'] ['b']) 0 5 9 [], .allocate, .getFreed]

/-- An encoder-decoder model gets the item of an earlier request again, and then another one. -/
def repeatItem : List EncoderEvent :=
  [.trySchedule (withItem ['x'] ['a']) 0 1 9 [], .allocate, .freeInputs (withItem ['x'] ['a']) 1, .getFreed,
    .trySchedule (withItem ['y'] ['a']) 0 1 9 [], .allocate]

/-- The rest of the run: the item is released, and a larger one asks for room. -/
def askForRoom : List EncoderEvent :=
  [.freeInputs (withItem ['y'] ['a']) 1, .getFreed, .trySchedule (withItem ['z'] ['b']) 0 1 9 []]

end Gambit.Sched
