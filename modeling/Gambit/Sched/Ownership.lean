import Gambit.Sched.Terminal

/-!
# Who holds memory, and who has left

Only stored requests hold KV blocks or encoder cache entries. The cache managers are a parameter, so
what the scheduler relies on is stated as `Caches.Laws`: an operation gives memory to the request it
is called for and to nobody else, and the two `free` operations take everything from it. `Owned` says
that the holders are stored, and every operation of the scheduler keeps it.

`Departs` says that a request leaves `requests` only by being freed, with a finished status.
-/

namespace Gambit.Sched
open Gambit.Lib

/-- What the scheduler relies on from the KV cache manager and the encoder cache manager, where
`blocks m x` says that the request `x` holds KV blocks and `entries m x` that it holds an encoder
cache entry. -/
structure Caches.Laws {μ β : Type} (ops : Caches μ β) (blocks entries : μ → ReqId → Prop) : Prop where
  /-- The last token is always computed again. -/
  computed : ∀ m r, (ops.getComputedBlocks m r).2 ≤ r.numTokens - 1
  /-- Encoder inputs lower the number of new tokens, to nothing at the least. -/
  encoder : ∀ m r computed n budget, 0 ≤ n →
    0 ≤ (ops.tryScheduleEncoderInputs m r computed n budget).2.2.1 ∧
      (ops.tryScheduleEncoderInputs m r computed n budget).2.2.1 ≤ n
  allocateSlots : ∀ m r n cached b look enc x,
    (blocks (ops.allocateSlots m r n cached b look enc).1 x → blocks m x ∨ x = r.requestId) ∧
      (entries (ops.allocateSlots m r n cached b look enc).1 x → entries m x)
  tryScheduleEncoderInputs : ∀ m r computed n budget x,
    (blocks (ops.tryScheduleEncoderInputs m r computed n budget).1 x → blocks m x) ∧
      (entries (ops.tryScheduleEncoderInputs m r computed n budget).1 x →
        entries m x ∨ x = r.requestId)
  allocateEncoder : ∀ m r i x, (blocks (ops.allocateEncoder m r i) x → blocks m x) ∧
    (entries (ops.allocateEncoder m r i) x → entries m x ∨ x = r.requestId)
  freeBlocks : ∀ m r x, (blocks (ops.freeBlocks m r) x → blocks m x ∧ x ≠ r.requestId) ∧
    (entries (ops.freeBlocks m r) x → entries m x)
  freeEncoder : ∀ m r x, (blocks (ops.freeEncoder m r) x → blocks m x) ∧
    (entries (ops.freeEncoder m r) x → entries m x ∧ x ≠ r.requestId)
  freeEncoderInputs : ∀ m r x, (blocks (ops.freeEncoderInputs m r) x → blocks m x) ∧
    (entries (ops.freeEncoderInputs m r) x → entries m x)

variable {μ β : Type} {ops : Caches μ β} {cfg : VllmConfig} {blocks entries : μ → ReqId → Prop}

namespace Scheduler
variable {s s' : Scheduler μ} {rid x : ReqId} {r : Request}

/-- Whoever holds memory is stored. -/
def Owned (blocks entries : μ → ReqId → Prop) (s : Scheduler μ) : Prop :=
  ∀ x, blocks s.caches x ∨ entries s.caches x → x ∈ s.requests

/-- Memory goes to a stored request, or to nobody. -/
lemma Owned.grow (h : s.Owned blocks entries) (hr : s.requests.get? r.requestId = some r)
    (hreq : ∀ x, x ∈ s.requests → x ∈ s'.requests)
    (hb : ∀ x, blocks s'.caches x → blocks s.caches x ∨ x = r.requestId)
    (he : ∀ x, entries s'.caches x → entries s.caches x ∨ x = r.requestId) :
    s'.Owned blocks entries := by
  have hm : r.requestId ∈ s.requests := Dict.mem_of_get? hr
  rintro x (hx | hx)
  · rcases hb x hx with hx | rfl
    · exact hreq x (h x (.inl hx))
    · exact hreq _ hm
  · rcases he x hx with hx | rfl
    · exact hreq x (h x (.inr hx))
    · exact hreq _ hm

/-- The same memory, and no stored request less. -/
lemma Owned.same (h : s.Owned blocks entries) (hc : s'.caches = s.caches)
    (hreq : ∀ x, x ∈ s.requests → x ∈ s'.requests) : s'.Owned blocks entries := by
  intro x hx
  rw [hc] at hx
  exact hreq x (h x hx)

/-- A freed request holds nothing. -/
lemma Owned.freeRequest (laws : ops.Laws blocks entries) (h : s.Owned blocks entries) (r : Request) :
    (s.freeRequest ops r).Owned blocks entries := by
  have key : ∀ x, blocks (ops.freeBlocks (ops.freeEncoder s.caches r) r) x ∨
      entries (ops.freeBlocks (ops.freeEncoder s.caches r) r) x →
      x ≠ r.requestId ∧ x ∈ s.requests := by
    rintro x (hx | hx)
    · obtain ⟨hx, hne⟩ := (laws.freeBlocks _ r x).1 hx
      exact ⟨hne, h x (.inl ((laws.freeEncoder _ r x).1 hx))⟩
    · obtain ⟨hx, hne⟩ := (laws.freeEncoder _ r x).2 ((laws.freeBlocks _ r x).2 hx)
      exact ⟨hne, h x (.inr hx)⟩
  intro x hx
  exact Dict.mem_erase.2 (key x hx)

end Scheduler

namespace Pass
variable {p p' : Pass μ β} {rid : ReqId} {r : Request}

/-- Recording encoder inputs gives entries to their request only. -/
lemma Owned.scheduleEncoder (laws : ops.Laws blocks entries) (h : p.sched.Owned blocks entries)
    (hr : r.requestId ∈ p.sched.requests) (inputs : List Nat) (budget : Int) :
    (p.scheduleEncoder ops r inputs budget).sched.Owned blocks entries := by
  have fold : ∀ (l : List Nat) (m : μ), (∀ x, blocks m x ∨ entries m x → x ∈ p.sched.requests) →
      ∀ x, blocks (l.foldl (fun m i => ops.allocateEncoder m r i) m) x ∨
        entries (l.foldl (fun m i => ops.allocateEncoder m r i) m) x → x ∈ p.sched.requests := by
    intro l
    induction l with
    | nil => exact fun m hm => hm
    | cons i l ih =>
      intro m hm
      refine ih _ ?_
      rintro x (hx | hx)
      · exact hm x (.inl ((laws.allocateEncoder m r i x).1 hx))
      · rcases (laws.allocateEncoder m r i x).2 hx with hx | rfl
        · exact hm x (.inr hx)
        · exact hr
  unfold Pass.scheduleEncoder
  split
  · exact h
  · exact fold inputs p.sched.caches h

/-- Making room keeps memory with stored requests. -/
lemma Room.owned (laws : ops.Laws blocks entries) (hroom : Room ops cfg p p')
    (hid : ∀ x r, p.sched.requests.get? x = some r → r.requestId = x)
    (h : p.sched.Owned blocks entries) : p'.sched.Owned blocks entries := by
  cases hroom with
  | @refuse rid r numNew hr =>
    have hr' : p.sched.requests.get? r.requestId = some r := by
      rw [hid rid r hr]
      exact hr
    exact h.grow hr' (fun _ hx => hx) (fun x => (laws.allocateSlots ..).1)
      fun x hx => .inl ((laws.allocateSlots ..).2 hx)
  | @evict victim r _ hl hr =>
    unfold Scheduler.stopLowestRunning
    rw [hl]
    dsimp only
    rw [hr]
    refine Scheduler.Owned.freeRequest laws (fun x hx => ?_) _
    exact h x hx
  | @preempt q victim run r _ _ hr _ hq =>
    have hsched : q.sched = p.sched := by
      rcases hq with ⟨rfl, -⟩ | ⟨rfl, -⟩ <;> rfl
    have hr' : q.sched.requests.get? victim = some r := by
      rw [hsched]
      exact hr
    unfold Pass.preempt Scheduler.preempt
    dsimp only
    rw [hr']
    intro x hx
    refine Dict.mem_set.2 (.inr ?_)
    dsimp only at hx ⊢
    rw [hsched] at hx ⊢
    rcases hx with hx | hx
    · exact h x (.inl ((laws.freeBlocks _ r x).1 ((laws.freeEncoder _ r x).1 hx)).1)
    · exact h x (.inr ((laws.freeBlocks _ r x).2 ((laws.freeEncoder _ r x).2 hx).1))

/-- Every request is stored under its own id. -/
def Keyed (s : Scheduler μ) : Prop := ∀ x r, s.requests.get? x = some r → r.requestId = x

/-- Scheduling keeps the ids. -/
lemma Keyed.leaves {s s' : Scheduler μ} (h : Keyed s) (hl : s.Leaves s') : Keyed s' := by
  induction hl with
  | refl => exact h
  | tail _ hs ih =>
    intro x r' hr'
    cases hs with
    | quiet _ _ hreq =>
      have hx := hreq x
      rw [hr'] at hx
      generalize ho : Dict.get? _ x = o at hx
      cases hx with
      | some ht => exact ht.requestId.trans (ih x _ ho)
    | evict _ _ _ _ hreq =>
      rw [hreq, Dict.get?_erase] at hr'
      split at hr'
      · cases hr'
      · exact ih x r' hr'

/-- Making room repeatedly keeps memory with stored requests. -/
lemma Room.owned_of_rooms (laws : ops.Laws blocks entries)
    (h : Relation.ReflTransGen (Room ops cfg) p p') (hid : Keyed p.sched)
    (ho : p.sched.Owned blocks entries) : Keyed p'.sched ∧ p'.sched.Owned blocks entries := by
  induction h with
  | refl => exact ⟨hid, ho⟩
  | tail _ hs ih => exact ⟨ih.1.leaves hs.leaves, hs.owned laws ih.1 ih.2⟩

/-- Every change of a pass keeps memory with stored requests. -/
lemma Step.owned (laws : ops.Laws blocks entries) (h : Step ops cfg p p') (hid : Keyed p.sched)
    (ho : p.sched.Owned blocks entries) : p'.sched.Owned blocks entries := by
  have hkey : ∀ {q : Pass μ β} {rid r}, Keyed q.sched → q.sched.requests.get? rid = some r →
      q.sched.requests.get? r.requestId = some r := by
    intro q rid r hq hr
    rw [hq rid r hr]
    exact hr
  cases h with
  | encoder hr =>
    exact ho.grow (hkey hid hr) (fun _ hx => hx)
      (fun x hx => .inl ((laws.tryScheduleEncoderInputs ..).1 hx))
      fun x => (laws.tryScheduleEncoderInputs ..).2
  | room hroom => exact hroom.owned laws hid ho
  | @run q m rid r numNew b inputs budget _ _ _ hrooms _ hr _ hal =>
    obtain ⟨hid', ho'⟩ := Room.owned_of_rooms laws hrooms hid ho
    have hm : m = (ops.allocateSlots q.sched.caches r numNew 0 none
        cfg.scheduler.numLookaheadTokens 0).1 := by rw [hal]
    have hspec : (((q.setCaches m).scheduleRunning rid numNew b).scheduleSpec rid r numNew).sched.caches =
          m ∧
        ∀ x, x ∈ q.sched.requests →
          x ∈ (((q.setCaches m).scheduleRunning rid numNew b).scheduleSpec rid r numNew).sched.requests := by
      unfold Pass.scheduleSpec
      dsimp only
      split_ifs
      · exact ⟨rfl, fun _ hx => hx⟩
      · exact ⟨rfl, fun _ hx => Dict.mem_modify.2 hx⟩
      · exact ⟨rfl, fun _ hx => Dict.mem_modify.2 hx⟩
    refine Owned.scheduleEncoder laws ?_ (hspec.2 _ (Dict.mem_of_get? (hkey hid' hr))) inputs budget
    refine ho'.grow (hkey hid' hr) hspec.2 (fun x hx => ?_) fun x hx => ?_
    · rw [hspec.1, hm] at hx
      exact (laws.allocateSlots ..).1 hx
    · rw [hspec.1, hm] at hx
      exact .inl ((laws.allocateSlots ..).2 hx)
  | ready hr _ => exact ho.same rfl fun x hx => Dict.mem_set.2 (.inr hx)
  | refuse hr =>
    exact ho.grow (hkey hid hr) (fun _ hx => hx) (fun x => (laws.allocateSlots ..).1)
      fun x hx => .inl ((laws.allocateSlots ..).2 hx)
  | @admitted m₀ m rid r numNew cached b computed lookahead encoderTokens b' inputs budget hr _ _ _ _ _ _ _
      _ _ hal =>
    have hm : m = (ops.allocateSlots p.sched.caches r numNew cached b lookahead encoderTokens).1 := by
      rw [hal]
    have hreq : ∀ x, x ∈ p.sched.requests →
        x ∈ ((p.setCaches m).admitRequest ops rid r computed numNew).sched.requests :=
      fun x hx => Dict.mem_set.2 (.inr hx)
    refine Owned.scheduleEncoder laws ?_ (hreq _ (Dict.mem_of_get? (hkey hid hr))) inputs budget
    refine ho.grow (hkey hid hr) hreq (fun x hx => ?_) fun x hx => ?_
    · rw [hm] at hx
      exact (laws.allocateSlots ..).1 hx
    · rw [hm] at hx
      exact .inl ((laws.allocateSlots ..).2 hx)

end Pass

namespace Scheduler
variable {s s' : Scheduler μ} {rid x : ReqId} {r : Request}

/-- `schedule` keeps memory with stored requests. -/
lemma WF.schedule_owned (laws : ops.Laws blocks entries) (cfg : VllmConfig) (ready : ReqId → Bool)
    (h : s.WF) (ho : s.Owned blocks entries) : (s.schedule ops cfg ready).1.Owned blocks entries := by
  obtain ⟨p, queue, hsteps, -, hpass⟩ := h.schedulePass_steps ops cfg ready
  have hstart : Pass.Keyed (s.startPass (β := β) cfg).sched ∧
      (s.startPass (β := β) cfg).sched.Owned blocks entries := by
    unfold Scheduler.startPass
    dsimp only
    split
    · exact ⟨h.requestId, ho⟩
    · exact ⟨h.requestId, ho⟩
  have hp : Pass.Keyed p.sched ∧ p.sched.Owned blocks entries :=
    hsteps.keep (P := fun q => Pass.Keyed q.sched ∧ q.sched.Owned blocks entries)
      (fun hs hq => ⟨hq.1.leaves hs.leaves, hs.owned laws hq.1 hq.2⟩) hstart
  have hadv : ∀ (l : List (ReqId × Int)) (t : Scheduler μ), t.Owned blocks entries →
      (l.foldl (Scheduler.advance ops) t).Owned blocks entries := by
    intro l
    induction l with
    | nil => exact fun t ht => ht
    | cons e l ih =>
      intro t ht
      refine ih _ ?_
      unfold Scheduler.advance
      split
      · exact ht
      · next r hr =>
        dsimp only
        intro x hx
        refine Dict.mem_set.2 (.inr ?_)
        dsimp only at hx
        split at hx
        · refine ht x (hx.imp (laws.freeEncoderInputs ..).1 (laws.freeEncoderInputs ..).2)
        · exact ht x hx
  unfold Scheduler.schedule updateAfterSchedule
  rw [hpass]
  dsimp only
  have hq : ({ p.sched with waiting := queue } : Scheduler μ).Owned blocks entries := hp.2
  generalize ({ p.sched with waiting := queue } : Scheduler μ) = t at hq ⊢
  exact hadv p.numScheduledTokens.entries t hq

/-- `update_from_output` keeps memory with stored requests. -/
lemma Owned.updateFromOutput (laws : ops.Laws blocks entries) (cfg : VllmConfig)
    (so : SchedulerOutput β) (mo : ModelRunnerOutput) (finals : Dict ReqId (Option ℚ))
    (histories : Option (Dict ReqId (List ℚ))) (ho : s.Owned blocks entries) :
    (s.updateFromOutput ops cfg so mo finals histories).1.Owned blocks entries := by
  have hstep : ∀ (p : UpdatePass μ) (rid : ReqId), p.sched.Owned blocks entries →
      (updateRequest ops cfg so mo finals histories p rid).sched.Owned blocks entries := by
    intro p rid hp
    unfold updateRequest
    split
    · exact hp
    · next r hr =>
      dsimp only
      have hset : ∀ r' : Request, ({ p.sched with requests := p.sched.requests.set rid r' } :
          Scheduler μ).Owned blocks entries :=
        fun r' => hp.same rfl fun x hx => Dict.mem_set.2 (.inr hx)
      generalize (rejectDrafts so r (mo.getD rid [])).updateRequestWithOutput
        cfg.scheduler.maxModelLen (mo.getD rid []) = a
      obtain ⟨r', ts, stopped⟩ := a
      cases stopped with
      | false => exact hset r'
      | true =>
        simp only [if_true]
        split
        · exact (hset r').freeRequest laws r'
        · exact (hset r').freeRequest laws r'
  have hfold : ∀ (l : List ReqId) (p : UpdatePass μ), p.sched.Owned blocks entries →
      (l.foldl (updateRequest ops cfg so mo finals histories) p).sched.Owned blocks entries := by
    intro l
    induction l with
    | nil => exact fun p hp => hp
    | cons y l ih => exact fun p hp => ih _ (hstep p y hp)
  exact hfold so.numScheduledTokens.keys { sched := s } ho

/-- `finish_requests` keeps memory with stored requests. -/
lemma Owned.finishRequests (laws : ops.Laws blocks entries) (rids : List ReqId)
    (status : RequestStatus) (ho : s.Owned blocks entries) :
    (s.finishRequests ops rids status).Owned blocks entries := by
  have hfold : ∀ (l : List ReqId) (t : Scheduler μ), t.Owned blocks entries →
      (l.foldl (finishRequest ops status) t).Owned blocks entries := by
    intro l
    induction l with
    | nil => exact fun t ht => ht
    | cons y l ih =>
      intro t ht
      refine ih _ ?_
      unfold finishRequest
      split
      · exact ht
      · exact ht.freeRequest laws _
  unfold Scheduler.finishRequests
  exact hfold _ _ ho

/-- Whoever is no longer stored was freed with a finished status. -/
structure Departs (s s' : Scheduler μ) : Prop where
  keep : ∀ d ∈ s.departed, d ∈ s'.departed
  finished : ∀ d ∈ s'.departed, d ∈ s.departed ∨ d.status.isFinished
  left : ∀ x ∈ s.requests, x ∈ s'.requests ∨ ∃ d ∈ s'.departed, d.requestId = x

/-- Nobody leaves. -/
lemma Departs.of_eq (hd : s'.departed = s.departed) (hr : ∀ x ∈ s.requests, x ∈ s'.requests) :
    s.Departs s' := by
  refine ⟨fun d hm => ?_, fun d hm => ?_, fun x hx => .inl (hr x hx)⟩
  · rw [hd]
    exact hm
  · rw [hd] at hm
    exact .inl hm

lemma Departs.trans {s'' : Scheduler μ} (h : s.Departs s') (h' : s'.Departs s'') : s.Departs s'' where
  keep d hm := h'.keep d (h.keep d hm)
  finished d hm := by
    rcases h'.finished d hm with hm | hf
    · exact h.finished d hm
    · exact .inr hf
  left x hx := by
    rcases h.left x hx with hx | ⟨d, hd, he⟩
    · exact h'.left x hx
    · exact .inr ⟨d, h'.keep d hd, he⟩

/-- One request is freed with a finished status. -/
lemma Departs.freeRequest (ops : Caches μ β) (s : Scheduler μ) (hf : r.status.isFinished) :
    s.Departs (s.freeRequest ops r) where
  keep d hm := List.mem_append_left _ hm
  finished d hm := by
    rcases List.mem_append.1 hm with hm | hm
    · exact .inl hm
    · rw [List.mem_singleton.1 hm]
      exact .inr hf
  left x hx := by
    by_cases he : x = r.requestId
    · exact .inr ⟨r, List.mem_append_right _ (List.mem_singleton_self r), he.symm⟩
    · exact .inl (Dict.mem_erase.2 ⟨he, hx⟩)

/-- Scheduling frees requests with a finished status. -/
lemma Leaves.departs (h : s.Leaves s') : s.Departs s' := by
  induction h with
  | refl => exact .of_eq rfl fun _ hx => hx
  | @tail t t' _ hs ih =>
    refine ih.trans ?_
    cases hs with
    | quiet hd _ hr =>
      refine .of_eq hd fun x hx => ?_
      obtain ⟨rx, hrx⟩ := Dict.mem_iff_get?.1 hx
      have hrel := hr x
      rw [hrx] at hrel
      generalize ho : t'.requests.get? x = o at hrel
      cases hrel
      exact Dict.mem_of_get? ho
    | @evict r d o _ ht hf hd hq =>
      refine ⟨fun d' hm => ?_, fun d' hm => ?_, fun x hx => ?_⟩
      · rw [hd]
        exact List.mem_append_left _ hm
      · rw [hd] at hm
        rcases List.mem_append.1 hm with hm | hm
        · exact .inl hm
        · rw [List.mem_singleton.1 hm]
          exact .inr hf
      · rw [hd, hq, Dict.mem_erase]
        by_cases he : x = r.requestId
        · exact .inr ⟨d, by simp, ht.requestId.trans he.symm⟩
        · exact .inl ⟨he, hx⟩

/-- `update_from_output` frees requests with a finished status. -/
lemma Departs.updateFromOutput (ops : Caches μ β) (cfg : VllmConfig) (so : SchedulerOutput β)
    (mo : ModelRunnerOutput) (finals : Dict ReqId (Option ℚ))
    (histories : Option (Dict ReqId (List ℚ))) (s : Scheduler μ) :
    s.Departs (s.updateFromOutput ops cfg so mo finals histories).1 := by
  have hstep : ∀ (p : UpdatePass μ) (rid : ReqId),
      p.sched.Departs (updateRequest ops cfg so mo finals histories p rid).sched := by
    intro p rid
    unfold updateRequest
    split
    · exact .of_eq rfl fun _ hx => hx
    · next r hr =>
      dsimp only
      have hset : ∀ r' : Request,
          p.sched.Departs { p.sched with requests := p.sched.requests.set rid r' } :=
        fun r' => .of_eq rfl fun x hx => Dict.mem_set.2 (.inr hx)
      have hfin : ((rejectDrafts so r (mo.getD rid [])).updateRequestWithOutput
          cfg.scheduler.maxModelLen (mo.getD rid [])).2.2 = true → _ :=
        Request.updateRequestWithOutput_of_stopped
      generalize (rejectDrafts so r (mo.getD rid [])).updateRequestWithOutput
        cfg.scheduler.maxModelLen (mo.getD rid []) = a at hfin
      obtain ⟨r', ts, stopped⟩ := a
      cases stopped with
      | false => exact hset r'
      | true =>
        simp only [if_true]
        split
        · exact (hset r').trans (.freeRequest ops _ (hfin rfl).2.2)
        · exact (hset r').trans (.freeRequest ops _ (hfin rfl).2.2)
  have hfold : ∀ (l : List ReqId) (p : UpdatePass μ),
      p.sched.Departs (l.foldl (updateRequest ops cfg so mo finals histories) p).sched := by
    intro l
    induction l with
    | nil => exact fun p => .of_eq rfl fun _ hx => hx
    | cons y l ih => exact fun p => (hstep p y).trans (ih _)
  unfold Scheduler.updateFromOutput
  dsimp only
  exact (hfold so.numScheduledTokens.keys { sched := s }).trans (.of_eq rfl fun _ hx => hx)

/-- `finish_requests` frees requests with the status it is given. -/
lemma Departs.finishRequests (ops : Caches μ β) (rids : List ReqId) {status : RequestStatus}
    (hf : status.isFinished) (s : Scheduler μ) : s.Departs (s.finishRequests ops rids status) := by
  have hfold : ∀ (l : List ReqId) (t : Scheduler μ),
      t.Departs (l.foldl (finishRequest ops status) t) := by
    intro l
    induction l with
    | nil => exact fun t => .of_eq rfl fun _ hx => hx
    | cons y l ih =>
      intro t
      refine Departs.trans ?_ (ih _)
      unfold finishRequest
      split
      · exact .of_eq rfl fun _ hx => hx
      · exact .freeRequest ops t hf
  unfold Scheduler.finishRequests
  refine Departs.trans ?_ (hfold _ _)
  exact .of_eq rfl fun _ hx => hx

end Scheduler
end Gambit.Sched
