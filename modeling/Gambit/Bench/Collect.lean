import Gambit.Bench.Entries
import Mathlib.Data.List.Nodup

/-!
# Collecting the fields of the generations

Escaping protects the reader: no text of a question or a model can be taken for a field. The chunks do not:
a field that starts more than 64 KiB before the end of a buffer and does not end in it is lost, since `keep`
is meant to be at least the length of the longest match and the writer puts no bound on answers.

`collect_eq_iff` states that the lists are the ones that were written exactly if no field `Straddles` the end
of a chunk.
-/

namespace Gambit.Bench
open Gambit.Lib Utf8

variable {C : Charset} {A : List FieldPattern} {e : Encoding} {p : FieldPattern}

/-- Is an entry one of some alternative? -/
def acceptsEntry (A : List FieldPattern) (x : Text × Json) : Bool :=
  A.any fun p => decide (x.1 = p.name) && p.kind.accepts x.2

/-- A pattern accepts no object. -/
lemma not_accepts_dict {k : Kind} {v : Json} (h : k.accepts v) : isDict v = false := by
  cases v with
  | dict es => cases k <;> cases h
  | _ => rfl

/-- The patterns for fields are apt for a result if they tell its fields by their kinds. -/
lemma apt_result {q : QuestionResult} (hd : ∀ p ∈ A, ∀ p' ∈ A, p.name = p'.name → p = p')
    (hn : ∀ p ∈ A, p.name ∈ fieldNames)
    (ht : ∀ x ∈ picks q.json, ∀ p ∈ A, x.1 = p.name → p.kind.accepts x.2 ∨ p.kind.rejects x.2) : Apt A q.json where
  plain := plain_result q
  distinct := hd
  typed x hx p hp hkey := by
    cases hdict : isDict x.2 with
    | true =>
      right
      obtain ⟨k, v⟩ := x
      cases v with
      | dict es => cases p.kind <;> rfl
      | _ => cases hdict
    | false =>
      refine ht x (List.mem_filter.2 ⟨hx, ?_⟩) p hp hkey
      rw [isPick, decide_eq_true (hkey ▸ hn p hp), hdict]
      rfl

/-- The entries that are read are the fields that the patterns accept. -/
lemma hits_pairs {j : Json} (hn : ∀ p ∈ A, p.name ∈ fieldNames) :
    (j.hits A e).map (fun f => (f.key, f.value)) = (picks j).filter (acceptsEntry A) := by
  have hfilter : (j.hits A e).map (fun f => (f.key, f.value)) = j.entries.filter (acceptsEntry A) := by
    rw [← Json.fields_entries (e := e) 0 0 [] j, List.filter_map]
    refine congrArg _ (List.filter_congr fun f _ => ?_)
    have hfits : ∀ p : FieldPattern, decide (p.Fits f) = (decide (f.key = p.name) && p.kind.accepts f.value) := fun p => by
      rw [Bool.eq_iff_iff, Bool.and_eq_true, decide_eq_true_eq, decide_eq_true_eq]
      exact Iff.rfl
    show (A.any fun p => decide (p.Fits f)) = acceptsEntry A (f.key, f.value)
    simp only [hfits]
    rfl
  rw [hfilter, picks, List.filter_filter]
  refine List.filter_congr fun x _ => ?_
  cases h : acceptsEntry A x with
  | false => rfl
  | true =>
    obtain ⟨p, hp, hacc⟩ := List.any_eq_true.1 h
    rw [Bool.and_eq_true, decide_eq_true_eq] at hacc
    rw [isPick, decide_eq_true (hacc.1 ▸ hn p hp), not_accepts_dict hacc.2]
    rfl

/-- Filtering out nothing else than what the other function drops, in lists of the same length. -/
lemma eq_of_filterMap_eq {α β : Type} {a b : α → Option β} {l : List α} (h : ∀ x ∈ l, b x = none → a x = none)
    (he : l.filterMap a = l.filterMap b) : ∀ x ∈ l, a x = b x := by
  have hle : ∀ l : List α, (∀ x ∈ l, b x = none → a x = none) → (l.filterMap a).length ≤ (l.filterMap b).length := by
    intro l
    induction l with
    | nil => exact fun _ => le_rfl
    | cons x l ih =>
      intro h
      have ih' := ih fun y hy => h y (.tail _ hy)
      cases hb : b x with
      | none =>
        rw [List.filterMap_cons_none hb, List.filterMap_cons_none (h x (.head _) hb)]
        exact ih'
      | some y =>
        rw [List.filterMap_cons_some hb]
        cases ha : a x with
        | none =>
          rw [List.filterMap_cons_none ha]
          exact ih'.trans (Nat.le_succ _)
        | some z =>
          rw [List.filterMap_cons_some ha]
          exact Nat.succ_le_succ ih'
  induction l with
  | nil => exact fun x hx => nomatch hx
  | cons x l ih =>
    have htail : ∀ y ∈ l, b y = none → a y = none := fun y hy => h y (.tail _ hy)
    have hhere : a x = b x ∧ l.filterMap a = l.filterMap b := by
      cases hb : b x with
      | none =>
        have ha := h x (.head _) hb
        rw [List.filterMap_cons_none hb, List.filterMap_cons_none ha] at he
        exact ⟨ha, he⟩
      | some y =>
        rw [List.filterMap_cons_some hb] at he
        cases ha : a x with
        | none =>
          rw [List.filterMap_cons_none ha] at he
          have hlen := hle l htail
          rw [he, List.length_cons] at hlen
          omega
        | some z =>
          rw [List.filterMap_cons_some ha] at he
          obtain ⟨rfl, htl⟩ := List.cons.inj he
          exact ⟨rfl, htl⟩
    intro y hy
    obtain rfl | hy := List.mem_cons.1 hy
    · exact hhere.1
    · exact ih htail hhere.2 y hy

/-- An entry that does not end in the window is not found, or has lost digits. -/
lemma found_cut {f : Field} {j : Json} (hj : Apt A j) (hp : p ∈ A) (hfit : p.Fits f) {b : Nat} (hb : b < f.stop e) :
    f.found A e b = none ∨ p.kind = .digits ∧ ∃ k, k ≠ 0 ∧ k < (e.encode (f.value.dump f.level)).length ∧
      f.found A e b = some (p, (e.encode (f.value.dump f.level)).take k) := by
  have hstop : f.stop e = f.start + (p.quoted.length + 2 + (e.encode (f.value.dump f.level)).length) := by
    rw [Field.stop, hfit.text, List.length_append, List.length_cons, List.length_cons]
    omega
  rw [Field.found, find?_fits hj hp hfit, Option.bind_some]
  simp only [if_neg (Nat.not_le.2 hb)]
  split_ifs with h
  · exact .inr ⟨h.1, _, by omega, by omega, rfl⟩
  · exact .inl rfl

/-- An entry that ends in the window is found. -/
lemma found_whole {f : Field} {j : Json} (hj : Apt A j) (hp : p ∈ A) (hfit : p.Fits f) {b : Nat} (hb : f.stop e ≤ b) :
    f.found A e b = some (p, e.encode (f.value.dump f.level)) := by
  rw [Field.found, find?_fits hj hp hfit, Option.bind_some]
  exact if_pos hb

/-- The value of an accepted number, and of a number that has lost digits. -/
lemma int_found {v : Json} (h : Kind.digits.accepts v) (level : Nat) :
    ∃ n : Nat, v = .int n ∧ C.int (e.encode (v.dump level)) = n ∧
      ∀ k, k ≠ 0 → k < (e.encode (v.dump level)).length → C.int ((e.encode (v.dump level)).take k) ≠ n := by
  cases v with
  | int n =>
    cases n with
    | ofNat n =>
      have henc : e.encode ((Json.int (.ofNat n)).dump level) = points (Nat.toDigits 10 n) :=
        e.encode_ascii fun c hc => by have := toDigits_ascii hc; omega
      rw [henc]
      exact ⟨n, rfl, int_toDigits n, fun k hk hlt => int_take_ne hlt hk⟩
    | negSucc n => cases h
  | _ => cases h

/-- The flag that a match adds. -/
def readFlag (x : FieldPattern × List Nat) : Option Bool :=
  if x.1.kind = .boolean then some (decide (x.2 = points "true".toList)) else none

/-- The length that a match adds. -/
def readLength (x : FieldPattern × List Nat) : Option Nat :=
  if x.1.kind = .digits then some (Charset.ascii.int x.2) else none

/-- The answer that a match adds. -/
def readAnswer (x : FieldPattern × List Nat) : Option (Option (List Nat)) :=
  if x.1.kind = .boolean ∨ x.1.kind = .digits then none else some (loadAnswer x.2)

/-- The lists after some matches. -/
def Collected.extend (c : Collected) (xs : List (FieldPattern × List Nat)) : Collected :=
  ⟨c.flags ++ xs.filterMap readFlag, c.tokenLengths ++ xs.filterMap readLength,
    c.extractedAnswers ++ xs.filterMap readAnswer⟩

/-- Adding matches one by one. -/
lemma foldl_add (ms : List (Nat × Match)) (c : Collected) :
    ms.foldl (fun c m => c.add m.2) c = c.extend (ms.map fun m => (m.2.field, m.2.group)) := by
  induction ms generalizing c with
  | nil => simp only [List.foldl_nil, Collected.extend, List.map_nil, List.filterMap_nil, List.append_nil]
  | cons m ms ih =>
    rw [List.foldl_cons, ih]
    simp only [Collected.extend, Collected.add, List.map_cons, List.filterMap_cons, readFlag, readLength, readAnswer]
    cases h : m.2.field.kind <;>
      simp only [reduceCtorEq, if_true, if_false, or_true, or_false, List.append_assoc, List.singleton_append]

/-- More matches. -/
lemma Collected.extend_append (c : Collected) (xs ys : List (FieldPattern × List Nat)) :
    c.extend (xs ++ ys) = (c.extend xs).extend ys := by
  simp only [Collected.extend, List.filterMap_append, List.append_assoc]

/-- Where the buffer ends in which a match that starts at a position is read. -/
def windowEnd (size start : Nat) : Nat := min size (((start + keep) / chunkSize + 1) * chunkSize)

variable {q : QuestionResult}

/-- An entry of a generation is accepted by the alternative with its name. -/
lemma generation_accepts (g : Generation) :
    ∀ x ∈ g.fields, (∀ p ∈ traceFields, x.1 = p.name → p.kind.accepts x.2) ∧ acceptsEntry traceFields x := by
  have hother : ∀ {p : FieldPattern} {v : Json} (k : Text), k ≠ p.name → (k = p.name → p.kind.accepts v) :=
    fun _ h h' => absurd h' h
  unfold Generation.fields
  refine List.forall_mem_cons.2 ⟨⟨?_, rfl⟩, List.forall_mem_cons.2 ⟨?_, List.forall_mem_cons.2 ⟨⟨?_, rfl⟩, nofun⟩⟩⟩
  · exact List.forall_mem_cons.2 ⟨hother "token_length".toList (by decide), List.forall_mem_cons.2 ⟨fun _ => rfl,
      List.forall_mem_cons.2 ⟨hother "token_length".toList (by decide), nofun⟩⟩⟩
  · have hacc : extractedAnswerField.kind.accepts (.ofOption .str g.extractedAnswer) := by
      cases g.extractedAnswer <;> rfl
    constructor
    · exact List.forall_mem_cons.2 ⟨hother "extracted_answer".toList (by decide),
        List.forall_mem_cons.2 ⟨hother "extracted_answer".toList (by decide),
          List.forall_mem_cons.2 ⟨fun _ => hacc, nofun⟩⟩⟩
    · cases g.extractedAnswer <;> rfl
  · exact List.forall_mem_cons.2 ⟨fun _ => rfl, List.forall_mem_cons.2 ⟨hother "is_trace_correct".toList (by decide),
      List.forall_mem_cons.2 ⟨hother "is_trace_correct".toList (by decide), nofun⟩⟩⟩

/-- No header field has the name of a field of a generation. -/
lemma header_keys (q : QuestionResult) : ∀ x ∈ q.headerFields, ∀ p ∈ traceFields, x.1 ≠ p.name := by
  have hkeys : ∀ k ∈ q.headerFields.map (·.1), ∀ p ∈ traceFields, k ≠ p.name := by
    show ∀ k ∈ ["question_index".toList, "question".toList, "ground_truth".toList, "num_correct_traces".toList,
      "total_traces".toList], ∀ p ∈ traceFields, k ≠ p.name
    decide
  exact fun x hx => hkeys _ (List.mem_map_of_mem hx)

/-- The fields of the generations are told by their kinds. -/
lemma apt_traceFields (q : QuestionResult) : Apt traceFields q.json := by
  have hnodup : (traceFields.map (·.name)).Nodup := by decide
  apply apt_result
  · exact fun p hp p' hp' h => List.inj_on_of_nodup_map hnodup hp hp' h
  · show ∀ p ∈ traceFields, p.name ∈ fieldNames
    decide
  · intro x hx p hp hkey
    rw [picks_result, List.mem_append, List.mem_flatMap] at hx
    obtain hx | ⟨g, -, hx⟩ := hx
    · exact absurd hkey (header_keys q x hx p hp)
    · exact .inl ((generation_accepts g x hx).1 p hp hkey)

/-- The entries that are read are the fields of the generations. -/
lemma hits_traceFields (q : QuestionResult) :
    (q.json.hits traceFields e).map (fun f => (f.key, f.value)) = q.generationResults.flatMap Generation.fields := by
  have hnames : ∀ p ∈ traceFields, p.name ∈ fieldNames := by decide
  rw [hits_pairs hnames, picks_result, List.filter_append, List.filter_flatMap]
  have hheader : q.headerFields.filter (acceptsEntry traceFields) = [] := by
    rw [List.filter_eq_nil_iff]
    intro x hx h
    obtain ⟨p, hp, hacc⟩ := List.any_eq_true.1 h
    rw [Bool.and_eq_true, decide_eq_true_eq] at hacc
    exact header_keys q x hx p hp hacc.1
  have hgen : ∀ g : Generation, g.fields.filter (acceptsEntry traceFields) = g.fields := fun g =>
    List.filter_eq_self.2 fun x hx => (generation_accepts g x hx).2
  rw [hheader, List.nil_append]
  exact congrArg (List.flatMap · _) (funext hgen)

/-- The matches in a buffer, as entries of the file. -/
lemma bufferMatches_eq (a b : Nat) (P : Nat → Bool) :
    ((bufferMatches ((q.file.take b).drop a)).filter fun m => P (m.1 + a)).map (fun m => (m.2.field, m.2.group)) =
      (((q.json.hits traceFields .utf8).filter (a ≤ ·.start)).filter (P ·.start)).filterMap
        (·.found traceFields .utf8 b) := by
  have h := finditer_dump (C := .ascii) (e := .utf8) (apt_traceFields q) a b
  have hshift := finditer_shift (C := .ascii) (A := traceFields) a ((q.file.take b).drop a) 0 none 0
  rw [Nat.zero_add] at hshift
  have hfile : Encoding.utf8.encode (q.json.dump 0) = q.file := rfl
  rw [hfile, hshift, List.map_map] at h
  have hfst : ∀ (M : List (Nat × Match)) (H : List Field),
      M.map ((fun x : Nat × Match => (x.1, x.2.field, x.2.group)) ∘ fun x => (x.1 + a, x.2)) =
        H.filterMap (fun f => (f.found traceFields .utf8 b).map (f.start, ·)) →
      (M.filter fun m => P (m.1 + a)).map (fun m => (m.2.field, m.2.group)) =
        (H.filter (P ·.start)).filterMap (·.found traceFields .utf8 b) := by
    intro M H
    induction H generalizing M with
    | nil =>
      intro h
      rw [List.map_eq_nil_iff.1 h]
      rfl
    | cons f H ih =>
      intro h
      cases hf : f.found traceFields .utf8 b with
      | none =>
        rw [List.filterMap_cons_none (by rw [hf]; rfl)] at h
        rw [ih M h, List.filter_cons]
        split_ifs
        · rw [List.filterMap_cons_none hf]
        · rfl
      | some x =>
        rw [List.filterMap_cons_some (b := (f.start, x)) (by rw [hf]; rfl)] at h
        cases M with
        | nil => cases h
        | cons m M =>
          obtain ⟨hm, hM⟩ := List.cons.inj h
          have hpos : m.1 + a = f.start := congrArg Prod.fst hm
          have hx : (m.2.field, m.2.group) = x := congrArg Prod.snd hm
          rw [List.filter_cons, List.filter_cons, hpos]
          split_ifs
          · rw [List.map_cons, List.filterMap_cons_some hf, ih M hM, hx]
          · exact ih M hM
  exact hfst _ _ h

/-- A sorted list of entries is split at a position. -/
lemma filter_split {l : List Field} (hl : l.Pairwise fun f g => f.start < g.start) (b : Nat) :
    l.filter (·.start < b) ++ l.filter (b ≤ ·.start) = l := by
  induction l with
  | nil => rfl
  | cons f l ih =>
    obtain ⟨hf, hl⟩ := List.pairwise_cons.1 hl
    rw [List.filter_cons, List.filter_cons]
    rcases Nat.lt_or_ge f.start b with hb | hb
    · rw [if_pos (decide_eq_true hb), if_neg (by simpa using hb), List.cons_append, ih hl]
    · have hnone : l.filter (·.start < b) = [] := by
        rw [List.filter_eq_nil_iff]
        intro g hg
        have := hf g hg
        simpa using (by omega : b ≤ g.start)
      have hall : l.filter (b ≤ ·.start) = l := by
        rw [List.filter_eq_self]
        intro g hg
        have := hf g hg
        exact decide_eq_true (by omega)
      rw [if_neg (by simpa using hb), if_pos (decide_eq_true hb), hnone, hall]
      rfl

/-- The last pass over the bytes that are left. -/
lemma collect_rest (c : Collected) :
    (bufferMatches (q.file.drop (q.file.length - keep))).foldl (fun c m => c.add m.2) c =
      c.extend (((q.json.hits traceFields .utf8).filter (q.file.length - keep ≤ ·.start)).filterMap fun f =>
        f.found traceFields .utf8 (windowEnd q.file.length f.start)) := by
  have h := bufferMatches_eq (q := q) (q.file.length - keep) q.file.length fun _ => true
  rw [List.take_length, List.filter_true, List.filter_true] at h
  rw [foldl_add, h]
  refine congrArg _ (List.filterMap_congr fun f hf => ?_)
  have hstart : q.file.length - keep ≤ f.start := of_decide_eq_true (List.mem_filter.1 hf).2
  have hend : windowEnd q.file.length f.start = q.file.length := by
    rw [windowEnd, Nat.min_eq_left]
    simp only [chunkSize, keep] at *
    omega
  rw [hend]

/-- One round of the loop. -/
lemma collectLoop_step (fuel : Nat) {done rest : List Nat} (c : Collected) (hfile : q.file = done ++ rest)
    (hrest : rest ≠ []) :
    collectLoop chunkSize (fuel + 1) (done.drop (done.length - keep)) c rest =
      collectLoop chunkSize fuel ((done ++ rest.take chunkSize).drop ((done ++ rest.take chunkSize).length - keep))
        (c.extend ((((q.json.hits traceFields .utf8).filter (done.length - keep ≤ ·.start)).filter
          (·.start < (done ++ rest.take chunkSize).length - keep)).filterMap
            (·.found traceFields .utf8 (done ++ rest.take chunkSize).length)))
        (rest.drop chunkSize) := by
  have hbuf : done.drop (done.length - keep) ++ rest.take chunkSize =
      (done ++ rest.take chunkSize).drop (done.length - keep) := by
    rw [List.drop_append_of_le_length (Nat.sub_le _ _)]
  have hfile' : q.file = (done ++ rest.take chunkSize) ++ rest.drop chunkSize := by
    rw [List.append_assoc, List.take_append_drop, hfile]
  have hlen : done.length ≤ (done ++ rest.take chunkSize).length := by
    rw [List.length_append]
    exact Nat.le_add_right _ _
  rw [collectLoop, if_neg hrest, hbuf]
  generalize done ++ rest.take chunkSize = done' at hfile' hlen ⊢
  have hbuflen : (done'.drop (done.length - keep)).length = done'.length - (done.length - keep) := List.length_drop
  -- the bytes that are read again
  have hoverlap : (if keep < (done'.drop (done.length - keep)).length then
      (done'.drop (done.length - keep)).drop ((done'.drop (done.length - keep)).length - keep)
      else done'.drop (done.length - keep)) = done'.drop (done'.length - keep) := by
    rw [hbuflen]
    split_ifs with hk
    · rw [List.drop_drop]
      exact congrArg (done'.drop ·) (by omega)
    · exact congrArg (done'.drop ·) (by omega)
  -- the matches that are added from this buffer
  have hfilter : ((bufferMatches (done'.drop (done.length - keep))).filter fun m =>
      decide (m.1 < (done'.drop (done.length - keep)).length - keep)) =
      (bufferMatches (done'.drop (done.length - keep))).filter fun m =>
        decide (m.1 + (done.length - keep) < done'.length - keep) :=
    List.filter_congr fun m _ => by rw [hbuflen, decide_eq_decide]; omega
  have hadd := bufferMatches_eq (q := q) (done.length - keep) done'.length
    fun start => decide (start < done'.length - keep)
  have htake : q.file.take done'.length = done' := by rw [hfile', List.take_left]
  rw [htake] at hadd
  show collectLoop chunkSize fuel (if _ then _ else _) (List.foldl _ c (List.filter _ _)) _ = _
  rw [hoverlap, hfilter, foldl_add, hadd]

/-- What is added from the buffers of a file. -/
lemma collectLoop_eq {fuel : Nat} {done rest : List Nat} (c : Collected) (hfile : q.file = done ++ rest)
    (hfuel : rest.length ≤ fuel) (hdone : done.length % chunkSize = 0 ∨ rest = []) :
    collectLoop chunkSize fuel (done.drop (done.length - keep)) c rest =
      c.extend (((q.json.hits traceFields .utf8).filter (done.length - keep ≤ ·.start)).filterMap fun f =>
        f.found traceFields .utf8 (windowEnd q.file.length f.start)) := by
  induction fuel generalizing done rest c with
  | zero =>
    obtain rfl := List.eq_nil_of_length_eq_zero (Nat.le_zero.1 hfuel)
    rw [List.append_nil] at hfile
    rw [← hfile]
    exact collect_rest c
  | succ fuel ih =>
    by_cases hrest : rest = []
    · subst hrest
      rw [List.append_nil] at hfile
      rw [collectLoop, if_pos rfl, ← hfile]
      exact collect_rest c
    · have hmod := hdone.resolve_right hrest
      have hpos : 0 < rest.length := List.length_pos_iff.2 hrest
      have hlen : (done ++ rest.take chunkSize).length = done.length + min chunkSize rest.length := by
        rw [List.length_append, List.length_take]
      have hfile' : q.file = (done ++ rest.take chunkSize) ++ rest.drop chunkSize := by
        rw [List.append_assoc, List.take_append_drop, hfile]
      have hsize : q.file.length = done.length + rest.length := by rw [hfile, List.length_append]
      have hdone' : (done ++ rest.take chunkSize).length % chunkSize = 0 ∨ rest.drop chunkSize = [] := by
        rw [hlen, List.drop_eq_nil_iff]
        rcases Nat.le_total chunkSize rest.length with h | h
        · left
          rw [Nat.min_eq_left h]
          simp only [chunkSize] at hmod ⊢
          omega
        · exact .inr h
      have hfuel' : (rest.drop chunkSize).length ≤ fuel := by
        rw [List.length_drop]
        simp only [chunkSize]
        omega
      rw [collectLoop_step fuel c hfile hrest, ih _ hfile' hfuel' hdone', ← Collected.extend_append]
      generalize (done ++ rest.take chunkSize).length = r at hlen ⊢
      -- the entries before the bytes that are read again, and those after their start
      have hsorted := (hits_sorted (e := .utf8) (apt_traceFields q)).filter (done.length - keep ≤ ·.start)
      have hsplit := filter_split hsorted (r - keep)
      have hrest' : ((q.json.hits traceFields .utf8).filter (done.length - keep ≤ ·.start)).filter (r - keep ≤ ·.start) =
          (q.json.hits traceFields .utf8).filter (r - keep ≤ ·.start) := by
        rw [List.filter_filter]
        refine List.filter_congr fun f _ => ?_
        rw [Bool.and_eq_left_iff_imp, decide_eq_true_eq, decide_eq_true_eq]
        omega
      rw [hrest'] at hsplit
      conv_rhs => rw [← hsplit, List.filterMap_append]
      congr 2
      refine List.filterMap_congr fun f hf => ?_
      obtain ⟨hf, hlt⟩ := List.mem_filter.1 hf
      have hge : done.length - keep ≤ f.start := of_decide_eq_true (List.mem_filter.1 hf).2
      have hlt := of_decide_eq_true hlt
      have hend : windowEnd q.file.length f.start = r := by
        rw [windowEnd, hsize, hlen]
        simp only [chunkSize, keep] at *
        omega
      rw [hend]

/-- What is collected from a file. -/
lemma collectTraceFields_eq (q : QuestionResult) :
    collectTraceFields q.file = Collected.extend ⟨[], [], []⟩ ((q.json.hits traceFields .utf8).filterMap fun f =>
      f.found traceFields .utf8 (windowEnd q.file.length f.start)) := by
  have h := collectLoop_eq (q := q) ⟨[], [], []⟩ (List.nil_append q.file).symm le_rfl (.inl (Nat.zero_mod _))
  have hall : (q.json.hits traceFields .utf8).filter (fun f => decide (([] : List Nat).length - keep ≤ f.start)) =
      q.json.hits traceFields .utf8 :=
    List.filter_eq_self.2 fun f _ => decide_eq_true (Nat.zero_le _)
  rw [hall, List.drop_nil] at h
  exact h

/-- The flag that a field holds. -/
def fieldFlag : Json → Option Bool
  | .bool b => some b
  | _ => none

/-- The length that a field holds. -/
def fieldLength : Json → Option Nat
  | .int (.ofNat n) => some n
  | _ => none

/-- The answer that a field holds. -/
def fieldAnswer : Json → Option (Option (List Nat))
  | .null => some none
  | .str t => some (some (points t))
  | _ => none

/-- The lists of the generations of a result. -/
def QuestionResult.collected (q : QuestionResult) : Collected :=
  ⟨q.generationResults.map (·.isTraceCorrect), q.generationResults.map (·.tokenLength),
    q.generationResults.map fun g => g.extractedAnswer.map points⟩

/-- The lists of the generations, as the values of the entries that are read. -/
lemma collected_eq (q : QuestionResult) :
    q.collected = ⟨(q.json.hits traceFields .utf8).filterMap (fieldFlag ·.value),
      (q.json.hits traceFields .utf8).filterMap (fieldLength ·.value),
      (q.json.hits traceFields .utf8).filterMap (fieldAnswer ·.value)⟩ := by
  -- a list of one value for each generation
  have hlist : ∀ {α : Type} (v : Json → Option α) (w : Generation → α),
      (∀ g : Generation, g.fields.filterMap (fun x => v x.2) = [w g]) →
      (q.json.hits traceFields .utf8).filterMap (fun f => v f.value) = q.generationResults.map w := by
    intro α v w h
    have hmap : (q.json.hits traceFields .utf8).filterMap (fun f => v f.value) =
        ((q.json.hits traceFields .utf8).map fun f => (f.key, f.value)).filterMap fun x => v x.2 := by
      rw [List.filterMap_map]
      rfl
    rw [hmap, hits_traceFields, List.filterMap_flatMap, funext h, List.map_eq_flatMap]
  rw [hlist fieldFlag (·.isTraceCorrect), hlist fieldLength (·.tokenLength),
    hlist fieldAnswer (fun g => g.extractedAnswer.map points)]
  · rfl
  · intro g
    unfold Generation.fields
    cases g.extractedAnswer <;> rfl
  · intro g
    unfold Generation.fields
    cases g.extractedAnswer <;> rfl
  · intro g
    unfold Generation.fields
    cases g.extractedAnswer <;> rfl

/-- An entry that ends in its buffer is read as it was written. -/
lemma read_whole {f : Field} (hfit : p.Fits f) :
    readFlag (p, Encoding.utf8.encode (f.value.dump f.level)) = fieldFlag f.value ∧
      readLength (p, Encoding.utf8.encode (f.value.dump f.level)) = fieldLength f.value ∧
      readAnswer (p, Encoding.utf8.encode (f.value.dump f.level)) = fieldAnswer f.value := by
  obtain ⟨start, level, key, v, after⟩ := f
  have hacc := hfit.2
  simp only at hacc ⊢
  have hstr : ∀ t, loadAnswer (Encoding.utf8.encode ((Json.str t).dump level)) = some (points t) := by
    intro t
    have hquote : Encoding.utf8.encode ((Json.str t).dump level) = encode (Json.quote t) := rfl
    have hne : encode (Json.quote t) ≠ points "null".toList := by
      intro h
      have hhead := congrArg List.head? h
      cases hhead
    rw [hquote, loadAnswer, if_neg hne, strict_encode, Option.bind_some, loadsString_quote]
  cases h : p.kind with
  | digits =>
    rw [h] at hacc
    obtain ⟨n, rfl, hint, -⟩ := int_found (C := .ascii) (e := .utf8) hacc level
    simp only [readFlag, readLength, readAnswer, h, hint]
    exact ⟨rfl, rfl, rfl⟩
  | boolean =>
    rw [h] at hacc
    cases v with
    | bool b =>
      simp only [readFlag, readLength, readAnswer, h]
      cases b <;> exact ⟨rfl, rfl, rfl⟩
    | _ => cases hacc
  | string =>
    rw [h] at hacc
    cases v with
    | str t =>
      simp only [readFlag, readLength, readAnswer, h, hstr]
      exact ⟨rfl, rfl, rfl⟩
    | _ => cases hacc
  | nullOrString =>
    rw [h] at hacc
    cases v with
    | null =>
      simp only [readFlag, readLength, readAnswer, h]
      exact ⟨rfl, rfl, rfl⟩
    | str t =>
      simp only [readFlag, readLength, readAnswer, h, hstr]
      exact ⟨rfl, rfl, rfl⟩
    | _ => cases hacc

/-- What an entry adds to the three lists. -/
structure ReadsAs (f : Field) (found : Option (FieldPattern × List Nat)) : Prop where
  flag : found.bind readFlag = fieldFlag f.value
  length : found.bind readLength = fieldLength f.value
  answer : found.bind readAnswer = fieldAnswer f.value

/-- A value that a pattern accepts belongs to one of the lists. -/
lemma field_some {k : Kind} {v : Json} (h : k.accepts v) :
    ¬ (fieldFlag v = none ∧ fieldLength v = none ∧ fieldAnswer v = none) := by
  cases v with
  | int n => cases n with
    | ofNat n => exact fun h => nomatch h.2.1
    | negSucc n => cases k <;> cases h
  | bool b => exact fun h => nomatch h.1
  | null => exact fun h => nomatch h.2.2
  | str t => exact fun h => nomatch h.2.2
  | _ => cases k <;> cases h

/-- An entry adds what was written exactly if it ends in its buffer. -/
lemma readsAs_iff {f : Field} {j : Json} (hj : Apt A j) (hp : p ∈ A) (hfit : p.Fits f) (b : Nat) :
    ReadsAs f (f.found A .utf8 b) ↔ f.stop .utf8 ≤ b := by
  constructor
  · intro h
    by_contra hb
    obtain hnone | ⟨hk, k, hk0, hlt, hsome⟩ := found_cut hj hp hfit (Nat.not_le.1 hb)
    · rw [hnone] at h
      exact field_some hfit.2 ⟨h.flag.symm, h.length.symm, h.answer.symm⟩
    · have hacc := hfit.2
      rw [hk] at hacc
      obtain ⟨n, hv, -, hne⟩ := int_found (C := .ascii) (e := .utf8) hacc f.level
      have hlen := h.length
      rw [hsome, hv] at hlen
      simp only [Option.bind_some, readLength, hk, if_true] at hlen
      rw [hv] at hne hlt
      exact hne k hk0 hlt (Option.some.inj hlen)
  · intro hb
    rw [found_whole hj hp hfit hb]
    obtain ⟨h₁, h₂, h₃⟩ := read_whole hfit
    exact ⟨h₁, h₂, h₃⟩

/-- An entry adds nothing to the lists that it does not belong to. -/
lemma read_none {f : Field} {j : Json} (hj : Apt A j) (hp : p ∈ A) (hfit : p.Fits f) (b : Nat) :
    (fieldFlag f.value = none → (f.found A .utf8 b).bind readFlag = none) ∧
      (fieldLength f.value = none → (f.found A .utf8 b).bind readLength = none) ∧
      (fieldAnswer f.value = none → (f.found A .utf8 b).bind readAnswer = none) := by
  rcases Nat.lt_or_ge b (f.stop .utf8) with hb | hb
  · obtain hnone | ⟨hk, k, -, -, hsome⟩ := found_cut hj hp hfit hb
    · rw [hnone]
      exact ⟨fun _ => rfl, fun _ => rfl, fun _ => rfl⟩
    · have hacc := hfit.2
      rw [hk] at hacc
      obtain ⟨n, hv, -⟩ := int_found (C := .ascii) (e := .utf8) hacc f.level
      rw [hsome, hv]
      have hlength : fieldLength (.int n) ≠ none := nofun
      simp only [Option.bind_some, readFlag, readLength, readAnswer, hk]
      exact ⟨fun _ => rfl, fun h => absurd h hlength, fun _ => rfl⟩
  · have h := (readsAs_iff hj hp hfit b).2 hb
    exact ⟨fun h' => h.flag.trans h', fun h' => h.length.trans h', fun h' => h.answer.trans h'⟩

/-- The end of a chunk lies in a field that starts too early to be read again. -/
def Straddles (f : Field) : Prop := ∃ m, f.start + keep < m * chunkSize ∧ m * chunkSize < f.stop .utf8

/-- A field that does not straddle ends in its buffer. -/
lemma straddles_iff {f : Field} {size : Nat} (h : f.stop .utf8 ≤ size) :
    Straddles f ↔ windowEnd size f.start < f.stop .utf8 := by
  unfold Straddles windowEnd
  generalize f.stop .utf8 = stop at h ⊢
  simp only [chunkSize, keep]
  constructor
  · rintro ⟨m, h₁, h₂⟩
    omega
  · intro hlt
    exact ⟨(f.start + 64 * 1024) / (1024 * 1024) + 1, by omega, by omega⟩

/-- The lists that are collected from a file are the ones that were written exactly if no field straddles. -/
theorem collect_eq_iff (q : QuestionResult) :
    collectTraceFields q.file = q.collected ↔ ∀ f ∈ q.json.hits traceFields .utf8, ¬ Straddles f := by
  have hj := apt_traceFields q
  have hsize : ∀ f ∈ q.json.hits traceFields .utf8, f.stop .utf8 ≤ q.file.length := by
    intro f hf
    obtain ⟨⟨x, hl, hx, -⟩, -⟩ := (field_at (mem_hits.1 hf).1).1
    have hlen := congrArg List.length hl
    have hfile : Encoding.utf8.encode (q.json.dump 0) = q.file := rfl
    rw [hfile, List.length_append, List.length_append] at hlen
    rw [Field.stop]
    omega
  have hends : (∀ f ∈ q.json.hits traceFields .utf8, ¬ Straddles f) ↔
      ∀ f ∈ q.json.hits traceFields .utf8, ReadsAs f (f.found traceFields .utf8 (windowEnd q.file.length f.start)) := by
    refine forall₂_congr fun f hf => ?_
    obtain ⟨p, hp, hfit⟩ := (mem_hits.1 hf).2
    rw [straddles_iff (hsize f hf), readsAs_iff hj hp hfit, Nat.not_lt]
  let read (f : Field) := f.found traceFields .utf8 (windowEnd q.file.length f.start)
  have hnone : ∀ f ∈ q.json.hits traceFields .utf8,
      (fieldFlag f.value = none → (read f).bind readFlag = none) ∧
        (fieldLength f.value = none → (read f).bind readLength = none) ∧
        (fieldAnswer f.value = none → (read f).bind readAnswer = none) := by
    intro f hf
    obtain ⟨p, hp, hfit⟩ := (mem_hits.1 hf).2
    exact read_none hj hp hfit (windowEnd q.file.length f.start)
  rw [hends, collectTraceFields_eq, collected_eq]
  simp only [Collected.extend, List.nil_append, List.filterMap_filterMap, Collected.mk.injEq]
  constructor
  · rintro ⟨h₁, h₂, h₃⟩ f hf
    exact ⟨eq_of_filterMap_eq (fun f hf => (hnone f hf).1) h₁ f hf,
      eq_of_filterMap_eq (fun f hf => (hnone f hf).2.1) h₂ f hf,
      eq_of_filterMap_eq (fun f hf => (hnone f hf).2.2) h₃ f hf⟩
  · intro h
    exact ⟨List.filterMap_congr fun f hf => (h f hf).flag, List.filterMap_congr fun f hf => (h f hf).length,
      List.filterMap_congr fun f hf => (h f hf).answer⟩

end Gambit.Bench
