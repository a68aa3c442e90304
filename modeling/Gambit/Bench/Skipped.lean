import Gambit.Bench.Verdicts

/-!
# Files that are skipped

What the header of a skipped file gave stays in the question text and in the ground truth, and from there it
reaches the other files of the question. The pools are compared with those of the run directories without the
files that were skipped: they are the same if no skipped file is the first to give the question text or the
ground truth (`skipped_have_no_influence`).
-/

namespace Gambit.Bench
open Gambit.Lib Utf8

variable (I : Interpreter) (args : PoolArgs)

/-- Did processing a file raise? -/
def wasSkipped (indexed : List (Dict Nat (List Nat))) (i : Nat) (file : List Nat) : Bool :=
  match poolQuestion I args indexed (fileIndex I file) with
  | .ok r => r.2.getD i false
  | .error _ => false

/-- The run directories without the files whose processing raised. -/
def withoutSkipped (dirs : List (List (List Nat))) : List (List (List Nat)) :=
  match dirs.mapM (indexQuestionFiles I) with
  | .ok indexed => dirs.mapIdx fun i dir => dir.filter fun file => !wasSkipped I args indexed i file
  | .error _ => dirs

/-- The pools are those without the files whose processing raised, and their lists have the same length. -/
def SkippedHaveNoInfluence (dirs : List (List (List Nat))) : Prop :=
  ∀ pools, buildPools I args dirs = .ok pools →
    buildPools I args (withoutSkipped I args dirs) = .ok pools ∧
      ∀ p ∈ pools, p.tokenLengths.length = p.correctFlags.length ∧ p.extractedAnswers.length = p.correctFlags.length

/-- Nothing is left of the skipped files of a question. Where all run directories are to have it, all or none of
them are skipped. And if a pool comes of the files, those that are accepted give the question text and the
ground truth, and have the same fields without the headers of the others before them. -/
structure LeavesNothing (files : List (List Nat)) : Prop where
  whole : args.allowMissingQuestions = false → accepted I args [] files = files ∨ accepted I args [] files = []
  same : (∃ c ∈ (verdicts I args [] files).reduceOption, c.flags ≠ []) →
    questionOf ((accepted I args [] files).map (fileHeader I)) = questionOf (files.map (fileHeader I)) ∧
      groundTruthOf I args ((accepted I args [] files).map (fileHeader I)) =
        groundTruthOf I args (files.map (fileHeader I)) ∧
      (verdicts I args [] (accepted I args [] files)).map (·.getD .empty) = (verdicts I args [] files).reduceOption

/-- A header leaves the question text and the ground truth as those before it gave them: it has none, or they were
there before. -/
structure LeavesNoHeader (before : List Header) (h : Header) : Prop where
  question : h.question = none ∨ (questionOf before).isSome
  groundTruth : h.groundTruth = none ∨ (groundTruthOf I args before).isSome

/-- No file that is skipped leaves what its header gives. -/
def HeadersKept : List Header → List (List Nat) → Prop
  | _, [] => True
  | before, file :: files =>
    (verdict I args before file = none → LeavesNoHeader I args before (fileHeader I file)) ∧
      HeadersKept (before ++ [fileHeader I file]) files

variable {I args} {file : List Nat} {files : List (List Nat)} {before : List Header} {qidx : Nat}

lemma Indexed.index (hi : Indexed I qidx file) : fileIndex I file = qidx := by
  rw [fileIndex, hi.2, Option.getD_some]

/-- What adds a file to an index. -/
lemma indexFile_ok {out m : Dict Nat (List Nat)} : indexFile I out file = .ok m ↔
    Indexed I (fileIndex I file) file ∧ fileIndex I file ∉ out ∧ m = out.set (fileIndex I file) file := by
  unfold indexFile
  cases hr : readHeader I file with
  | error e =>
    constructor
    · intro h
      cases h
    · rintro ⟨⟨h, -⟩, -⟩
      rw [hr] at h
      cases h
  | ok h =>
    have hh := readHeader_ok hr
    subst hh
    dsimp only [bind, Except.bind]
    cases hq : (fileHeader I file).questionIndex with
    | none =>
      constructor
      · intro h
        cases h
      · rintro ⟨⟨-, h⟩, -⟩
        rw [hq] at h
        cases h
    | some qidx =>
      have hfile : Indexed I qidx file := ⟨hr, hq⟩
      rw [hfile.index]
      dsimp only
      split
      · next hmem =>
        constructor
        · intro h
          cases h
        · exact fun h => absurd hmem h.2.1
      · next hmem =>
        constructor
        · intro h
          cases h
          exact ⟨hfile, hmem, rfl⟩
        · rintro ⟨-, -, rfl⟩
          rfl

/-- The loop of the index from a dictionary on. -/
lemma index_foldlM (files : List (List Nat)) (out m : Dict Nat (List Nat)) :
    files.foldlM (indexFile I) out = .ok m ↔
      (∀ file ∈ files, Indexed I (fileIndex I file) file) ∧ (out.keys ++ files.map (fileIndex I)).Nodup ∧
        m.entries = out.entries ++ files.map fun file => (fileIndex I file, file) := by
  induction files generalizing out with
  | nil =>
    rw [List.foldlM_nil, List.map_nil, List.append_nil, List.map_nil, List.append_nil]
    constructor
    · intro h
      cases h
      exact ⟨nofun, m.keys_nodup, rfl⟩
    · intro h
      exact congrArg Except.ok (Dict.ext h.2.2.symm)
  | cons file files ih =>
    rw [List.foldlM_cons, List.map_cons, List.map_cons, List.forall_mem_cons]
    have hset : fileIndex I file ∉ out → ((out.set (fileIndex I file) file).keys ++ files.map (fileIndex I) =
        out.keys ++ fileIndex I file :: files.map (fileIndex I) ∧
          (out.set (fileIndex I file) file).entries ++ (files.map fun file => (fileIndex I file, file)) =
            out.entries ++ (fileIndex I file, file) :: files.map fun file => (fileIndex I file, file)) := by
      intro hmem
      rw [Dict.keys_set_of_not_mem _ hmem, Dict.entries_set_of_not_mem _ hmem]
      simp only [List.append_assoc, List.singleton_append, and_self]
    constructor
    · intro h
      cases hs : indexFile I out file with
      | error e =>
        rw [hs] at h
        cases h
      | ok out' =>
        rw [hs] at h
        obtain ⟨hfile, hmem, rfl⟩ := indexFile_ok.1 hs
        have hrest := (ih _).1 h
        rw [(hset hmem).1, (hset hmem).2] at hrest
        exact ⟨⟨hfile, hrest.1⟩, hrest.2⟩
    · rintro ⟨⟨hfile, hfiles⟩, hnodup, hentries⟩
      have hmem : fileIndex I file ∉ out := by
        intro hc
        exact List.disjoint_of_nodup_append hnodup hc List.mem_cons_self
      rw [indexFile_ok.2 ⟨hfile, hmem, rfl⟩]
      apply (ih _).2
      rw [(hset hmem).1, (hset hmem).2]
      exact ⟨hfiles, hnodup, hentries⟩

/-- The index of a run directory. -/
lemma indexQuestionFiles_ok {m : Dict Nat (List Nat)} : indexQuestionFiles I files = .ok m ↔
    (∀ file ∈ files, Indexed I (fileIndex I file) file) ∧ (files.map (fileIndex I)).Nodup ∧
      m.entries = files.map fun file => (fileIndex I file, file) := by
  rw [indexQuestionFiles, index_foldlM, Dict.keys_empty, Dict.entries_empty, List.nil_append, List.nil_append]

/-- The file of a question in an index. -/
lemma get?_index {m : Dict Nat (List Nat)} (hm : indexQuestionFiles I files = .ok m) :
    m.get? qidx = some file ↔ file ∈ files ∧ fileIndex I file = qidx := by
  rw [Dict.get?_eq_some, (indexQuestionFiles_ok.1 hm).2.2, List.mem_map]
  constructor
  · rintro ⟨f, hf, he⟩
    cases he
    exact ⟨hf, rfl⟩
  · rintro ⟨hf, rfl⟩
    exact ⟨file, hf, rfl⟩

/-- An index without some questions. -/
def without (p : Nat → Bool) (m : Dict Nat (List Nat)) : Dict Nat (List Nat) :=
  m.filterMap fun qidx file => if p qidx then none else some file

lemma get?_without (p : Nat → Bool) (m : Dict Nat (List Nat)) (qidx : Nat) :
    (without p m).get? qidx = if p qidx then none else m.get? qidx := by
  rw [without, Dict.get?_filterMap]
  split
  · cases m.get? qidx <;> rfl
  · cases m.get? qidx <;> rfl

/-- The index without the files of some questions. -/
lemma index_filter {m : Dict Nat (List Nat)} (hm : indexQuestionFiles I files = .ok m) (p : Nat → Bool) :
    indexQuestionFiles I (files.filter fun file => !p (fileIndex I file)) = .ok (without p m) := by
  obtain ⟨hfiles, hnodup, hentries⟩ := indexQuestionFiles_ok.1 hm
  apply indexQuestionFiles_ok.2
  refine ⟨fun file hf => hfiles file (List.mem_of_mem_filter hf),
    hnodup.sublist (List.filter_sublist.map (fileIndex I)), ?_⟩
  show m.entries.filterMap _ = _
  rw [hentries]
  clear hm hfiles hnodup hentries
  induction files with
  | nil => rfl
  | cons file files ih =>
    rw [List.map_cons, List.filter_cons]
    cases hp : p (fileIndex I file) with
    | true =>
      simp only [List.filterMap_cons, hp, if_true, Option.map_none, Bool.not_true, Bool.false_eq_true, if_false]
      exact ih
    | false =>
      simp only [List.filterMap_cons, hp, Bool.false_eq_true, if_false, Option.map_some, Bool.not_false, if_true,
        List.map_cons]
      exact congrArg _ ih

variable {dirs : List (List (List Nat))} {indexed : List (Dict Nat (List Nat))}

/-- The files of a question are indexed as such. -/
lemma indexed_of_mem (hm : dirs.mapM (indexQuestionFiles I) = .ok indexed)
    (hf : some file ∈ questionFiles indexed qidx) : Indexed I qidx file := by
  obtain ⟨m, hmem, hget⟩ := List.mem_map.1 hf
  obtain ⟨i, hi, rfl⟩ := List.getElem_of_mem hmem
  have hall := mapM_ok_iff.1 hm
  have hdir := (List.forall₂_iff_get.1 hall).2 i (hall.length_eq ▸ hi) hi
  obtain ⟨hfile, rfl⟩ := (get?_index hdir).1 hget
  exact (indexQuestionFiles_ok.1 hdir).1 file hfile

/-- What is pooled of a question, before it is known if there is a pool. -/
lemma poolQuestion_eq (hs : args.suppressParseErrors = true)
    (hm : dirs.mapM (indexQuestionFiles I) = .ok indexed) (qidx : Nat) :
    poolQuestion I args indexed qidx =
      .ok (stored I args ((questionFiles indexed qidx).reduceOption.map (fileHeader I))
        (joined (verdicts I args [] (questionFiles indexed qidx).reduceOption).reduceOption),
          marks I args [] (questionFiles indexed qidx)) := by
  have hspec := poolFiles_spec hs (questionFiles indexed qidx) (fun file hf => indexed_of_mem hm hf) [] .empty
  have hstart : stored I args [] .empty = ⟨none, none, .empty⟩ := by
    have hkey : keyEntry I args [] = none := by
      rw [keyEntry]
      cases args.answerKey <;> rfl
    rw [stored, groundTruthOf_unasked hkey]
    rfl
  rw [hstart, empty_append, List.nil_append] at hspec
  exact hspec

/-- The indexes of the run directories without the files that are skipped. -/
lemma index_withoutSkipped (hs : args.suppressParseErrors = true)
    (hm : dirs.mapM (indexQuestionFiles I) = .ok indexed) :
    ∃ indexed', (withoutSkipped I args dirs).mapM (indexQuestionFiles I) = .ok indexed' ∧
      ∀ qidx, questionFiles indexed' qidx =
        List.zipWith (fun m file => if m then none else file) (marks I args [] (questionFiles indexed qidx))
          (questionFiles indexed qidx) := by
  let p : Nat → Nat → Bool := fun i qidx => (marks I args [] (questionFiles indexed qidx)).getD i false
  have hskip : ∀ i file, wasSkipped I args indexed i file = p i (fileIndex I file) := by
    intro i file
    rw [wasSkipped, poolQuestion_eq hs hm]
  have hall := mapM_ok_iff.1 hm
  refine ⟨indexed.mapIdx fun i m => without (p i) m, ?_, fun qidx => ?_⟩
  · rw [withoutSkipped, hm]
    dsimp only
    apply mapM_ok_iff.2
    apply List.forall₂_iff_get.2
    refine ⟨by rw [List.length_mapIdx, List.length_mapIdx, hall.length_eq], fun i h1 h2 => ?_⟩
    rw [List.length_mapIdx] at h1 h2
    have hdir := (List.forall₂_iff_get.1 hall).2 i h1 h2
    have hfilter := index_filter hdir (p i)
    simp only [List.get_eq_getElem, List.getElem_mapIdx, hskip] at hfilter ⊢
    exact hfilter
  · apply List.ext_getElem
    · rw [questionFiles, List.length_map, List.length_mapIdx, List.length_zipWith, length_marks, Nat.min_self,
        questionFiles, List.length_map]
    · intro i h1 h2
      rw [questionFiles, List.length_map, List.length_mapIdx] at h1
      have hlen : i < (marks I args [] (questionFiles indexed qidx)).length := by
        rw [length_marks, questionFiles, List.length_map]
        exact h1
      have hp : p i qidx = (marks I args [] (questionFiles indexed qidx))[i] := by
        show List.getD _ _ _ = _
        rw [List.getD_eq_getElem _ _ hlen]
      simp only [questionFiles, List.getElem_map, List.getElem_mapIdx, List.getElem_zipWith, get?_without]
      rw [hp]
      rfl

/-- The files of a question, in the order of the run directories. -/
def presentFiles (indexed : List (Dict Nat (List Nat))) (qidx : Nat) : List (List Nat) :=
  (questionFiles indexed qidx).reduceOption

lemma mem_sortedKeys {keys : List Nat} {qidx : Nat} : qidx ∈ sortedKeys keys ↔ qidx ∈ keys := by
  rw [sortedKeys, List.mem_insertionSort, List.mem_dedup]

lemma presentFiles_eq_nil : presentFiles indexed qidx = [] ↔ ∀ m ∈ indexed, qidx ∉ m := by
  rw [presentFiles, List.eq_nil_iff_forall_not_mem]
  constructor
  · intro h m hm hq
    obtain ⟨file, hf⟩ := Dict.mem_iff_get?.1 hq
    exact h file (List.reduceOption_mem_iff.2 (List.mem_map.2 ⟨m, hm, hf⟩))
  · intro h file hf
    obtain ⟨m, hm, hget⟩ := List.mem_map.1 (List.reduceOption_mem_iff.1 hf)
    exact h m hm (Dict.mem_of_get? hget)

lemma mem_allQuestions : qidx ∈ allQuestions indexed ↔ presentFiles indexed qidx ≠ [] := by
  rw [allQuestions, mem_sortedKeys, List.mem_flatMap, ne_eq, presentFiles_eq_nil]
  push Not
  exact Iff.rfl

/-- A question has a file in every run directory. -/
lemma length_presentFiles : (presentFiles indexed qidx).length = indexed.length ↔ ∀ m ∈ indexed, qidx ∈ m := by
  rw [presentFiles, questionFiles]
  induction indexed with
  | nil => exact ⟨fun _ => nofun, fun _ => rfl⟩
  | cons m ms ih =>
    rw [List.map_cons, List.forall_mem_cons, List.length_cons, Dict.mem_iff_get?]
    have hle : (ms.map (·.get? qidx)).reduceOption.length ≤ ms.length := by
      have := List.reduceOption_length_le (ms.map (·.get? qidx))
      rwa [List.length_map] at this
    cases hget : m.get? qidx with
    | none =>
      rw [List.reduceOption_cons_of_none]
      constructor
      · intro h
        omega
      · rintro ⟨⟨file, hc⟩, -⟩
        cases hc
    | some file =>
      rw [List.reduceOption_cons_of_some, List.length_cons, Nat.add_right_cancel_iff, ih]
      exact ⟨fun h => ⟨⟨file, rfl⟩, h⟩, fun h => h.2⟩

/-- Every question has a file in every run directory, or in none. -/
def Complete (indexed : List (Dict Nat (List Nat))) : Prop :=
  ∀ qidx, presentFiles indexed qidx = [] ∨ (presentFiles indexed qidx).length = indexed.length

lemma missingReport_eq_nil : missingReport indexed = [] ↔ Complete indexed := by
  rw [missingReport, List.filterMap_eq_nil_iff]
  have hmissing : ∀ qidx, (if ((List.range indexed.length).filter fun i =>
      indexed[i]?.all fun m => decide (qidx ∉ m)) = [] then none else
        some (qidx, (List.range indexed.length).filter fun i => indexed[i]?.all fun m => decide (qidx ∉ m))) = none ↔
      (presentFiles indexed qidx).length = indexed.length := by
    intro qidx
    rw [ite_eq_left_iff, length_presentFiles]
    constructor
    · intro h m hm
      by_contra hq
      obtain ⟨i, hi, rfl⟩ := List.getElem_of_mem hm
      have hne : i ∈ (List.range indexed.length).filter fun i => indexed[i]?.all fun m => decide (qidx ∉ m) := by
        rw [List.mem_filter, List.mem_range, List.getElem?_eq_getElem hi, Option.all_some, decide_eq_true_eq]
        exact ⟨hi, hq⟩
      cases h (List.ne_nil_of_mem hne)
    · intro h hne
      obtain ⟨i, hi⟩ := List.exists_mem_of_ne_nil _ hne
      rw [List.mem_filter, List.mem_range] at hi
      rw [List.getElem?_eq_getElem hi.1, Option.all_some, decide_eq_true_eq] at hi
      exact absurd (h _ (List.getElem_mem hi.1)) hi.2
  constructor
  · intro h qidx
    by_cases hq : presentFiles indexed qidx = []
    · exact .inl hq
    · exact .inr ((hmissing qidx).1 (h qidx (mem_allQuestions.2 hq)))
  · intro h qidx hq
    exact (hmissing qidx).2 ((h qidx).resolve_left (mem_allQuestions.1 hq))

lemma pairwise_sortedKeys (keys : List Nat) : (sortedKeys keys).Pairwise (· < ·) := by
  have hnodup : (sortedKeys keys).Nodup := (List.perm_insertionSort _ _).nodup_iff.2 (List.nodup_dedup keys)
  exact ((List.sortedLE_insertionSort).sortedLT_of_nodup hnodup).pairwise

/-- If no question is missing anywhere, all are common. -/
lemma commonQuestions_eq (hc : Complete indexed) : commonQuestions indexed = allQuestions indexed := by
  unfold commonQuestions
  cases indexed with
  | nil => rfl
  | cons m ms =>
    apply (pairwise_sortedKeys _).eq_of_mem_iff (pairwise_sortedKeys _)
    intro qidx
    rw [mem_sortedKeys, List.mem_filter, List.all_eq_true]
    simp only [decide_eq_true_eq]
    have hall : (qidx ∈ m.keys ∧ ∀ m' ∈ ms, qidx ∈ m') ↔ ∀ m' ∈ m :: ms, qidx ∈ m' := by
      rw [List.forall_mem_cons]
      exact Iff.rfl
    rw [hall, ← length_presentFiles]
    show _ ↔ qidx ∈ allQuestions (m :: ms)
    rw [mem_allQuestions]
    constructor
    · intro hlen hnil
      rw [hnil] at hlen
      cases hlen
    · exact (hc qidx).resolve_left

/-- The questions that are pooled. -/
lemma pooledQuestions_ok {qidxs : List Nat} : pooledQuestions args indexed = .ok qidxs ↔
    (args.allowMissingQuestions = true ∨ Complete indexed) ∧ qidxs = allQuestions indexed := by
  unfold pooledQuestions
  split
  · next ha =>
    constructor
    · intro h
      cases h
      exact ⟨.inl ha, rfl⟩
    · rintro ⟨-, rfl⟩
      rfl
  · next ha =>
    split
    · next hr =>
      have hc := missingReport_eq_nil.1 hr
      rw [commonQuestions_eq hc]
      constructor
      · intro h
        cases h
        exact ⟨.inr hc, rfl⟩
      · rintro ⟨-, rfl⟩
        rfl
    · next hr =>
      constructor
      · exact nofun
      · rintro ⟨h, -⟩
        cases h with
        | inl h => exact absurd h ha
        | inr h => exact absurd (missingReport_eq_nil.2 h) hr

/-- The pool that comes of the files of a question. -/
def poolOf (I : Interpreter) (args : PoolArgs) (qidx : Nat) (files : List (List Nat)) : Option QuestionPool :=
  (stored I args (files.map (fileHeader I)) (joined (verdicts I args [] files).reduceOption)).pool qidx

/-- A pool is one of the questions. -/
lemma buildPools_ok (hs : args.suppressParseErrors = true) (hm : dirs.mapM (indexQuestionFiles I) = .ok indexed)
    {pools : List QuestionPool} : buildPools I args dirs = .ok pools ↔
      (args.allowMissingQuestions = true ∨ Complete indexed) ∧
        pools = (allQuestions indexed).filterMap fun qidx => poolOf I args qidx (presentFiles indexed qidx) := by
  have hpool : ∀ qidxs : List Nat, (qidxs.mapM fun qidx => do
      let r ← poolQuestion I args indexed qidx
      return r.1.pool qidx) =
        (Except.ok (qidxs.map fun qidx => poolOf I args qidx (presentFiles indexed qidx)) : Except PoolError _) := by
    intro qidxs
    apply mapM_ok_iff.2
    apply List.forall₂_map_right_iff.2
    apply List.forall₂_same.2
    intro qidx _
    rw [poolQuestion_eq hs hm]
    rfl
  unfold buildPools
  rw [hm]
  show (do
    let qidxs ← pooledQuestions args indexed
    let pools ← qidxs.mapM fun qidx => do
      let r ← poolQuestion I args indexed qidx
      return r.1.pool qidx
    return pools.reduceOption) = _ ↔ _
  cases hq : pooledQuestions args indexed with
  | error e =>
    constructor
    · exact nofun
    · rintro ⟨h, -⟩
      have := pooledQuestions_ok.2 ⟨h, rfl⟩
      rw [hq] at this
      cases this
  | ok qidxs =>
    obtain ⟨hok, rfl⟩ := pooledQuestions_ok.1 hq
    show (do
      let pools ← (allQuestions indexed).mapM fun qidx => do
        let r ← poolQuestion I args indexed qidx
        return r.1.pool qidx
      return pools.reduceOption) = _ ↔ _
    rw [hpool]
    show Except.ok (List.reduceOption _) = _ ↔ _
    rw [List.reduceOption, List.filterMap_map]
    constructor
    · intro h
      cases h
      exact ⟨hok, rfl⟩
    · rintro ⟨-, rfl⟩
      rfl

/-- When the pool of a question is that of the accepted files. -/
lemma poolOf_accepted_iff (qidx : Nat) (files : List (List Nat)) :
    poolOf I args qidx (accepted I args [] files) = poolOf I args qidx files ↔
      ((∃ c ∈ (verdicts I args [] files).reduceOption, c.flags ≠ []) →
        questionOf ((accepted I args [] files).map (fileHeader I)) = questionOf (files.map (fileHeader I)) ∧
          groundTruthOf I args ((accepted I args [] files).map (fileHeader I)) =
            groundTruthOf I args (files.map (fileHeader I)) ∧
          (verdicts I args [] (accepted I args [] files)).map (·.getD .empty) =
            (verdicts I args [] files).reduceOption) := by
  have hshape := verdicts_accepted I args [] [] files
  have hpool : ∀ (hs : List Header) (c : Collected), c.flags ≠ [] → (stored I args hs c).pool qidx =
      some ⟨qidx, questionOf hs, c.flags, c.tokenLengths, c.extractedAnswers, groundTruthOf I args hs⟩ :=
    fun hs c hc => if_neg hc
  have hnone : ∀ (hs : List Header) (c : Collected), c.flags = [] → (stored I args hs c).pool qidx = none :=
    fun hs c hc => if_pos hc
  unfold poolOf
  rw [joined_reduceOption (verdicts I args [] (accepted I args [] files))]
  constructor
  · intro he hex
    have hfull : (joined (verdicts I args [] files).reduceOption).flags ≠ [] :=
      fun hc => flags_joined_eq_nil.1 hc hex
    rw [hpool _ _ hfull] at he
    by_cases hc : (joined ((verdicts I args [] (accepted I args [] files)).map (·.getD .empty))).flags = []
    · rw [hnone _ _ hc] at he
      cases he
    · rw [hpool _ _ hc] at he
      injection he with he
      injection he with _ hquestion hflags _ _ hgt
      rw [flags_joined, flags_joined] at hflags
      exact ⟨hquestion, hgt, eq_of_flags_eq hshape (even_of_verdicts I args [] files)
        (eq_of_flatten_eq (flags_length_le hshape) hflags)⟩
  · intro h
    by_cases hex : ∃ c ∈ (verdicts I args [] files).reduceOption, c.flags ≠ []
    · obtain ⟨hquestion, hgt, hfields⟩ := h hex
      rw [hfields, stored, stored, hquestion, hgt]
    · have hfull : (joined (verdicts I args [] files).reduceOption).flags = [] := flags_joined_eq_nil.2 hex
      have hown : (joined ((verdicts I args [] (accepted I args [] files)).map (·.getD .empty))).flags = [] := by
        apply List.eq_nil_of_length_eq_zero
        have hsum : ∀ {xs ys : List (List Bool)}, List.Forall₂ (fun x y => x.length ≤ y.length) xs ys →
            ys.flatten = [] → xs.flatten.length = 0 := by
          intro xs ys hle
          induction hle with
          | nil => exact fun _ => rfl
          | @cons x y xs ys hxy _ ih =>
            intro hy
            rw [List.flatten_cons, List.append_eq_nil_iff] at hy
            rw [hy.1] at hxy
            rw [List.flatten_cons, List.length_append, ih hy.2, Nat.le_zero.1 hxy]
        rw [flags_joined] at hfull ⊢
        exact hsum (flags_length_le hshape) hfull
      rw [hnone _ _ hfull, hnone _ _ hown]

lemma poolOf_index {p : QuestionPool} (hp : poolOf I args qidx files = some p) : p.questionIndex = qidx := by
  unfold poolOf PoolState.pool at hp
  split at hp
  · cases hp
  · cases hp
    rfl

lemma poolOf_nil : poolOf I args qidx [] = none := rfl

/-- The lists of a pool have the same length. -/
lemma poolOf_even {p : QuestionPool} (hp : poolOf I args qidx files = some p) :
    p.tokenLengths.length = p.correctFlags.length ∧ p.extractedAnswers.length = p.correctFlags.length := by
  have heven := even_joined (even_of_verdicts I args [] files)
  unfold poolOf PoolState.pool at hp
  split at hp
  · cases hp
  · cases hp
    exact heven

lemma accepted_sublist (I : Interpreter) (args : PoolArgs) (before : List Header) (files : List (List Nat)) :
    (accepted I args before files).Sublist files := by
  induction files generalizing before with
  | nil => exact .slnil
  | cons file files ih =>
    rw [accepted]
    split
    · exact (ih _).cons_cons _
    · exact (ih _).cons _

/-- The questions of fewer files are among the questions. -/
lemma allQuestions_filter {indexed' : List (Dict Nat (List Nat))}
    (hp : ∀ qidx, presentFiles indexed' qidx ≠ [] → presentFiles indexed qidx ≠ []) :
    allQuestions indexed' = (allQuestions indexed).filter fun qidx => decide (presentFiles indexed' qidx ≠ []) := by
  apply (pairwise_sortedKeys _).eq_of_mem_iff ((pairwise_sortedKeys _).filter _)
  intro qidx
  rw [List.mem_filter, decide_eq_true_eq]
  show qidx ∈ allQuestions indexed' ↔ qidx ∈ allQuestions indexed ∧ _
  rw [mem_allQuestions, mem_allQuestions]
  exact ⟨fun h => ⟨hp qidx h, h⟩, fun h => h.2⟩

/-- The pools of two indexes are the same exactly if they are for each question. -/
lemma pools_eq_iff {indexed' : List (Dict Nat (List Nat))}
    (hp : ∀ qidx, presentFiles indexed' qidx ≠ [] → presentFiles indexed qidx ≠ []) :
    ((allQuestions indexed').filterMap fun qidx => poolOf I args qidx (presentFiles indexed' qidx)) =
        ((allQuestions indexed).filterMap fun qidx => poolOf I args qidx (presentFiles indexed qidx)) ↔
      ∀ qidx, poolOf I args qidx (presentFiles indexed' qidx) = poolOf I args qidx (presentFiles indexed qidx) := by
  have hmem : ∀ (indexed : List (Dict Nat (List Nat))) {qidx : Nat} {p : QuestionPool},
      poolOf I args qidx (presentFiles indexed qidx) = some p ↔ p.questionIndex = qidx ∧
        p ∈ (allQuestions indexed).filterMap fun qidx => poolOf I args qidx (presentFiles indexed qidx) := by
    intro indexed qidx p
    rw [List.mem_filterMap]
    constructor
    · intro h
      refine ⟨poolOf_index h, qidx, mem_allQuestions.2 ?_, h⟩
      intro hnil
      rw [hnil, poolOf_nil] at h
      cases h
    · rintro ⟨rfl, qidx', -, h⟩
      rw [← poolOf_index h] at h
      exact h
  constructor
  · intro he qidx
    ext p
    exact (hmem indexed').trans (he ▸ (hmem indexed).symm)
  · intro h
    rw [allQuestions_filter hp, List.filterMap_filter]
    apply List.filterMap_congr
    intro qidx _
    split
    · exact h qidx
    · next hn =>
      rw [decide_eq_true_eq, not_not] at hn
      rw [← h qidx, hn, poolOf_nil]

/-- The files of the questions without those that are skipped. -/
lemma presentFiles_withoutSkipped (hs : args.suppressParseErrors = true)
    (hm : dirs.mapM (indexQuestionFiles I) = .ok indexed) :
    ∃ indexed', (withoutSkipped I args dirs).mapM (indexQuestionFiles I) = .ok indexed' ∧
      indexed'.length = indexed.length ∧
      (∀ qidx, presentFiles indexed' qidx = accepted I args [] (presentFiles indexed qidx)) ∧
      ∀ qidx, presentFiles indexed' qidx ≠ [] → presentFiles indexed qidx ≠ [] := by
  obtain ⟨indexed', hm', hfiles⟩ := index_withoutSkipped hs hm
  have hpresent : ∀ qidx, presentFiles indexed' qidx = accepted I args [] (presentFiles indexed qidx) := by
    intro qidx
    rw [presentFiles, hfiles, reduceOption_unmarked, presentFiles]
  refine ⟨indexed', hm', ?_, hpresent, fun qidx hne hnil => ?_⟩
  · have hlen := congrArg List.length (hfiles 0)
    rw [List.length_zipWith, length_marks, Nat.min_self, questionFiles, questionFiles, List.length_map,
      List.length_map] at hlen
    exact hlen
  · rw [hpresent, hnil] at hne
    exact hne rfl

/-- Where all run directories are to have each question, they still do exactly if all or none of its files are
skipped. -/
lemma complete_iff {indexed' : List (Dict Nat (List Nat))} (hlen : indexed'.length = indexed.length)
    (hp : ∀ qidx, presentFiles indexed' qidx = accepted I args [] (presentFiles indexed qidx))
    (hc : Complete indexed) :
    Complete indexed' ↔ ∀ qidx, accepted I args [] (presentFiles indexed qidx) = presentFiles indexed qidx ∨
      accepted I args [] (presentFiles indexed qidx) = [] := by
  constructor
  · intro h qidx
    have hsub := accepted_sublist I args [] (presentFiles indexed qidx)
    cases h qidx with
    | inl hnil =>
      rw [hp] at hnil
      exact .inr hnil
    | inr hfull =>
      rw [hp, hlen] at hfull
      refine .inl (hsub.eq_of_length ?_)
      cases hc qidx with
      | inl hnil =>
        rw [hnil]
        rfl
      | inr hall => exact hfull.trans hall.symm
  · intro h qidx
    rw [hp, hlen]
    cases h qidx with
    | inl heq =>
      rw [heq]
      exact hc qidx
    | inr hnil => exact .inl hnil

/-- Skipped files have no influence exactly if they leave nothing behind for any question. -/
lemma noInfluence_iff_leavesNothing (hs : args.suppressParseErrors = true) (dirs : List (List (List Nat))) :
    SkippedHaveNoInfluence I args dirs ↔
      ∀ indexed, dirs.mapM (indexQuestionFiles I) = .ok indexed →
        args.allowMissingQuestions = true ∨ missingReport indexed = [] →
        ∀ qidx, LeavesNothing I args (presentFiles indexed qidx) := by
  constructor
  · intro h indexed hm hok qidx
    rw [missingReport_eq_nil] at hok
    obtain ⟨indexed', hm', hlen, hpresent, hfewer⟩ := presentFiles_withoutSkipped hs hm
    obtain ⟨hsame, -⟩ := h _ ((buildPools_ok hs hm).2 ⟨hok, rfl⟩)
    obtain ⟨hok', hpools⟩ := (buildPools_ok hs hm').1 hsame
    refine ⟨fun hall => ?_, ?_⟩
    · have hc : Complete indexed := hok.resolve_left (hall ▸ Bool.false_ne_true)
      have hc' : Complete indexed' := hok'.resolve_left (hall ▸ Bool.false_ne_true)
      exact (complete_iff hlen hpresent hc).1 hc' qidx
    · have hpool := (pools_eq_iff hfewer).1 hpools.symm qidx
      rw [hpresent] at hpool
      exact (poolOf_accepted_iff qidx _).1 hpool
  · intro h pools hpools
    cases hm : dirs.mapM (indexQuestionFiles I) with
    | error e =>
      unfold buildPools at hpools
      rw [hm] at hpools
      cases hpools
    | ok indexed =>
      obtain ⟨hok, rfl⟩ := (buildPools_ok hs hm).1 hpools
      obtain ⟨indexed', hm', hlen, hpresent, hfewer⟩ := presentFiles_withoutSkipped hs hm
      have hleaves := h indexed hm (by rwa [missingReport_eq_nil])
      constructor
      · apply (buildPools_ok hs hm').2
        constructor
        · cases hall : args.allowMissingQuestions with
          | true => exact .inl rfl
          | false =>
            have hc : Complete indexed := hok.resolve_left (hall ▸ Bool.false_ne_true)
            exact .inr ((complete_iff hlen hpresent hc).2 fun qidx => (hleaves qidx).whole hall)
        · symm
          apply (pools_eq_iff hfewer).2
          intro qidx
          rw [hpresent]
          exact (poolOf_accepted_iff qidx _).2 (hleaves qidx).same
      · intro p hp
        obtain ⟨qidx, -, hpool⟩ := List.mem_filterMap.1 hp
        exact poolOf_even hpool

/-- Two lists of headers give the same question text and the same ground truth. -/
structure SameStored (I : Interpreter) (args : PoolArgs) (before before' : List Header) : Prop where
  question : questionOf before' = questionOf before
  groundTruth : groundTruthOf I args before' = groundTruthOf I args before

/-- The ground truth after one more header. -/
lemma groundTruthOf_append (before : List Header) (h : Header) : groundTruthOf I args (before ++ [h]) =
    (keyEntry I args (before ++ [h])).or ((groundTruthOf I args before).or h.groundTruth) := by
  rw [groundTruthOf, firstGroundTruth_append]
  cases hk : keyEntry I args (before ++ [h]) with
  | some g => rfl
  | none =>
    have hbefore : keyEntry I args before = none := by
      cases hq : questionOf before with
      | none =>
        rw [keyEntry, hq]
        cases args.answerKey <;> rfl
      | some q => rwa [keyEntry_append hq] at hk
    rw [groundTruthOf_unasked hbefore]

namespace SameStored
variable {before' : List Header} {h : Header}

lemma keyEntry (hs : SameStored I args before before') : keyEntry I args before' = keyEntry I args before := by
  unfold Bench.keyEntry
  rw [hs.question]

/-- The same header comes after both. -/
lemma append (hs : SameStored I args before before') (h : Header) :
    SameStored I args (before ++ [h]) (before' ++ [h]) := by
  have hquestion : questionOf (before' ++ [h]) = questionOf (before ++ [h]) := by
    rw [questionOf_append, questionOf_append, hs.question]
  refine ⟨hquestion, ?_⟩
  have hkey : Bench.keyEntry I args (before' ++ [h]) = Bench.keyEntry I args (before ++ [h]) := by
    unfold Bench.keyEntry
    rw [hquestion]
  rw [groundTruthOf_append, groundTruthOf_append, hkey, hs.groundTruth]

/-- A header that leaves nothing comes after one of them. -/
lemma skip (hs : SameStored I args before before') (hl : LeavesNoHeader I args before h) :
    SameStored I args (before ++ [h]) before' := by
  have hquestion : questionOf (before ++ [h]) = questionOf before := by
    rw [questionOf_append]
    rcases hl.question with hn | hsome
    · rw [hn, Option.or_none]
    · obtain ⟨q, hq⟩ := Option.isSome_iff_exists.1 hsome
      rw [hq, Option.some_or]
  refine ⟨hs.question.trans hquestion.symm, hs.groundTruth.trans ?_⟩
  have hkey : Bench.keyEntry I args (before ++ [h]) = Bench.keyEntry I args before := by
    unfold Bench.keyEntry
    rw [hquestion]
  have hfirst : (groundTruthOf I args before).or h.groundTruth = groundTruthOf I args before := by
    rcases hl.groundTruth with hn | hsome
    · rw [hn, Option.or_none]
    · obtain ⟨g, hg⟩ := Option.isSome_iff_exists.1 hsome
      rw [hg, Option.some_or]
  rw [groundTruthOf_append, hkey, hfirst]
  cases hk : Bench.keyEntry I args before with
  | none => rfl
  | some g =>
    rw [groundTruthOf, hk]
    rfl

/-- A file is judged the same after both. -/
lemma verdict (hs : SameStored I args before before') (file : List Nat) :
    verdict I args before' file = verdict I args before file := by
  have happ := hs.append (fileHeader I file)
  unfold Bench.verdict disagrees
  rw [hs.groundTruth, happ.question, happ.groundTruth]

end SameStored

/-- Files whose headers are kept are judged alike without the skipped ones among them, and the headers give the
same. -/
lemma HeadersKept.same {before' : List Header} (hk : HeadersKept I args before files)
    (hs : SameStored I args before before') :
    (verdicts I args before' (accepted I args before files)).map (·.getD .empty) =
        (verdicts I args before files).reduceOption ∧
      SameStored I args (before ++ files.map (fileHeader I))
        (before' ++ (accepted I args before files).map (fileHeader I)) := by
  induction files generalizing before before' with
  | nil =>
    refine ⟨rfl, ?_⟩
    rw [accepted, List.map_nil, List.append_nil, List.append_nil]
    exact hs
  | cons file files ih =>
    obtain ⟨hfile, hrest⟩ := hk
    have happ : ∀ hs : List Header, hs ++ (file :: files).map (fileHeader I) =
        hs ++ [fileHeader I file] ++ files.map (fileHeader I) := by
      intro hs
      rw [List.map_cons, List.append_assoc, List.singleton_append]
    rw [verdicts, accepted, happ]
    cases hv : verdict I args before file with
    | none =>
      rw [List.reduceOption_cons_of_none]
      exact ih hrest (hs.skip (hfile hv))
    | some c =>
      obtain ⟨hsame, hstored⟩ := ih hrest (hs.append (fileHeader I file))
      dsimp only
      rw [List.reduceOption_cons_of_some, verdicts, hs.verdict, hv, List.map_cons, Option.getD_some, hsame]
      refine ⟨rfl, ?_⟩
      have hcons : ∀ hs : List Header, before' ++ fileHeader I file :: hs = before' ++ [fileHeader I file] ++ hs := by
        intro hs
        rw [List.append_assoc, List.singleton_append]
      rw [List.map_cons, hcons]
      exact hstored

/-- If no question loses some of its files only, where it is to be everywhere, and no skipped file leaves what its
header gives, skipped files have no influence. -/
theorem skipped_have_no_influence (I : Interpreter) (args : PoolArgs) (hs : args.suppressParseErrors = true)
    (dirs : List (List (List Nat)))
    (hkept : ∀ indexed, dirs.mapM (indexQuestionFiles I) = .ok indexed → ∀ qidx,
      HeadersKept I args [] (presentFiles indexed qidx) ∧
        (args.allowMissingQuestions = false → accepted I args [] (presentFiles indexed qidx) =
          presentFiles indexed qidx ∨ accepted I args [] (presentFiles indexed qidx) = [])) :
    SkippedHaveNoInfluence I args dirs := by
  refine (noInfluence_iff_leavesNothing hs dirs).2 fun indexed hm _ qidx => ?_
  obtain ⟨hheaders, hwhole⟩ := hkept indexed hm qidx
  obtain ⟨hsame, hstored⟩ := hheaders.same ⟨rfl, rfl⟩
  exact ⟨hwhole, fun _ => ⟨hstored.question, hstored.groundTruth, hsame⟩⟩

/-- ASCII texts, and the default limit on digits. -/
def asciiInterpreter : Interpreter := ⟨.ascii, .ascii, 4300⟩

/-- The arguments for result files that may be malformed or missing. -/
def lenient (answerKey : Option (Dict (List Nat) (List Nat))) : PoolArgs := ⟨true, true, answerKey⟩

/-- An answer key for one question. -/
def oneAnswer : Dict (List Nat) (List Nat) := (∅ : Dict (List Nat) (List Nat)).set (points "x".toList) (points "9".toList)

/-- A file that declares a generation and has none. -/
def emptyFile : List Nat := points "\"question_index\":1,\"question\":\"x\",\"total_traces\":1,\"ground_truth\":\"7\"".toList

/-- A file of one generation, without a question text. -/
def oneTraceFile : List Nat :=
  points "\"question_index\":1,\"is_trace_correct\":true,\"token_length\":3,\"extracted_answer\":\"8\"".toList

/-- A file of one generation with all header fields. -/
def fullFile : List Nat :=
  points "\"question_index\":1,\"question\":\"x\",\"ground_truth\":\"7\",\"is_trace_correct\":true,\"token_length\":3,\"extracted_answer\":\"8\"".toList

set_option maxRecDepth 2000 in
/-- A file that is skipped after one that gave the question text and the ground truth. -/
theorem skipped_have_no_influence_after :
    SkippedHaveNoInfluence asciiInterpreter (lenient none) [[fullFile], [emptyFile], [oneTraceFile]] ∧
      withoutSkipped asciiInterpreter (lenient none) [[fullFile], [emptyFile], [oneTraceFile]] =
        [[fullFile], [], [oneTraceFile]] := by
  refine ⟨skipped_have_no_influence asciiInterpreter (lenient none) rfl _ fun indexed hm qidx => ⟨?_, nofun⟩,
    by decide +kernel⟩
  have hindex : [[fullFile], [emptyFile], [oneTraceFile]].mapM (indexQuestionFiles asciiInterpreter) =
      .ok [(∅ : Dict Nat (List Nat)).set 1 fullFile, (∅ : Dict Nat (List Nat)).set 1 emptyFile,
        (∅ : Dict Nat (List Nat)).set 1 oneTraceFile] := rfl
  rw [hindex] at hm
  cases hm
  by_cases hq : qidx = 1
  · have hall : presentFiles [(∅ : Dict Nat (List Nat)).set 1 fullFile, (∅ : Dict Nat (List Nat)).set 1 emptyFile,
        (∅ : Dict Nat (List Nat)).set 1 oneTraceFile] qidx = [fullFile, emptyFile, oneTraceFile] := by
      simp [presentFiles, questionFiles, Dict.get?_set, hq, List.reduceOption]
    rw [hall]
    refine ⟨fun hv => ?_, fun _ => ⟨.inr rfl, .inr rfl⟩, fun hv => ?_, trivial⟩
    · cases hv
    · cases hv
  · have hnil : presentFiles [(∅ : Dict Nat (List Nat)).set 1 fullFile, (∅ : Dict Nat (List Nat)).set 1 emptyFile,
        (∅ : Dict Nat (List Nat)).set 1 oneTraceFile] qidx = [] := by
      simp [presentFiles, questionFiles, Dict.get?_set, hq, List.reduceOption]
    rw [hnil]
    trivial

/-- The ground truth of a skipped file is pooled, and with an answer key its question text decides which
generations of another file are correct. -/
theorem skipped_file_gives_ground_truth :
    ((lenient none).suppressParseErrors = true ∧
        ¬ SkippedHaveNoInfluence asciiInterpreter (lenient none) [[emptyFile], [oneTraceFile]]) ∧
      (lenient (some oneAnswer)).suppressParseErrors = true ∧
        ¬ SkippedHaveNoInfluence asciiInterpreter (lenient (some oneAnswer)) [[emptyFile], [oneTraceFile]] := by
  refine ⟨⟨rfl, fun h => ?_⟩, rfl, fun h => ?_⟩
  · have hpools : buildPools asciiInterpreter (lenient none) [[emptyFile], [oneTraceFile]] =
        .ok [⟨1, some [120], [true], [3], [some [56]], some [55]⟩] := rfl
    have habsent : buildPools asciiInterpreter (lenient none)
        (withoutSkipped asciiInterpreter (lenient none) [[emptyFile], [oneTraceFile]]) =
        .ok [⟨1, none, [true], [3], [some [56]], none⟩] := rfl
    have hsame := (h _ hpools).1
    rw [habsent] at hsame
    cases hsame
  · have hpools : buildPools asciiInterpreter (lenient (some oneAnswer)) [[emptyFile], [oneTraceFile]] =
        .ok [⟨1, some [120], [false], [3], [some [56]], some [57]⟩] := rfl
    have habsent : buildPools asciiInterpreter (lenient (some oneAnswer))
        (withoutSkipped asciiInterpreter (lenient (some oneAnswer)) [[emptyFile], [oneTraceFile]]) =
        .ok [⟨1, none, [true], [3], [some [56]], none⟩] := rfl
    have hsame := (h _ hpools).1
    rw [habsent] at hsame
    cases hsame

end Gambit.Bench
