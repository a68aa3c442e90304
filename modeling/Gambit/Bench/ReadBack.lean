import Gambit.Bench.Collect

/-!
# Are result files read back as they were written?

The header is searched for in the first 256 KiB of a file, and cutting the text there replaces a cut
character, after which nothing matches.

`result_read_back_iff` states exactly which files are read back: the header fields end in the first 256 KiB,
and no field of a generation straddles the end of a chunk. Both can fail, because the writer bounds neither
questions nor answers.
-/

namespace Gambit.Bench
open Gambit.Lib Utf8

variable {C : Charset} {e : Encoding} {p : FieldPattern} {q : QuestionResult}

/-- The header patterns. -/
def headerPatterns : List FieldPattern :=
  [questionIndexField, questionField, totalTracesField, numCorrectTracesField, groundTruthField]

/-- The entries that a header pattern reads end in the first bytes of the file. -/
def FitsHeader (q : QuestionResult) (p : FieldPattern) : Prop :=
  ∀ f ∈ q.json.hits [p] .points, (encode (q.text.take (f.stop .points))).length ≤ headerBytes

/-- A header pattern finds the first of its entries in the start of the text. -/
lemma headerGroup_eq (C : Charset) (hj : Apt [p] q.json) :
    ∃ k, (FitsHeader q p ↔ ∀ f ∈ q.json.hits [p] .points, f.stop .points ≤ k) ∧
      headerGroup C p (replace (q.file.take headerBytes)) =
        ((q.json.hits [p] .points).filterMap (·.found [p] .points k)).head?.map (·.2) := by
  obtain ⟨k, r, hsteps, hk⟩ := steps_take_encode q.text headerBytes
  have hlen : (Encoding.points.encode (q.json.dump 0)).length = q.text.length := by
    rw [Encoding.points_encode, points, List.length_map]
    rfl
  refine ⟨k, forall₂_congr fun f hf => ?_, ?_⟩
  · -- the entry ends in the text
    obtain ⟨⟨x, hl, hx, -⟩, -⟩ := (field_at (mem_hits.1 hf).1).1
    have hend := congrArg List.length hl
    rw [hlen, List.length_append, List.length_append] at hend
    have hmin : min (f.stop .points) q.text.length = f.stop .points := by
      rw [Field.stop]
      omega
    have h := hk (f.stop .points)
    rwa [hmin] at h
  · have htext : replace (q.file.take headerBytes) =
        (Encoding.points.encode (q.json.dump 0)).take k ++ List.replicate r Utf8.replacement := by
      rw [replace, QuestionResult.file, hsteps, List.map_append, List.map_map, List.map_replicate,
        Encoding.points_encode, points, points, List.map_take]
      congr 1
      exact (List.map_congr_left fun _ _ => rfl).trans (List.map_id _)
    have hsearch := search_replicate (C := C) (A := [p]) ((Encoding.points.encode (q.json.dump 0)).take k) r
    rw [search_dump hj, ← htext] at hsearch
    rw [headerGroup, ← hsearch, Option.map_map]
    rfl

/-- The entry of a pattern that has one. -/
lemma hit_of_pairs {x : Text × Json} (h : (q.json.hits [p] e).map (fun f => (f.key, f.value)) = [x]) :
    ∃ f, q.json.hits [p] e = [f] ∧ p.Fits f ∧ f.value = x.2 := by
  obtain ⟨f, hf, hx⟩ := List.map_eq_singleton_iff.1 h
  have hmem : f ∈ q.json.hits [p] e := by
    rw [hf]
    exact .head _
  obtain ⟨p', hp', hfit⟩ := (mem_hits.1 hmem).2
  obtain rfl := List.mem_singleton.1 hp'
  exact ⟨f, hf, hfit, congrArg Prod.snd hx⟩

/-- A number is read exactly if its entry ends in time. -/
lemma header_number (hj : Apt [p] q.json) (hk : p.kind = .digits) {x : Text × Json} {n : Nat} (hx : x.2 = natJson n)
    (h : (q.json.hits [p] .points).map (fun f => (f.key, f.value)) = [x]) :
    (headerGroup C p (replace (q.file.take headerBytes))).map C.int = some n ↔ FitsHeader q p := by
  obtain ⟨k, hfits, hgroup⟩ := headerGroup_eq C hj
  obtain ⟨f, hf, hfit, hv⟩ := hit_of_pairs h
  have hacc := hfit.2
  rw [hk] at hacc
  obtain ⟨m, hm, hint, hne⟩ := int_found (C := C) (e := .points) hacc f.level
  obtain rfl : m = n := Int.ofNat.inj (Json.int.inj (hm.symm.trans (hv.trans hx)))
  rw [hfits, hgroup, hf, List.forall_mem_singleton]
  constructor
  · intro hread
    by_contra hcut
    obtain hnone | ⟨-, i, hi, hlt, hsome⟩ := found_cut hj (.head _) hfit (Nat.not_le.1 hcut)
    · rw [List.filterMap_cons_none hnone] at hread
      cases hread
    · rw [List.filterMap_cons_some hsome] at hread
      exact hne i hi hlt (Option.some.inj hread)
  · intro hend
    rw [List.filterMap_cons_some (found_whole hj (.head _) hfit hend)]
    exact congrArg some hint

/-- A text is read exactly if its entry ends in time. -/
lemma header_string (hj : Apt [p] q.json) (hk : p.kind = .string) {x : Text × Json} {t : Text} (hx : x.2 = .str t)
    (h : (q.json.hits [p] .points).map (fun f => (f.key, f.value)) = [x]) :
    (headerGroup C p (replace (q.file.take headerBytes))).bind loadsString = some (points t) ↔ FitsHeader q p := by
  obtain ⟨k, hfits, hgroup⟩ := headerGroup_eq C hj
  obtain ⟨f, hf, hfit, hv⟩ := hit_of_pairs h
  rw [hfits, hgroup, hf, List.forall_mem_singleton]
  constructor
  · intro hread
    by_contra hcut
    obtain hnone | ⟨hdigits, -⟩ := found_cut hj (.head _) hfit (Nat.not_le.1 hcut)
    · rw [List.filterMap_cons_none hnone] at hread
      cases hread
    · rw [hk] at hdigits
      cases hdigits
  · intro hend
    have hquote : Encoding.points.encode ((Json.str t).dump f.level) = points (Json.quote t) := Encoding.points_encode _
    rw [List.filterMap_cons_some (found_whole hj (.head _) hfit hend), hv, hx, hquote]
    exact loadsString_quote t

/-- Nothing is read for a pattern without an entry. -/
lemma header_null (hj : Apt [p] q.json) (h : (q.json.hits [p] .points).map (fun f => (f.key, f.value)) = []) :
    headerGroup C p (replace (q.file.take headerBytes)) = none ∧ FitsHeader q p := by
  obtain ⟨k, hfits, hgroup⟩ := headerGroup_eq C hj
  have hf := List.map_eq_nil_iff.1 h
  rw [hfits, hgroup, hf]
  exact ⟨rfl, nofun⟩

/-- No field of a generation has the name of a header field. -/
lemma generation_keys (g : Generation) : ∀ x ∈ g.fields, ∀ p ∈ headerPatterns, x.1 ≠ p.name := by
  have hkeys : ∀ k ∈ g.fields.map (·.1), ∀ p ∈ headerPatterns, k ≠ p.name := by
    show ∀ k ∈ ["token_length".toList, "extracted_answer".toList, "is_trace_correct".toList],
      ∀ p ∈ headerPatterns, k ≠ p.name
    decide
  exact fun x hx => hkeys _ (List.mem_map_of_mem hx)

/-- A header field is accepted by the pattern with its name, or is a missing ground truth. -/
lemma header_typed (q : QuestionResult) : ∀ x ∈ q.headerFields, ∀ p ∈ headerPatterns, x.1 = p.name →
    p.kind.accepts x.2 ∨ p.kind.rejects x.2 := by
  have hnodup : (headerPatterns.map (·.name)).Nodup := by decide
  -- the pattern is the one of the field
  have honly : ∀ {k : Text} {v : Json} (p₀ : FieldPattern), p₀ ∈ headerPatterns → k = p₀.name →
      (p₀.kind.accepts v ∨ p₀.kind.rejects v) → ∀ p ∈ headerPatterns, k = p.name →
      p.kind.accepts v ∨ p.kind.rejects v := by
    intro k v p₀ h₀ hk hv p hp hkey
    obtain rfl := List.inj_on_of_nodup_map hnodup h₀ hp (hk.symm.trans hkey)
    exact hv
  have hgt : groundTruthField.kind.accepts (.ofOption .str q.groundTruth) ∨
      groundTruthField.kind.rejects (.ofOption .str q.groundTruth) := by
    cases q.groundTruth with
    | none => exact .inr rfl
    | some t => exact .inl rfl
  unfold QuestionResult.headerFields
  exact List.forall_mem_cons.2 ⟨honly questionIndexField (.head _) rfl (.inl rfl),
    List.forall_mem_cons.2 ⟨honly questionField (.tail _ (.head _)) rfl (.inl rfl),
    List.forall_mem_cons.2 ⟨honly groundTruthField (.tail _ (.tail _ (.tail _ (.tail _ (.head _))))) rfl hgt,
    List.forall_mem_cons.2 ⟨honly numCorrectTracesField (.tail _ (.tail _ (.tail _ (.head _)))) rfl (.inl rfl),
    List.forall_mem_cons.2 ⟨honly totalTracesField (.tail _ (.tail _ (.head _))) rfl (.inl rfl), nofun⟩⟩⟩⟩⟩

/-- The header fields are told by their kinds. -/
lemma apt_headerPattern (q : QuestionResult) (hp : p ∈ headerPatterns) : Apt [p] q.json := by
  have hnames : ∀ p ∈ headerPatterns, p.name ∈ fieldNames := by decide
  apply apt_result
  · intro p₁ h₁ p₂ h₂ _
    exact (List.mem_singleton.1 h₁).trans (List.mem_singleton.1 h₂).symm
  · intro p' hp'
    obtain rfl := List.mem_singleton.1 hp'
    exact hnames _ hp
  · intro x hx p' hp' hkey
    obtain rfl := List.mem_singleton.1 hp'
    rw [picks_result, List.mem_append, List.mem_flatMap] at hx
    obtain hx | ⟨g, -, hx⟩ := hx
    · exact header_typed q x hx _ hp hkey
    · exact absurd hkey (generation_keys g x hx _ hp)

/-- The entries of a header pattern are header fields. -/
lemma hits_headerPattern (q : QuestionResult) (hp : p ∈ headerPatterns) :
    (q.json.hits [p] e).map (fun f => (f.key, f.value)) = q.headerFields.filter (acceptsEntry [p]) := by
  have hnames : ∀ p ∈ headerPatterns, p.name ∈ fieldNames := by decide
  have hname : ∀ p' ∈ [p], p'.name ∈ fieldNames := by
    intro p' hp'
    obtain rfl := List.mem_singleton.1 hp'
    exact hnames _ hp
  have hgen : (q.generationResults.flatMap Generation.fields).filter (acceptsEntry [p]) = [] := by
    rw [List.filter_eq_nil_iff]
    intro x hx h
    obtain ⟨g, -, hx⟩ := List.mem_flatMap.1 hx
    obtain ⟨p', hp', hacc⟩ := List.any_eq_true.1 h
    obtain rfl := List.mem_singleton.1 hp'
    rw [Bool.and_eq_true, decide_eq_true_eq] at hacc
    exact generation_keys g x hx _ hp hacc.1
  rw [hits_pairs hname, picks_result, List.filter_append, hgen, List.append_nil]

/-- The header of a result. -/
def QuestionResult.header (q : QuestionResult) : Header where
  questionIndex := some q.questionIndex
  question := some (points q.question)
  totalTraces := some q.totalTraces
  numCorrectTraces := some q.numCorrectTraces
  groundTruth := q.groundTruth.map points

/-- The header fields of a result end in the first bytes of its file. -/
def HeaderFits (q : QuestionResult) : Prop := ∀ p ∈ headerPatterns, FitsHeader q p

/-- The header that is read is the one that was written exactly if its fields end in the first bytes. -/
theorem parseHeader_eq_iff (C : Charset) (q : QuestionResult) :
    parseHeaderFields C q.file = q.header ↔ HeaderFits q := by
  have hj : ∀ p ∈ headerPatterns, Apt [p] q.json := fun _ => apt_headerPattern q
  have hhits : ∀ p ∈ headerPatterns, (q.json.hits [p] .points).map (fun f => (f.key, f.value)) =
      q.headerFields.filter (acceptsEntry [p]) := fun _ => hits_headerPattern q
  simp only [headerPatterns, List.forall_mem_cons] at hj hhits
  obtain ⟨j₁, j₂, j₃, j₄, j₅, -⟩ := hj
  obtain ⟨h₁, h₂, h₃, h₄, h₅, -⟩ := hhits
  have e₁ := header_number (C := C) j₁ rfl (x := ("question_index".toList, natJson q.questionIndex)) rfl h₁
  have e₂ := header_string (C := C) j₂ rfl (x := ("question".toList, .str q.question)) rfl h₂
  have e₃ := header_number (C := C) j₃ rfl (x := ("total_traces".toList, natJson q.totalTraces)) rfl h₃
  have e₄ := header_number (C := C) j₄ rfl (x := ("num_correct_traces".toList, natJson q.numCorrectTraces)) rfl h₄
  have e₅ : (headerGroup C groundTruthField (replace (q.file.take headerBytes))).bind loadsString =
      q.groundTruth.map points ↔ FitsHeader q groundTruthField := by
    cases hgt : q.groundTruth with
    | none =>
      have hnil : q.headerFields.filter (acceptsEntry [groundTruthField]) = [] := by
        unfold QuestionResult.headerFields
        rw [hgt]
        rfl
      obtain ⟨hgroup, hfits⟩ := header_null (C := C) j₅ (h₅.trans hnil)
      rw [hgroup]
      exact iff_of_true rfl hfits
    | some t =>
      have hone : q.headerFields.filter (acceptsEntry [groundTruthField]) = [("ground_truth".toList, .str t)] := by
        unfold QuestionResult.headerFields
        rw [hgt]
        rfl
      exact header_string j₅ rfl rfl (h₅.trans hone)
  rw [parseHeaderFields, QuestionResult.header, Header.mk.injEq, HeaderFits, headerPatterns]
  simp only [List.forall_mem_cons]
  exact and_congr e₁ (and_congr e₂ (and_congr e₃ (and_congr e₄ ⟨fun h => ⟨e₅.1 h, nofun⟩, fun h => e₅.2 h.1⟩)))

/-- A file is read back: the header and the lists are the ones that were written, and no check rejects it. -/
def ReadBack (C : Charset) (q : QuestionResult) : Prop :=
  parseHeaderFields C q.file = q.header ∧ collectTraceFields q.file = q.collected ∧
    ∀ recompute, ∃ flags, checkFile recompute (parseHeaderFields C q.file) (collectTraceFields q.file) = .ok flags

/-- The checks accept what the benchmark wrote. -/
lemma check_written (tools : Tools) (run : Run) (recompute : Option (List (Option (List Nat)) → List Bool)) :
    ∃ flags, checkFile recompute (run.questionResult tools).header (run.questionResult tools).collected = .ok flags := by
  have hlengths : ¬ ((run.questionResult tools).collected.flags.length ≠
        (run.questionResult tools).collected.tokenLengths.length ∨
      (run.questionResult tools).collected.flags.length ≠
        (run.questionResult tools).collected.extractedAnswers.length) := by
    simp only [QuestionResult.collected, List.length_map, ne_eq, not_true_eq_false, or_self, not_false_eq_true]
  have htotal : ¬ (run.questionResult tools).totalTraces ≠ (run.questionResult tools).collected.flags.length := by
    simp only [QuestionResult.collected, Run.questionResult, List.length_map, ne_eq, not_true_eq_false,
      not_false_eq_true]
  have hcorrect : ¬ (run.questionResult tools).numCorrectTraces ≠
      (run.questionResult tools).collected.flags.count true := by
    simp only [QuestionResult.collected, Run.questionResult, List.count, List.countP_map, Function.comp_def, beq_true,
      ne_eq, not_true_eq_false, not_false_eq_true]
  unfold checkFile
  rw [if_neg hlengths]
  show ∃ flags, (if (run.questionResult tools).totalTraces ≠ _ then _ else checkFile.checkCorrect recompute _ _) = _
  rw [if_neg htotal]
  cases recompute with
  | some f => exact ⟨_, rfl⟩
  | none =>
    refine ⟨(run.questionResult tools).collected.flags, ?_⟩
    show (if (run.questionResult tools).numCorrectTraces ≠ _ then _ else _) = _
    rw [if_neg hcorrect]

/-- The file of a question is read back exactly if its header fields end in the first 256 KiB and no field of a
generation starts more than 64 KiB before the end of a chunk and ends after it. -/
theorem result_read_back_iff (tools : Tools) (run : Run) :
    ReadBack tools.chars (run.questionResult tools) ↔ HeaderFits (run.questionResult tools) ∧
      ∀ f ∈ (run.questionResult tools).json.hits traceFields .utf8, ¬ Straddles f := by
  rw [← parseHeader_eq_iff tools.chars, ← collect_eq_iff]
  constructor
  · exact fun h => ⟨h.1, h.2.1⟩
  · rintro ⟨hheader, hlists⟩
    refine ⟨hheader, hlists, fun recompute => ?_⟩
    rw [hheader, hlists]
    exact check_written tools run recompute

/-- A field of at most 64 KiB is never lost. -/
lemma not_straddles {f : Field} (h : (f.text .utf8).length ≤ keep) : ¬ Straddles f := by
  rintro ⟨m, h₁, h₂⟩
  rw [Field.stop] at h₂
  omega

/-- A field that is longer than a chunk and these 64 KiB is always lost. -/
lemma straddles_of_long {f : Field} (h : chunkSize + keep < (f.text .utf8).length) : Straddles f := by
  refine ⟨(f.start + keep) / chunkSize + 1, ?_, ?_⟩
  · simp only [chunkSize, keep]
    omega
  · rw [Field.stop]
    simp only [chunkSize, keep] at h ⊢
    omega

/-- A text is stored in at least one byte a character. -/
lemma length_le_escape (t : Text) : t.length ≤ (encode (Json.escape t)).length := by
  induction t with
  | nil => exact Nat.zero_le _
  | cons c t ih =>
    have hchar : 1 ≤ (Encoding.utf8.encode (Json.escapeChar c)).length := by
      have hunits : ∀ d, 1 ≤ (Encoding.utf8.units d).length := by
        intro d
        rcases Nat.lt_or_ge d.toNat 128 with hd | hd
        · rw [Encoding.utf8.ascii d hd]
          exact le_rfl
        · exact List.length_pos_iff.2 (Encoding.utf8.wide d hd).1
      obtain ⟨d, y, hc, -⟩ | ⟨hc, -⟩ := escapeChar_form c
      · rw [hc, Encoding.encode_cons, List.length_append]
        exact (hunits _).trans (Nat.le_add_right _ _)
      · rw [hc, Encoding.encode_cons, List.length_append]
        exact (hunits _).trans (Nat.le_add_right _ _)
    have hsplit : encode (Json.escape (c :: t)) =
        Encoding.utf8.encode (Json.escapeChar c) ++ encode (Json.escape t) := by
      rw [Json.escape_cons]
      exact Encoding.utf8.encode_append _ _
    rw [hsplit, List.length_append, List.length_cons]
    omega

/-- A generation with an answer that is longer than a chunk and 64 KiB is not read back. -/
lemma not_collect_of_long {g : Generation} (hg : g ∈ q.generationResults) {t : Text} (ht : g.extractedAnswer = some t)
    (hlong : chunkSize + keep ≤ t.length) : collectTraceFields q.file ≠ q.collected := by
  have hmem : ("extracted_answer".toList, Json.str t) ∈
      (q.json.hits traceFields .utf8).map fun f => (f.key, f.value) := by
    rw [hits_traceFields]
    refine List.mem_flatMap.2 ⟨g, hg, ?_⟩
    rw [Generation.fields, ht]
    exact .tail _ (.head _)
  obtain ⟨f, hf, hkv⟩ := List.mem_map.1 hmem
  have hvalue : f.value = .str t := congrArg Prod.snd hkv
  rw [ne_eq, collect_eq_iff]
  intro h
  refine h f hf (straddles_of_long ?_)
  have hquote : Encoding.utf8.encode ((Json.str t).dump f.level) = 34 :: (encode (Json.escape t) ++ [34]) :=
    encode_quote t
  have hlen := length_le_escape t
  rw [Field.text, hvalue, hquote]
  simp only [List.length_append, List.length_cons, List.length_nil]
  omega

/-- Tools that find no answers that are not boxed. -/
def plainTools : Tools where
  chars := .ascii
  decode _ := []
  phrases _ := none
  equalFunc a b := decide (a = b)
  weightedMajorityVote answers _ := answers.head?

/-- A trace whose boxed answer is never closed. -/
def openOutput (n : Nat) : Output where
  text := "boxed\x7b".toList ++ List.replicate n 'a'
  tokenIds := []
  finishReason := some "length".toList
  stopReason := none
  finalScore := none
  scoreHistory := none
  gambitIsBranch := false
  gambitParentId := none
  gambitBranchDepth := 0

/-- A question with one such trace. -/
def openRun (n : Nat) : Run where
  question := []
  groundTruth := none
  questionIndex := 0
  enableBranching := false
  treeExport := none
  requestId := none
  outputs := [openOutput n]
  generationTime := unitWeight

/-- The answer runs to the end of the trace. -/
lemma open_answer (n : Nat) : extractAnswer plainTools (openOutput n).text = some (List.replicate n 'a') := by
  have hafter : ∀ n, afterLast "boxed".toList (List.replicate n 'a') = none := by
    intro n
    induction n with
    | zero => rfl
    | succ n ih =>
      rw [List.replicate_succ, afterLast, ih]
      rfl
  have hboxed : afterLast "boxed".toList (openOutput n).text = some ('{' :: List.replicate n 'a') := by
    show afterLast "boxed".toList ('b' :: 'o' :: 'x' :: 'e' :: 'd' :: '{' :: List.replicate n 'a') = _
    simp only [afterLast, hafter n, Option.none_or]
    rfl
  have hbrace : ∀ n, upToBrace 1 (List.replicate n 'a') = List.replicate n 'a' := by
    intro n
    induction n with
    | zero => rfl
    | succ n ih =>
      rw [List.replicate_succ, upToBrace, ih]
      rfl
  have hdrop : ∀ n, (List.replicate n 'a').dropWhile (fun c => Charset.ascii.space c.toNat) = List.replicate n 'a' := by
    intro n
    cases n <;> rfl
  have hstrip : strip .ascii (List.replicate n 'a') = List.replicate n 'a' := by
    rw [strip, hdrop, List.reverse_replicate, hdrop, List.reverse_replicate]
  rw [extractAnswer, hboxed]
  show some (strip .ascii (upToBrace 1 (List.replicate n 'a'))) = _
  rw [hbrace, hstrip]

/-- The answer of this trace is lost. -/
theorem open_answer_lost : ¬ ∀ (tools : Tools) (run : Run), ReadBack tools.chars (run.questionResult tools) := by
  have hlost : ∀ n, chunkSize + keep ≤ n → ¬ ReadBack .ascii ((openRun n).questionResult plainTools) := by
    intro n hn h
    have hgen : (openOutput n).generation plainTools (openRun n) ∈
        ((openRun n).questionResult plainTools).generationResults := .head _
    refine not_collect_of_long hgen (open_answer n) ?_ h.2.1
    rwa [List.length_replicate]
  exact fun h => hlost (chunkSize + keep) le_rfl (h plainTools (openRun (chunkSize + keep)))

end Gambit.Bench
