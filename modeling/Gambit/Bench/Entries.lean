import Gambit.Bench.PassAtN

/-!
# The fields in a result file

Which entries of a result have the name of a field that is read, and a value that is no object: the header
fields at its top, and three in each generation. The ids of the tree's nodes may be any strings, but they
are keys of objects, and no other key depends on the run.
-/

namespace Gambit.Bench
open Gambit.Lib

/-- The names of all fields that are read. -/
def fieldNames : List Text :=
  ["question_index".toList, "question".toList, "total_traces".toList, "num_correct_traces".toList,
    "ground_truth".toList, "is_trace_correct".toList, "token_length".toList, "extracted_answer".toList]

/-- Is a value an object? -/
def isDict : Json → Bool
  | .dict _ => true
  | _ => false

/-- An entry that may be taken for a field. -/
def isPick (x : Text × Json) : Bool := decide (x.1 ∈ fieldNames) && !isDict x.2

/-- The entries of a value that may be taken for fields. -/
def picks (j : Json) : List (Text × Json) := j.entries.filter isPick

/-- A value none of whose entries may be taken for a field. -/
structure Tame (j : Json) : Prop where
  plain : j.Plain
  picks : picks j = []

lemma entries_ofEntries (es : List (Text × Json)) :
    (Json.ofEntries es).entries = es.flatMap fun x => x :: x.2.entries := by
  induction es with
  | nil => rfl
  | cons x es ih =>
    rw [List.flatMap_cons, ← ih]
    rfl

lemma entries_ofItems (xs : List Json) : (Json.ofItems xs).entries = xs.flatMap Json.entries := by
  induction xs with
  | nil => rfl
  | cons j xs ih =>
    rw [List.flatMap_cons, ← ih]
    rfl

lemma picks_ofEntries_cons (k : Text) (v : Json) (es : List (Text × Json)) :
    picks (.ofEntries ((k, v) :: es)) =
      (if isPick (k, v) then [(k, v)] else []) ++ (picks v ++ picks (.ofEntries es)) := by
  simp only [picks, entries_ofEntries, List.flatMap_cons, List.filter_append, List.filter_cons]
  split_ifs <;> rfl

/-- An entry that is no field. -/
lemma picks_ofEntries_skip {k : Text} {v : Json} (hk : k ∉ fieldNames) (es : List (Text × Json)) :
    picks (.ofEntries ((k, v) :: es)) = picks v ++ picks (.ofEntries es) := by
  have h : isPick (k, v) = false := by
    rw [isPick, decide_eq_false hk, Bool.false_and]
  rw [picks_ofEntries_cons, h]
  rfl

lemma picks_ofItems (xs : List Json) : picks (.ofItems xs) = xs.flatMap picks := by
  rw [picks, entries_ofItems, List.filter_flatMap]
  rfl

/-- An object is plain if the keys with quotes in them are keys of objects. -/
lemma plain_ofEntries {es : List (Text × Json)}
    (h : ∀ x ∈ es, ('"' ∈ x.1 → ∃ es', x.2 = .dict es') ∧ x.2.Plain) : (Json.ofEntries es).Plain := by
  induction es with
  | nil => trivial
  | cons x es ih =>
    obtain ⟨hk, hv⟩ := h x (.head _)
    exact ⟨hk, hv, ih fun y hy => h y (.tail _ hy)⟩

lemma plain_ofItems {xs : List Json} (h : ∀ j ∈ xs, j.Plain) : (Json.ofItems xs).Plain := by
  induction xs with
  | nil => trivial
  | cons j xs ih => exact ⟨h j (.head _), ih fun y hy => h y (.tail _ hy)⟩

lemma tame_null : Tame .null := ⟨trivial, rfl⟩

lemma tame_bool (b : Bool) : Tame (.bool b) := ⟨trivial, rfl⟩

lemma tame_int (n : Int) : Tame (.int n) := ⟨trivial, rfl⟩

lemma tame_float (f : FloatText) : Tame (.float f) := ⟨trivial, rfl⟩

lemma tame_str (t : Text) : Tame (.str t) := ⟨trivial, rfl⟩

lemma tame_ofOption {α : Type} {f : α → Json} (h : ∀ a, Tame (f a)) (o : Option α) : Tame (.ofOption f o) := by
  cases o with
  | none => exact tame_null
  | some a => exact h a

lemma tame_stopReason (r : StopReason) : Tame r.json := by
  cases r with
  | token n => exact tame_int n
  | text t => exact tame_str t

lemma tame_ofItems {xs : List Json} (h : ∀ j ∈ xs, Tame j) : Tame (.ofItems xs) where
  plain := plain_ofItems fun j hj => (h j hj).plain
  picks := by
    rw [picks_ofItems, List.flatMap_eq_nil_iff]
    exact fun j hj => (h j hj).picks

lemma tame_items {α : Type} {f : α → Json} (h : ∀ a, Tame (f a)) (xs : List α) : Tame (.ofItems (xs.map f)) :=
  tame_ofItems fun j hj => by
    obtain ⟨a, -, rfl⟩ := List.mem_map.1 hj
    exact h a

lemma tame_floats (xs : List FloatText) : Tame (floatsJson xs) := tame_items tame_float xs

/-- A key that is no field and has no quote in it. -/
def isInert (k : Text) : Bool := decide (k ∉ fieldNames) && decide ('"' ∉ k)

/-- An object with inert keys. -/
lemma tame_ofEntries {es : List (Text × Json)} (hk : (es.map (·.1)).all isInert) (hv : ∀ x ∈ es, Tame x.2) :
    Tame (.ofEntries es) := by
  have hinert : ∀ x ∈ es, x.1 ∉ fieldNames ∧ '"' ∉ x.1 := fun x hx => by
    have h := List.all_eq_true.1 hk _ (List.mem_map_of_mem hx)
    rw [isInert, Bool.and_eq_true, decide_eq_true_eq, decide_eq_true_eq] at h
    exact h
  refine ⟨plain_ofEntries fun x hx => ⟨fun h => absurd h (hinert x hx).2, (hv x hx).plain⟩, ?_⟩
  clear hk
  induction es with
  | nil => rfl
  | cons x es ih =>
    obtain ⟨k, v⟩ := x
    rw [picks_ofEntries_skip (hinert _ (.head _)).1, (hv _ (.head _)).picks,
      ih (fun y hy => hv y (.tail _ hy)) fun y hy => hinert y (.tail _ hy)]
    rfl

/-- Tame values in a list of entries. -/
lemma tame_cons {k : Text} {v : Json} {es : List (Text × Json)} (h : Tame v) (hes : ∀ x ∈ es, Tame x.2) :
    ∀ x ∈ (k, v) :: es, Tame x.2 := by
  intro x hx
  obtain rfl | hx := List.mem_cons.1 hx
  · exact h
  · exact hes x hx

/-- The statistics hold no field. -/
lemma tame_stats (s : Stats) : Tame (.ofEntries s.entries) :=
  tame_ofEntries rfl <|
    tame_cons (tame_int _) <| tame_cons (tame_int _) <| tame_cons (tame_int _) <|
    tame_cons (tame_int _) <| tame_cons (tame_int _) <| tame_cons (tame_int _) <|
    tame_cons (tame_int _) <| tame_cons (tame_int _) <| tame_cons (tame_int _) nofun

lemma tame_nat (n : Nat) : Tame (natJson n) := tame_int n

/-- The data of a node hold no field. -/
lemma tame_node (n : NodeData) : Tame (.ofEntries n.entries) := by
  have hids : Tame (.ofOption (fun ids => .ofItems (ids.map natJson)) n.outputTokenIds) :=
    tame_ofOption (tame_items tame_nat) _
  have hhidden : ∀ x ∈ (n.hiddenState.map fun hs => ("hidden_state".toList, floatsJson hs)).toList, Tame x.2 := by
    intro x hx
    cases h : n.hiddenState with
    | none =>
      rw [h] at hx
      cases hx
    | some hs =>
      rw [h] at hx
      obtain rfl := List.mem_singleton.1 hx
      exact tame_floats hs
  apply tame_ofEntries
  · cases h : n.hiddenState <;> simp only [NodeData.entries, h] <;> rfl
  · exact tame_cons (tame_str _) <| tame_cons (tame_ofOption tame_str _) <| tame_cons (tame_int _) <|
      tame_cons (tame_int _) <| tame_cons (tame_int _) <| tame_cons (tame_int _) <|
      tame_cons (tame_floats _) <| tame_cons (tame_ofOption tame_float _) <|
      tame_cons (tame_ofOption tame_float _) <| tame_cons (tame_bool _) <| tame_cons (tame_bool _) <|
      tame_cons (tame_bool _) <| tame_cons (tame_items tame_str _) <| tame_cons (tame_int _) <|
      tame_cons hids <| tame_cons (tame_ofOption tame_str _) <|
      tame_cons (tame_ofOption tame_stopReason _) <| tame_cons (tame_ofOption tame_float _) hhidden

/-- A completed trace holds no field. -/
lemma tame_completedTrace (t : CompletedTrace) : Tame (.ofEntries t.entries) :=
  tame_ofEntries rfl <|
    tame_cons (tame_str _) <| tame_cons (tame_ofOption tame_str _) <| tame_cons (tame_int _) <|
    tame_cons (tame_str _) <| tame_cons (tame_int _) <| tame_cons (tame_ofOption tame_float _) <|
    tame_cons (tame_ofOption tame_str _) <| tame_cons (tame_ofOption tame_stopReason _) nofun

/-- An exported tree holds no field, whatever the ids of its nodes are. -/
lemma tame_tree (t : TreeExport) : Tame (.ofEntries t.entries) := by
  have hnodes : Tame (.ofEntries (t.nodes.map fun x => (x.1, .ofEntries x.2.entries))) := by
    constructor
    · apply plain_ofEntries
      intro x hx
      obtain ⟨y, -, rfl⟩ := List.mem_map.1 hx
      exact ⟨fun _ => ⟨_, rfl⟩, (tame_node y.2).plain⟩
    · induction t.nodes with
      | nil => rfl
      | cons y nodes ih =>
        have hpick : isPick (y.1, .ofEntries y.2.entries) = false := Bool.and_false _
        rw [List.map_cons, picks_ofEntries_cons, hpick, (tame_node y.2).picks, ih]
        rfl
  exact tame_ofEntries rfl <|
    tame_cons (tame_stats _) <| tame_cons hnodes <| tame_cons (tame_items tame_str _) <|
    tame_cons (tame_items tame_completedTrace _) nofun

/-- The fields of a generation. -/
def Generation.fields (g : Generation) : List (Text × Json) :=
  [("token_length".toList, natJson g.tokenLength), ("extracted_answer".toList, .ofOption .str g.extractedAnswer),
   ("is_trace_correct".toList, .bool g.isTraceCorrect)]

/-- The fields of the header. -/
def QuestionResult.headerFields (q : QuestionResult) : List (Text × Json) :=
  [("question_index".toList, natJson q.questionIndex), ("question".toList, .str q.question),
   ("ground_truth".toList, .ofOption .str q.groundTruth), ("num_correct_traces".toList, natJson q.numCorrectTraces),
   ("total_traces".toList, natJson q.totalTraces)]

/-- An entry that is no field, with a tame value. -/
lemma picks_skip {k : Text} {v : Json} (hk : k ∉ fieldNames) (hv : Tame v) (es : List (Text × Json)) :
    picks (.ofEntries ((k, v) :: es)) = picks (.ofEntries es) := by
  rw [picks_ofEntries_skip hk, hv.picks]
  rfl

/-- An entry that is a field, with a tame value. -/
lemma picks_field {k : Text} {v : Json} (hk : k ∈ fieldNames) (hd : isDict v = false) (hv : Tame v)
    (es : List (Text × Json)) : picks (.ofEntries ((k, v) :: es)) = (k, v) :: picks (.ofEntries es) := by
  have h : isPick (k, v) = true := by
    rw [isPick, decide_eq_true hk, hd]
    rfl
  rw [picks_ofEntries_cons, h, hv.picks]
  rfl

/-- A string or nothing is no object. -/
lemma isDict_option (o : Option Text) : isDict (.ofOption .str o) = false := by
  cases o <;> rfl

/-- Which entries of a generation are fields. -/
lemma picks_generation (g : Generation) : picks (.ofEntries g.entries) = g.fields := by
  have hrest : ∀ pre : List (Text × Json), (∀ es, picks (.ofEntries (pre ++ es)) = picks (.ofEntries es)) →
      picks (.ofEntries (("token_length".toList, natJson g.tokenLength) :: (pre ++
        [("generated_text".toList, .str g.generatedText),
         ("finish_reason".toList, .ofOption .str g.finishReason),
         ("stop_reason".toList, .ofOption StopReason.json g.stopReason),
         ("final_score".toList, .ofOption .float g.finalScore),
         ("score_history".toList, floatsJson g.scoreHistory),
         ("prompt_index".toList, natJson g.promptIndex),
         ("request_id".toList, .ofOption .str g.requestId),
         ("extracted_answer".toList, .ofOption .str g.extractedAnswer),
         ("is_trace_correct".toList, .bool g.isTraceCorrect),
         ("gambit_is_branch".toList, .bool g.gambitIsBranch),
         ("gambit_parent_id".toList, .ofOption .str g.gambitParentId),
         ("gambit_branch_depth".toList, natJson g.gambitBranchDepth)]))) = g.fields := by
    intro pre hpre
    rw [picks_field (by decide) rfl (tame_nat _), hpre, picks_skip (by decide) (tame_str _),
      picks_skip (by decide) (tame_ofOption tame_str _), picks_skip (by decide) (tame_ofOption tame_stopReason _),
      picks_skip (by decide) (tame_ofOption tame_float _), picks_skip (by decide) (tame_floats _),
      picks_skip (by decide) (tame_nat _), picks_skip (by decide) (tame_ofOption tame_str _),
      picks_field (by decide) (isDict_option _) (tame_ofOption tame_str _), picks_field (by decide) rfl (tame_bool _),
      picks_skip (by decide) (tame_bool _), picks_skip (by decide) (tame_ofOption tame_str _),
      picks_skip (by decide) (tame_nat _)]
    rfl
  unfold Generation.entries
  split
  next total inherited h =>
    refine hrest [_, _] fun es => ?_
    rw [List.cons_append, List.cons_append, picks_skip (by decide) (tame_nat _), picks_skip (by decide) (tame_nat _)]
    rfl
  next h => exact hrest [] fun es => rfl

/-- The key of a generation is no field. -/
lemma generationKey_spec (j : Nat) : generationKey j ∉ fieldNames ∧ '"' ∉ generationKey j := by
  constructor
  · intro h
    have htake : (generationKey j).take 2 = "ge".toList := rfl
    have hall : ∀ k ∈ fieldNames, k.take 2 ≠ "ge".toList := by decide
    exact hall _ h htake
  · intro h
    obtain h | h := List.mem_append.1 h
    · exact absurd h (by decide)
    · exact absurd (Nat.isDigit_of_mem_toDigits (by omega) (by omega) h) (by decide)

/-- Which entries of the generations are fields. -/
lemma picks_generations (gs : List Generation) : picks (generationsJson gs) = gs.flatMap Generation.fields := by
  have h : ∀ (f : Nat → Nat) (gs : List Generation),
      picks (.ofEntries (gs.mapIdx fun j g => (generationKey (f j), .ofEntries g.entries))) =
        gs.flatMap Generation.fields := by
    intro f gs
    induction gs generalizing f with
    | nil => rfl
    | cons g gs ih =>
      rw [List.mapIdx_cons, picks_ofEntries_skip (generationKey_spec _).1, picks_generation, List.flatMap_cons]
      exact congrArg _ (ih fun j => f (j + 1))
  exact h id gs

/-- Which entries of a result are fields. -/
lemma picks_result (q : QuestionResult) : picks q.json = q.headerFields ++ q.generationResults.flatMap Generation.fields := by
  have htree : Tame (.ofOption (fun t => .ofEntries t.entries) q.gambitTreeExport) := tame_ofOption tame_tree _
  unfold QuestionResult.json QuestionResult.entries
  rw [picks_field (by decide) rfl (tame_nat _), picks_field (by decide) rfl (tame_str _),
    picks_field (by decide) (isDict_option _) (tame_ofOption tame_str _),
    picks_skip (by decide) (tame_ofOption tame_str _), picks_skip (by decide) (tame_bool _),
    picks_field (by decide) rfl (tame_nat _), picks_field (by decide) rfl (tame_nat _),
    picks_skip (by decide) (tame_float _), picks_skip (by decide) (tame_items tame_str _),
    picks_skip (by decide) (tame_floats _), picks_ofEntries_skip (by decide), picks_generations,
    picks_skip (by decide) (tame_bool _), picks_skip (by decide) (tame_nat _), picks_skip (by decide) (tame_nat _),
    picks_skip (by decide) htree]
  show _ :: _ :: _ :: _ :: _ :: (_ ++ []) = _
  rw [List.append_nil]
  rfl

/-- Plain values in a list of entries with keys that hold no quote. -/
lemma plain_cons {k : Text} {v : Json} {es : List (Text × Json)} (hk : '"' ∉ k) (hv : v.Plain)
    (hes : (Json.ofEntries es).Plain) : (Json.ofEntries ((k, v) :: es)).Plain :=
  ⟨fun h => absurd h hk, hv, hes⟩

/-- The keys of a generation hold no quotes. -/
lemma plain_generation (g : Generation) : (Json.ofEntries g.entries).Plain := by
  have hopt : ∀ o : Option Text, (Json.ofOption .str o).Plain := fun o => (tame_ofOption tame_str o).plain
  have hrest : (Json.ofEntries
      [("generated_text".toList, .str g.generatedText),
       ("finish_reason".toList, .ofOption .str g.finishReason),
       ("stop_reason".toList, .ofOption StopReason.json g.stopReason),
       ("final_score".toList, .ofOption .float g.finalScore),
       ("score_history".toList, floatsJson g.scoreHistory),
       ("prompt_index".toList, natJson g.promptIndex),
       ("request_id".toList, .ofOption .str g.requestId),
       ("extracted_answer".toList, .ofOption .str g.extractedAnswer),
       ("is_trace_correct".toList, .bool g.isTraceCorrect),
       ("gambit_is_branch".toList, .bool g.gambitIsBranch),
       ("gambit_parent_id".toList, .ofOption .str g.gambitParentId),
       ("gambit_branch_depth".toList, natJson g.gambitBranchDepth)]).Plain :=
    plain_cons (by decide) trivial <| plain_cons (by decide) (hopt _) <|
    plain_cons (by decide) (tame_ofOption tame_stopReason _).plain <|
    plain_cons (by decide) (tame_ofOption tame_float _).plain <| plain_cons (by decide) (tame_floats _).plain <|
    plain_cons (by decide) trivial <| plain_cons (by decide) (hopt _) <| plain_cons (by decide) (hopt _) <|
    plain_cons (by decide) trivial <| plain_cons (by decide) trivial <| plain_cons (by decide) (hopt _) <|
    plain_cons (by decide) trivial trivial
  unfold Generation.entries
  split
  · exact plain_cons (by decide) trivial <| plain_cons (by decide) trivial <| plain_cons (by decide) trivial hrest
  · exact plain_cons (by decide) trivial hrest

/-- The only keys of a result that may hold quotes are ids of nodes. -/
lemma plain_result (q : QuestionResult) : q.json.Plain := by
  have hopt : ∀ o : Option Text, (Json.ofOption .str o).Plain := fun o => (tame_ofOption tame_str o).plain
  have hgens : (generationsJson q.generationResults).Plain := by
    apply plain_ofEntries
    intro x hx
    obtain ⟨j, hj, rfl⟩ := List.mem_mapIdx.1 hx
    exact ⟨fun _ => ⟨_, rfl⟩, plain_generation _⟩
  have htree : Json.Plain (.ofOption (fun t => .ofEntries t.entries) q.gambitTreeExport) :=
    (tame_ofOption tame_tree _).plain
  exact plain_cons (by decide) trivial <| plain_cons (by decide) trivial <| plain_cons (by decide) (hopt _) <|
    plain_cons (by decide) (hopt _) <| plain_cons (by decide) trivial <| plain_cons (by decide) trivial <|
    plain_cons (by decide) trivial <| plain_cons (by decide) trivial <|
    plain_cons (by decide) (tame_items tame_str _).plain <| plain_cons (by decide) (tame_floats _).plain <|
    plain_cons (by decide) hgens <| plain_cons (by decide) trivial <| plain_cons (by decide) trivial <|
    plain_cons (by decide) trivial <| plain_cons (by decide) htree trivial

end Gambit.Bench
