import Gambit.Bench.Collect
import Gambit.Lib.ScanWindow

/-!
# Reading a file in chunks

`_collect_trace_fields` against one pass of `finditer` over the whole file, for any size of the chunks. The
last 64 KiB of a buffer are read again at the start of the next one. There the look behind of the pattern
sees no byte, so a quote behind a backslash that the cut falls behind starts a match.

`countedMatches` are the matches that the loop adds, each with its position in the file.
-/

namespace Gambit.Bench
open Gambit.Lib Utf8

/-- The matches that the loop over the chunks adds, with `start` for the position of the buffer. -/
def countedLoop (size : Nat) : Nat → Nat → List Nat → List Nat → List (Nat × Match)
  | 0, start, overlap, _ => finditer .ascii traceFields start none 0 overlap
  | fuel + 1, start, overlap, file =>
    if file = [] then finditer .ascii traceFields start none 0 overlap
    else
      let buf := overlap ++ file.take size
      let limit := buf.length - keep
      ((finditer .ascii traceFields start none 0 buf).filter fun m => m.1 < start + limit) ++
        countedLoop size fuel (start + limit) (if keep < buf.length then buf.drop (buf.length - keep) else buf)
          (file.drop size)

/-- The matches that are added from a file. -/
def countedMatches (size : Nat) (file : List Nat) : List (Nat × Match) :=
  countedLoop size file.length 0 [] file

/-- The matches of a buffer by their position in the file. -/
lemma finditer_start (start : Nat) (buf : List Nat) : finditer .ascii traceFields start none 0 buf =
    (bufferMatches buf).map fun x => (x.1 + start, x.2) := by
  have h := finditer_shift (C := .ascii) (A := traceFields) start buf 0 none 0
  rw [Nat.zero_add] at h
  exact h

/-- The limit of a buffer, and the position of it. -/
lemma lt_limit_iff (i start n : Nat) : i + start < start + (n - keep) ↔ i < n - keep := by omega

/-- The loop adds the matches that are counted. -/
lemma collectLoop_counted (size fuel start : Nat) (overlap file : List Nat) (c : Collected) :
    collectLoop size fuel overlap c file =
      (countedLoop size fuel start overlap file).foldl (fun c m => c.add m.2) c := by
  have hlast : ∀ (start : Nat) (overlap : List Nat) (c : Collected),
      (bufferMatches overlap).foldl (fun c m => c.add m.2) c =
        (finditer .ascii traceFields start none 0 overlap).foldl (fun c m => c.add m.2) c := by
    intro start overlap c
    rw [finditer_start, List.foldl_map]
  induction fuel generalizing start overlap file c with
  | zero => exact hlast _ _ _
  | succ fuel ih =>
    rw [collectLoop, countedLoop]
    split
    · exact hlast _ _ _
    · have hfilter : ((bufferMatches (overlap ++ file.take size)).filter
          ((fun m : Nat × Match => decide (m.1 < start + ((overlap ++ file.take size).length - keep))) ∘
            fun x => (x.1 + start, x.2))) =
          (bufferMatches (overlap ++ file.take size)).filter fun m =>
            m.1 < (overlap ++ file.take size).length - keep := by
        apply List.filter_congr
        intro m _
        rw [Function.comp_apply, decide_eq_decide]
        exact lt_limit_iff m.1 start (overlap ++ file.take size).length
      rw [List.foldl_append, finditer_start, List.filter_map, List.foldl_map, hfilter,
        ih (start + ((overlap ++ file.take size).length - keep))]

/-- The lists are those of one pass over the whole file, and each match of it is counted once and in order. -/
def StreamsAsWhole (size : Nat) (file : List Nat) : Prop :=
  collectTraceFieldsIn size file = (bufferMatches file).foldl (fun c m => c.add m.2) ⟨[], [], []⟩ ∧
    (countedMatches size file).map capture = (bufferMatches file).map capture

/-- After `j` chunks the cut falls behind a backslash, and the pattern matches at the start of the next buffer. -/
def CutBehindBackslash (size : Nat) (file : List Nat) (j : Nat) : Prop :=
  escapedAt file (min (j * size) file.length - keep) ∧
    (readAny .ascii traceFields
      ((file.take (min ((j + 1) * size) file.length)).drop (min (j * size) file.length - keep))).isSome

variable {size : Nat} {file done rest : List Nat}

/-- The buffer of a round. -/
lemma buffer_eq (hfile : file = done ++ rest) :
    done.drop (done.length - keep) ++ rest.take size =
      (file.take (done ++ rest.take size).length).drop (done.length - keep) := by
  have htake : file.take (done ++ rest.take size).length = done ++ rest.take size := by
    have hsplit : file = (done ++ rest.take size) ++ rest.drop size := by
      rw [List.append_assoc, List.take_append_drop, hfile]
    rw [hsplit]
    exact List.take_left
  rw [htake, List.drop_append_of_le_length (Nat.sub_le _ _)]

/-- How far a buffer is counted. -/
lemma limit_eq (size : Nat) (done rest : List Nat) :
    done.length - keep + ((done.drop (done.length - keep) ++ rest.take size).length - keep) =
      (done ++ rest.take size).length - keep := by
  rw [List.length_append, List.length_append, List.length_drop]
  omega

/-- The bytes that are read again. -/
lemma overlap_eq (size : Nat) (done rest : List Nat) :
    (if keep < (done.drop (done.length - keep) ++ rest.take size).length then
      (done.drop (done.length - keep) ++ rest.take size).drop
        ((done.drop (done.length - keep) ++ rest.take size).length - keep)
      else done.drop (done.length - keep) ++ rest.take size) =
      (done ++ rest.take size).drop ((done ++ rest.take size).length - keep) := by
  have hbuf : done.drop (done.length - keep) ++ rest.take size =
      (done ++ rest.take size).drop (done.length - keep) := by
    rw [List.drop_append_of_le_length (Nat.sub_le _ _)]
  have hlen : ((done ++ rest.take size).drop (done.length - keep)).length =
      (done ++ rest.take size).length - (done.length - keep) := List.length_drop
  have hle : done.length ≤ (done ++ rest.take size).length := by
    rw [List.length_append]
    exact Nat.le_add_right _ _
  rw [hbuf, hlen]
  split
  · have he : done.length - keep + ((done ++ rest.take size).length - (done.length - keep) - keep) =
        (done ++ rest.take size).length - keep := by omega
    rw [List.drop_drop, he]
  · have he : done.length - keep = (done ++ rest.take size).length - keep := by omega
    rw [he]

/-- One round of the loop. -/
lemma countedLoop_step (fuel : Nat) (hfile : file = done ++ rest) (hrest : rest ≠ []) :
    countedLoop size (fuel + 1) (done.length - keep) (done.drop (done.length - keep)) rest =
      ((finditer .ascii traceFields (done.length - keep) none 0
        ((file.take (done ++ rest.take size).length).drop (done.length - keep))).filter fun m =>
          m.1 < (done ++ rest.take size).length - keep) ++
        countedLoop size fuel ((done ++ rest.take size).length - keep)
          ((done ++ rest.take size).drop ((done ++ rest.take size).length - keep)) (rest.drop size) := by
  rw [countedLoop, if_neg hrest]
  dsimp only
  rw [limit_eq, overlap_eq, buffer_eq hfile]

/-- The last pass. -/
lemma countedLoop_rest (fuel start : Nat) (overlap : List Nat) :
    countedLoop size fuel start overlap [] = finditer .ascii traceFields start none 0 overlap := by
  cases fuel with
  | zero => rfl
  | succ fuel => rw [countedLoop, if_pos rfl]

/-- The places before a limit. -/
lemma filter_range' {a n lim : Nat} (h : a ≤ lim) (h' : lim ≤ a + n) :
    (List.range' a n).filter (fun i => i < lim) = List.range' a (lim - a) := by
  have hsplit : List.range' a n = List.range' a (lim - a) ++ List.range' lim (a + n - lim) := by
    have happ := List.range'_append_1 (s := a) (m := lim - a) (n := a + n - lim)
    rw [Nat.add_sub_cancel' h] at happ
    rw [happ, show lim - a + (a + n - lim) = n by omega]
  have hall : (List.range' a (lim - a)).filter (fun i => i < lim) = List.range' a (lim - a) := by
    apply List.filter_eq_self.2
    intro i hi
    have := List.mem_range'_1.1 hi
    simpa using (by omega : i < lim)
  have hnone : (List.range' lim (a + n - lim)).filter (fun i => i < lim) = [] := by
    apply List.filter_eq_nil_iff.2
    intro i hi
    have := List.mem_range'_1.1 hi
    simpa using (by omega : lim ≤ i)
  rw [hsplit, List.filter_append, hall, hnone, List.append_nil]

/-- How much has been read after one more chunk. -/
lemma length_read {j : Nat} (hsize : 0 < size) (hfile : file = done ++ rest) (hrest : rest ≠ [])
    (hdone : done.length = min (j * size) file.length) :
    (done ++ rest.take size).length = min ((j + 1) * size) file.length ∧
      done.length < (done ++ rest.take size).length := by
  have hpos : 0 < rest.length := List.length_pos_iff.2 hrest
  have hlen : file.length = done.length + rest.length := by rw [hfile, List.length_append]
  have hmul : (j + 1) * size = j * size + size := Nat.succ_mul j size
  rw [List.length_append, List.length_take, hmul]
  omega

/-- When all has been read the cuts no longer move. -/
lemma min_succ_mul {j : Nat} (h : file.length = min (j * size) file.length) :
    min ((j + 1) * size) file.length = file.length := by
  have hmul : (j + 1) * size = j * size + size := Nat.succ_mul j size
  omega

/-- The last pass counts the matches that are left. -/
lemma rest_hits (hapart : Apart .ascii traceFields file) {j : Nat}
    (hdone : file.length = min (j * size) file.length) (hcut : ¬ CutBehindBackslash size file j) :
    (finditer .ascii traceFields (file.length - keep) none 0 (file.drop (file.length - keep))).map capture =
      (List.range' (file.length - keep) (file.length - (file.length - keep))).filterMap
        (hitAt .ascii traceFields file) := by
  have hstart : escapedAt file (file.length - keep) →
      readAny .ascii traceFields ((file.take file.length).drop (file.length - keep)) = none := by
    intro hesc
    rw [← Option.not_isSome_iff_eq_none]
    intro hsome
    apply hcut
    rw [CutBehindBackslash, min_succ_mul hdone, ← hdone]
    exact ⟨hesc, hsome⟩
  have hwindow := finditer_window_hits hapart (a := file.length - keep) (b := file.length) file.length le_rfl
    (Nat.sub_le _ _)
    (fun i m _ hi => by
      rw [Match.length, List.length_drop]
      omega) hstart
  have hall : (finditer .ascii traceFields (file.length - keep) none 0 (file.drop (file.length - keep))).filter
      (fun y => y.1 < file.length) =
      finditer .ascii traceFields (file.length - keep) none 0 (file.drop (file.length - keep)) := by
    apply List.filter_eq_self.2
    intro y hy
    have hlt := lt_of_mem_finditer hy
    rw [List.length_drop] at hlt
    exact decide_eq_true (by omega)
  rw [List.take_length, hall, filter_range' (Nat.sub_le _ _) (by omega)] at hwindow
  exact hwindow

/-- Without a cut behind a backslash the matches of the file are counted. -/
lemma countedLoop_hits (hsize : 0 < size) (hapart : Apart .ascii traceFields file)
    (hlen : ∀ i m, matchAt .ascii traceFields file i = some m → m.length .ascii (file.drop i) ≤ keep)
    {fuel j : Nat} (hfile : file = done ++ rest) (hfuel : rest.length ≤ fuel)
    (hdone : done.length = min (j * size) file.length) (hcut : ∀ i, j ≤ i → ¬ CutBehindBackslash size file i) :
    (countedLoop size fuel (done.length - keep) (done.drop (done.length - keep)) rest).map capture =
      (List.range' (done.length - keep) (file.length - (done.length - keep))).filterMap
        (hitAt .ascii traceFields file) := by
  induction fuel generalizing done rest j with
  | zero =>
    obtain rfl := List.eq_nil_of_length_eq_zero (Nat.le_zero.1 hfuel)
    rw [List.append_nil] at hfile
    subst hfile
    rw [countedLoop_rest]
    exact rest_hits hapart hdone (hcut j le_rfl)
  | succ fuel ih =>
    by_cases hrest : rest = []
    · subst hrest
      rw [List.append_nil] at hfile
      subst hfile
      rw [countedLoop_rest]
      exact rest_hits hapart hdone (hcut j le_rfl)
    · obtain ⟨hread, hlt⟩ := length_read hsize hfile hrest hdone
      have hfile' : file = (done ++ rest.take size) ++ rest.drop size := by
        rw [List.append_assoc, List.take_append_drop, hfile]
      have hfuel' : (rest.drop size).length ≤ fuel := by
        rw [List.length_drop]
        omega
      have hle : (done ++ rest.take size).length ≤ file.length := by
        rw [hread]
        exact Nat.min_le_right _ _
      have hstart : escapedAt file (done.length - keep) →
          readAny .ascii traceFields
            ((file.take (done ++ rest.take size).length).drop (done.length - keep)) = none := by
        intro hesc
        rw [← Option.not_isSome_iff_eq_none]
        intro hsome
        apply hcut j le_rfl
        rw [CutBehindBackslash, ← hdone, ← hread]
        exact ⟨hesc, hsome⟩
      have hwindow := finditer_window_hits hapart (a := done.length - keep) (b := (done ++ rest.take size).length)
        ((done ++ rest.take size).length - keep) (Nat.sub_le _ _) (by omega)
        (fun i m hm hi => by
          have := hlen i m hm
          omega) hstart
      have hrec := ih hfile' hfuel' hread fun i hi => hcut i (by omega)
      rw [countedLoop_step fuel hfile hrest, List.map_append, hwindow, hrec,
        filter_range' (by omega) (by omega), ← List.filterMap_append]
      have happ := List.range'_append_1 (s := done.length - keep)
        (m := (done ++ rest.take size).length - keep - (done.length - keep))
        (n := file.length - ((done ++ rest.take size).length - keep))
      have he : done.length - keep + ((done ++ rest.take size).length - keep - (done.length - keep)) =
          (done ++ rest.take size).length - keep := by omega
      have hn : (done ++ rest.take size).length - keep - (done.length - keep) +
          (file.length - ((done ++ rest.take size).length - keep)) = file.length - (done.length - keep) := by
        omega
      rw [he, hn] at happ
      rw [happ]

/-- A match at the start of a buffer is found, whatever stands before it. -/
lemma mem_finditer_start {C : Charset} {A : List FieldPattern} {l : List Nat} (h : (readAny C A l).isSome)
    (pos : Nat) : ∃ m, (pos, m) ∈ finditer C A pos none 0 l := by
  cases l with
  | nil =>
    rw [readAny_nil] at h
    cases h
  | cons u l =>
    obtain ⟨m, hm⟩ := Option.isSome_iff_exists.1 h
    refine ⟨m, ?_⟩
    rw [finditer, if_neg (Option.some_ne_none 92).symm, hm]
    exact List.mem_cons_self

/-- After the file has been read a later cut is the last one. -/
lemma min_mul_of_le {i j : Nat} (hij : j ≤ i) (h : file.length = min (j * size) file.length) :
    min (i * size) file.length = file.length ∧ min ((i + 1) * size) file.length = file.length := by
  have h1 : j * size ≤ i * size := Nat.mul_le_mul_right _ hij
  have h2 : (i + 1) * size = i * size + size := Nat.succ_mul i size
  omega

/-- Such a cut before the last pass. -/
lemma rest_cut {i j : Nat} (hdone : file.length = min (j * size) file.length) (hij : j ≤ i)
    (hcut : CutBehindBackslash size file i) (fuel : Nat) :
    ∃ y ∈ countedLoop size fuel (file.length - keep) (file.drop (file.length - keep)) [],
      escapedAt file y.1 := by
  obtain ⟨hesc, hsome⟩ := hcut
  obtain ⟨h1, h2⟩ := min_mul_of_le hij hdone
  rw [h1] at hesc hsome
  rw [h2, List.take_length] at hsome
  obtain ⟨m, hm⟩ := mem_finditer_start hsome (file.length - keep)
  rw [countedLoop_rest]
  exact ⟨_, hm, hesc⟩

/-- At a cut behind a backslash a match is counted that the file does not have. -/
lemma countedLoop_cut (hsize : 0 < size) {fuel i j : Nat} (hfile : file = done ++ rest)
    (hfuel : rest.length ≤ fuel) (hdone : done.length = min (j * size) file.length) (hij : j ≤ i)
    (hcut : CutBehindBackslash size file i) :
    ∃ y ∈ countedLoop size fuel (done.length - keep) (done.drop (done.length - keep)) rest,
      escapedAt file y.1 := by
  induction fuel generalizing done rest j with
  | zero =>
    obtain rfl := List.eq_nil_of_length_eq_zero (Nat.le_zero.1 hfuel)
    rw [List.append_nil] at hfile
    subst hfile
    exact rest_cut hdone hij hcut 0
  | succ fuel ih =>
    by_cases hrest : rest = []
    · subst hrest
      rw [List.append_nil] at hfile
      subst hfile
      exact rest_cut hdone hij hcut _
    obtain ⟨hread, hlt⟩ := length_read hsize hfile hrest hdone
    rw [countedLoop_step fuel hfile hrest]
    by_cases hi : i = j
    · subst hi
      obtain ⟨hesc, hsome⟩ := hcut
      rw [← hdone] at hesc hsome
      rw [← hread] at hsome
      obtain ⟨m, hm⟩ := mem_finditer_start hsome (done.length - keep)
      have hpos := hesc.1
      refine ⟨_, List.mem_append_left _ (List.mem_filter.2 ⟨hm, decide_eq_true ?_⟩), hesc⟩
      show done.length - keep < _
      omega
    · have hfile' : file = (done ++ rest.take size) ++ rest.drop size := by
        rw [List.append_assoc, List.take_append_drop, hfile]
      have hfuel' : (rest.drop size).length ≤ fuel := by
        rw [List.length_drop]
        omega
      obtain ⟨y, hy, hesc⟩ := ih hfile' hfuel' hread (by omega)
      exact ⟨y, List.mem_append_right _ hy, hesc⟩

/-- The matches of a file are at no place behind a backslash. -/
lemma not_escaped_of_hit {C : Charset} {A : List FieldPattern} {text : List Nat}
    {x : Nat × FieldPattern × List Nat} (h : x ∈ (List.range text.length).filterMap (hitAt C A text)) :
    ¬ escapedAt text x.1 := by
  obtain ⟨i, -, hi⟩ := List.mem_filterMap.1 h
  obtain ⟨m, hm, rfl⟩ := Option.map_eq_some_iff.1 hi
  intro hesc
  rw [matchAt, if_pos hesc] at hm
  cases hm

/-- What is collected is what is counted. -/
lemma collected_of_captures {ms ms' : List (Nat × Match)} (h : ms.map capture = ms'.map capture) (c : Collected) :
    ms.foldl (fun c m => c.add m.2) c = ms'.foldl (fun c m => c.add m.2) c := by
  have hsnd : ∀ ms : List (Nat × Match),
      ms.map (fun m => (m.2.field, m.2.group)) = (ms.map capture).map Prod.snd := by
    intro ms
    rw [List.map_map]
    rfl
  rw [foldl_add, foldl_add, hsnd, hsnd, h]

/-- A cut behind a backslash lets a match be counted that is none. -/
lemma not_streamsAsWhole (hsize : 0 < size) (hapart : Apart .ascii traceFields file) {j : Nat}
    (hcut : CutBehindBackslash size file j) : ¬ StreamsAsWhole size file := by
  rintro ⟨-, h⟩
  obtain ⟨y, hy, hesc⟩ := countedLoop_cut hsize (List.nil_append file).symm le_rfl
    (j := 0) (by rw [Nat.zero_mul, Nat.zero_min, List.length_nil]) (Nat.zero_le j) hcut
  have hmem : capture y ∈ (countedMatches size file).map capture := List.mem_map_of_mem hy
  have hwhole : (bufferMatches file).map capture =
      (List.range file.length).filterMap (hitAt .ascii traceFields file) := finditer_hits hapart
  rw [h, hwhole] at hmem
  exact not_escaped_of_hit hmem hesc

/-- Reading in chunks gives the lists of one pass over the file exactly if no cut falls behind a backslash with
the pattern behind it. -/
theorem streamsAsWhole_iff {size : Nat} {file : List Nat} (hsize : 1 ≤ size)
    (hlen : ∀ i m, matchAt .ascii traceFields file i = some m → m.length .ascii (file.drop i) ≤ keep)
    (hapart : Apart .ascii traceFields file) :
    StreamsAsWhole size file ↔ ∀ j, ¬ CutBehindBackslash size file j := by
  constructor
  · intro h j hcut
    exact not_streamsAsWhole hsize hapart hcut h
  · intro hcut
    have hcount : (countedMatches size file).map capture = (bufferMatches file).map capture := by
      have hloop := countedLoop_hits hsize hapart hlen (List.nil_append file).symm le_rfl
        (j := 0) (by rw [Nat.zero_mul, Nat.zero_min, List.length_nil]) fun i _ => hcut i
      have hwhole : (bufferMatches file).map capture =
          (List.range file.length).filterMap (hitAt .ascii traceFields file) := finditer_hits hapart
      rw [hwhole, List.range_eq_range']
      exact hloop
    refine ⟨?_, hcount⟩
    rw [collectTraceFieldsIn, collectLoop_counted size file.length 0]
    exact collected_of_captures hcount _

/-- Two fields, `k` blanks apart. -/
def twoFields (k : Nat) : List Nat :=
  points "\"token_length\": 5,".toList ++ (List.replicate k 32 ++ points "\"token_length\": 7,".toList)

/-- The second one. -/
lemma drop_twoFields (k : Nat) : (twoFields k).drop (18 + k) = points "\"token_length\": 7,".toList := by
  have hlen : (points "\"token_length\": 5,".toList ++ List.replicate k 32).length = 18 + k := by
    rw [List.length_append, List.length_replicate]
    rfl
  rw [twoFields, ← List.append_assoc]
  exact List.drop_left' hlen

/-- A quote of them opens or closes the name of a field. -/
lemma quote_twoFields {k i : Nat} (h : (twoFields k)[i]? = some 34) :
    i = 0 ∨ i = 13 ∨ i = 18 + k ∨ i = 18 + k + 13 := by
  have hquotes : ∀ i < 18, (points "\"token_length\": 5,".toList)[i]? = some 34 → i = 0 ∨ i = 13 := by decide
  have hquotes' : ∀ i < 18, (points "\"token_length\": 7,".toList)[i]? = some 34 → i = 0 ∨ i = 13 := by decide
  rw [twoFields] at h
  rcases Nat.lt_or_ge i 18 with hi | hi
  · rw [List.getElem?_append_left hi] at h
    have := hquotes i hi h
    omega
  rw [List.getElem?_append_right hi] at h
  change (List.replicate k 32 ++ points "\"token_length\": 7,".toList)[i - 18]? = some 34 at h
  rcases Nat.lt_or_ge (i - 18) k with hk | hk
  · rw [List.getElem?_append_left (by rwa [List.length_replicate])] at h
    cases List.eq_of_mem_replicate (List.mem_of_getElem? h)
  · rw [List.getElem?_append_right (by rwa [List.length_replicate]), List.length_replicate] at h
    have hlt : i - 18 - k < 18 := (List.getElem?_eq_some_iff.1 h).1
    have := hquotes' _ hlt h
    omega

/-- The matches are the two fields, each with its comma. -/
lemma matchAt_twoFields {k i : Nat} {m : Match} (h : matchAt .ascii traceFields (twoFields k) i = some m) :
    (i = 0 ∨ i = 18 + k) ∧ m.length .ascii ((twoFields k).drop i) = 18 := by
  have hread : readAny .ascii traceFields ((twoFields k).drop i) = some m := by
    unfold matchAt at h
    split at h
    · cases h
    · exact h
  have hhead := (readAny_eq_some hread).1
  rw [List.head?_drop] at hhead
  obtain rfl | rfl | rfl | rfl := quote_twoFields hhead
  · have hfirst : readAny .ascii traceFields ((twoFields k).drop 0) = some ⟨tokenLengthField, [53],
        44 :: (List.replicate k 32 ++ points "\"token_length\": 7,".toList)⟩ := rfl
    rw [hfirst] at hread
    cases hread
    have htrail : trail .ascii (44 :: (List.replicate k 32 ++ points "\"token_length\": 7,".toList)) =
        List.replicate k 32 ++ points "\"token_length\": 7,".toList := rfl
    refine ⟨.inl rfl, ?_⟩
    rw [Match.length, htrail, List.drop_zero, twoFields, List.length_append, Nat.add_sub_cancel]
    rfl
  · have hnone : readAny .ascii traceFields ((twoFields k).drop 13) = none := rfl
    rw [hnone] at hread
    cases hread
  · rw [drop_twoFields] at hread ⊢
    have hlast : readAny .ascii traceFields (points "\"token_length\": 7,".toList) =
        some ⟨tokenLengthField, [55], [44]⟩ := rfl
    rw [hlast] at hread
    cases hread
    exact ⟨.inr rfl, rfl⟩
  · have hnone : readAny .ascii traceFields ((points "\"token_length\": 7,".toList).drop 13) = none := rfl
    rw [← List.drop_drop, drop_twoFields, hnone] at hread
    cases hread

/-- Two fields in a file of more than 64 KiB, whose first chunk ends within the second one. -/
theorem streamsAsWhole_iff_two : StreamsAsWhole 65560 (twoFields 65536) := by
  refine (streamsAsWhole_iff (by decide) (fun i m hm => ?_) fun i j m hm hj hij => ?_).2 fun j hcut => ?_
  · rw [(matchAt_twoFields hm).2]
    decide
  · obtain ⟨m', hm'⟩ := Option.isSome_iff_exists.1 hj
    obtain ⟨hi, hlen⟩ := matchAt_twoFields hm
    obtain ⟨hj, -⟩ := matchAt_twoFields hm'
    omega
  · -- there is no backslash in it
    have hmem := List.mem_of_getElem? hcut.1.2
    rw [twoFields, List.mem_append, List.mem_append] at hmem
    rcases hmem with hmem | hmem | hmem
    · exact absurd hmem (by decide)
    · exact absurd (List.eq_of_mem_replicate hmem) (by decide)
    · exact absurd hmem (by decide)

/-- A quote behind a backslash, in the first place that is read again. -/
def quotedField (k : Nat) : List Nat :=
  92 :: (points "\"token_length\":5".toList ++ List.replicate k 32)

/-- It is no match. -/
lemma matchAt_quotedField (k i : Nat) : matchAt .ascii traceFields (quotedField k) i = none := by
  unfold matchAt
  split
  · rfl
  next hesc =>
  cases hm : readAny .ascii traceFields ((quotedField k).drop i) with
  | none => rfl
  | some m =>
    have hhead := (readAny_eq_some hm).1
    rw [List.head?_drop] at hhead
    cases i with
    | zero => cases hhead
    | succ i =>
      rw [quotedField, List.getElem?_cons_succ] at hhead
      rcases Nat.lt_or_ge i (points "\"token_length\":5".toList).length with hi | hi
      · rw [List.getElem?_append_left hi] at hhead
        -- the other quote is the one that closes the name
        have hquotes : ∀ i < 16, (points "\"token_length\":5".toList)[i]? = some 34 → i = 0 ∨ i = 13 := by
          decide
        obtain rfl | rfl := hquotes i hi hhead
        · exact absurd ⟨Nat.one_pos, rfl⟩ hesc
        · have hnone : readAny .ascii traceFields ((quotedField k).drop 14) = none := rfl
          rw [hnone] at hm
          cases hm
      · rw [List.getElem?_append_right hi] at hhead
        have hmem := List.mem_of_getElem? hhead
        cases List.eq_of_mem_replicate hmem

/-- A file of 64 KiB and one byte, read in chunks of the default size. -/
theorem cut_behind_backslash_counted :
    (∀ i m, matchAt .ascii traceFields (quotedField 65520) i = some m →
        m.length .ascii ((quotedField 65520).drop i) ≤ keep) ∧
      Apart .ascii traceFields (quotedField 65520) ∧ ¬ StreamsAsWhole chunkSize (quotedField 65520) := by
  have hapart : Apart .ascii traceFields (quotedField 65520) := by
    intro i j m hm
    rw [matchAt_quotedField] at hm
    cases hm
  refine ⟨fun i m hm => ?_, hapart, not_streamsAsWhole (by decide) hapart (j := 1) ?_⟩
  · rw [matchAt_quotedField] at hm
    cases hm
  · have hlen : (quotedField 65520).length = 65537 := by
      rw [quotedField, List.length_cons, List.length_append, List.length_replicate]
      rfl
    have hmin : min (1 * chunkSize) (quotedField 65520).length = 65537 := by
      rw [hlen]
      rfl
    have hmin' : min ((1 + 1) * chunkSize) (quotedField 65520).length = (quotedField 65520).length := by
      rw [hlen]
      rfl
    have hkeep : 65537 - keep = 1 := rfl
    rw [CutBehindBackslash, hmin, hmin', hkeep, List.take_length]
    exact ⟨⟨Nat.one_pos, rfl⟩, readAny_append (by decide) _⟩

end Gambit.Bench
