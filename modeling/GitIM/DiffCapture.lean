import GitIM.FileTree

/-!
# Capturing local additions from a diff

`parse_diff_output` reads the output of `git diff` line by line and collects, per
file, the added lines. Headers and contents are told apart by prefix tests on the
same lines. The second half describes the diff of appended and deleted files and
the condition under which every appended line is captured.
-/

namespace DiffCapture

open TextLines FileTree

structure DiffState where
  result : FileMap
  currentPath : Option Path
  prevWasMinusHeader : Bool

def isMinusHeader (line : Text) : Bool :=
  "--- a/".toList.isPrefixOf line || line == "--- /dev/null".toList

/-- A further added line of a file; the separator is written only behind a non-empty entry. -/
def pushLine (entry added : Text) : Text :=
  (if entry = [] then [] else entry ++ ['\n']) ++ added

def addLine (path : Path) (added : Text) (result : FileMap) : FileMap :=
  upsert (fun entry => pushLine (entry.getD []) added) path result

def parseDiffLine (st : DiffState) (line : Text) : DiffState :=
  if isMinusHeader line then { st with prevWasMinusHeader := true }
  else if "+++ b/".toList <+: line then
    { st with
      currentPath := if st.prevWasMinusHeader then some (line.drop 6) else st.currentPath
      prevWasMinusHeader := false }
  else if ['+'] <+: line ∧ ¬ "+++".toList <+: line then
    { result := match st.currentPath with
        | some path => addLine path (line.drop 1) st.result
        | none => st.result
      currentPath := st.currentPath
      prevWasMinusHeader := false }
  else { st with prevWasMinusHeader := false }

def parseDiffOutput (stdout : Text) : FileMap :=
  ((lines stdout).foldl parseDiffLine ⟨[], none, false⟩).result

/-- A line of a diff that is neither a file header nor a change. -/
structure ContextLine where
  text : Text
  oneLine : '\n' ∉ text
  unsigned : text.head? ≠ some '+' ∧ text.head? ≠ some '-'

/-- A changed line without its sign. -/
structure ContentLine where
  text : Text
  oneLine : '\n' ∉ text

inductive HunkLine where
  | context (l : ContextLine)
  | added (l : ContentLine)

def HunkLine.render : HunkLine → Text
  | .context l => l.text
  | .added l => '+' :: l.text

def HunkLine.addedText? : HunkLine → Option Text
  | .context _ => none
  | .added l => some l.text

/-- The lines of a section behind its two headers. -/
inductive SectionBody where
  | appended (fresh : Bool) (hunks : List HunkLine)
  | deleted (removed : List ContentLine)

/-- The section of one file in the output of `git diff --no-renames`. -/
structure FileDiff where
  path : Path
  oneLine : '\n' ∉ path
  noCr : ¬ EndsInCr path
  preamble : List ContextLine
  body : SectionBody

namespace FileDiff

def minusHeader (fresh : Bool) (path : Path) : Text :=
  if fresh then "--- /dev/null".toList else "--- a/".toList ++ path

def render (d : FileDiff) : List Text :=
  d.preamble.map ContextLine.text ++
    match d.body with
    | .appended fresh hunks =>
      minusHeader fresh d.path :: ("+++ b/".toList ++ d.path) :: hunks.map HunkLine.render
    | .deleted removed =>
      minusHeader false d.path :: "+++ /dev/null".toList :: removed.map fun l => '-' :: l.text

/-- The text appended to the file, line by line. -/
def added (d : FileDiff) : List Text :=
  match d.body with
  | .appended _ hunks => hunks.filterMap HunkLine.addedText?
  | .deleted _ => []

end FileDiff

def renderDiff (ds : List FileDiff) : Text := unlines (ds.flatMap FileDiff.render)

/-- Every captured line: a line that starts with `++` is taken for a header and dropped,
and the line iterator eats a final carriage return. -/
def kept (ls : List Text) : List Text :=
  ls.filterMap fun l => if "++".toList <+: l then none else some (stripCr l)

def addLines (path : Path) (ls : List Text) (result : FileMap) : FileMap :=
  ls.foldl (fun r l => addLine path l r) result

/-- What the parser maps a file to whose appended lines are `ls`. -/
def captured (ls : List Text) : Option Text :=
  if kept ls = [] then none else some (joinLines ((kept ls).dropWhile (· = [])))

/-- What it should map the file to. -/
def appendedText (ls : List Text) : Option Text :=
  if ls = [] then none else some (joinLines ls)

/-- The appended lines that survive: none starts with `++` or ends in a carriage return, and
the first is not empty unless it is the only one. -/
structure Capturable (ls : List Text) : Prop where
  unsigned : ∀ l ∈ ls, ¬ "++".toList <+: l
  noCr : ∀ l ∈ ls, ¬ EndsInCr l
  first : ls.head? = some [] → ls = [[]]

theorem kept_cons_header {l : Text} (h : "++".toList <+: l) (ls : List Text) :
    kept (l :: ls) = kept ls := by
  rw [kept, List.filterMap_cons, if_pos h]
  rfl

theorem kept_cons_plain {l : Text} (h : ¬ "++".toList <+: l) (ls : List Text) :
    kept (l :: ls) = stripCr l :: kept ls := by
  rw [kept, List.filterMap_cons, if_neg h]
  rfl

theorem kept_append (a b : List Text) : kept (a ++ b) = kept a ++ kept b :=
  List.filterMap_append

theorem addLines_append (path : Path) (a b : List Text) (result : FileMap) :
    addLines path (a ++ b) result = addLines path b (addLines path a result) :=
  List.foldl_append

section Steps

theorem head?_of_singleton {c : Char} {l : Text} (h : [c] <+: l) : l.head? = some c := by
  obtain ⟨t, rfl⟩ := h
  rfl

theorem isMinusHeader_dash {l : Text} (h : isMinusHeader l = true) : l.head? = some '-' := by
  simp only [isMinusHeader, Bool.or_eq_true, List.isPrefixOf_iff_prefix, beq_iff_eq] at h
  rcases h with ⟨t, rfl⟩ | rfl
  · rfl
  · rfl

/-- A line without a sign only clears the header flag. -/
theorem parseDiffLine_unsigned {l : Text} (hplus : l.head? ≠ some '+')
    (hminus : l.head? ≠ some '-') (st : DiffState) :
    parseDiffLine st l = { st with prevWasMinusHeader := false } := by
  have hheader : ¬ isMinusHeader l = true := fun h => hminus (isMinusHeader_dash h)
  have hb : ¬ "+++ b/".toList <+: l := by
    rintro ⟨t, rfl⟩
    exact hplus rfl
  have hadd : ¬ (['+'] <+: l ∧ ¬ "+++".toList <+: l) :=
    fun h => hplus (head?_of_singleton h.1)
  rw [parseDiffLine, if_neg hheader, if_neg hb, if_neg hadd]

theorem parseDiffLine_context (l : ContextLine) (st : DiffState) :
    parseDiffLine st (stripCr l.text) = { st with prevWasMinusHeader := false } := by
  have hhead : ∀ c, (stripCr l.text).head? = some c → l.text.head? = some c := by
    intro c hc
    obtain ⟨t, ht⟩ := List.head?_eq_some_iff.mp hc
    exact head?_of_singleton (List.IsPrefix.trans ⟨t, ht.symm⟩ (stripCr_isPrefix _))
  exact parseDiffLine_unsigned (fun h => l.unsigned.1 (hhead _ h))
    (fun h => l.unsigned.2 (hhead _ h)) st

theorem parseDiffLine_minusHeader (fresh : Bool) (path : Path) (st : DiffState) :
    parseDiffLine st (FileDiff.minusHeader fresh path) =
      { st with prevWasMinusHeader := true } := by
  have hheader : isMinusHeader (FileDiff.minusHeader fresh path) = true := by
    cases fresh
    · exact Bool.or_eq_true_iff.mpr (Or.inl (List.isPrefixOf_iff_prefix.mpr ⟨path, rfl⟩))
    · rfl
  rw [parseDiffLine, if_pos hheader]

theorem parseDiffLine_plusHeader (path : Path) (result : FileMap) (cur : Option Path) :
    parseDiffLine ⟨result, cur, true⟩ ("+++ b/".toList ++ path) = ⟨result, some path, false⟩ := by
  have hheader : ¬ isMinusHeader ("+++ b/".toList ++ path) = true := by
    intro h
    have hdash := isMinusHeader_dash h
    exact absurd (Option.some.inj hdash) (by decide)
  rw [parseDiffLine, if_neg hheader, if_pos (List.prefix_append _ _), if_pos rfl]
  rfl

theorem prefix_stripCr_iff {l : Text} : "++".toList <+: stripCr l ↔ "++".toList <+: l := by
  constructor
  · intro h
    exact h.trans (stripCr_isPrefix l)
  · rintro ⟨t, rfl⟩
    cases t with
    | nil => exact List.prefix_refl _
    | cons c t =>
      rw [stripCr_append_cons]
      exact List.prefix_append _ _

/-- An added line reaches the current file unless it looks like a header. -/
theorem parseDiffLine_added (path : Path) (result : FileMap) (l : Text) :
    parseDiffLine ⟨result, some path, false⟩ (stripCr ('+' :: l)) =
      ⟨addLines path (kept [l]) result, some path, false⟩ := by
  have hstrip : stripCr ('+' :: l) = '+' :: stripCr l := stripCr_cons (by decide) l
  have hheader : ¬ isMinusHeader ('+' :: stripCr l) = true := by
    intro h
    exact absurd (Option.some.inj (isMinusHeader_dash h)) (by decide)
  have hplus : "+++".toList <+: '+' :: stripCr l ↔ "++".toList <+: l := by
    rw [← prefix_stripCr_iff]
    exact List.prefix_cons_inj '+'
  rw [hstrip, parseDiffLine, if_neg hheader]
  by_cases hpp : "++".toList <+: l
  · have hkept : kept [l] = [] := kept_cons_header hpp []
    have hadd : ¬ (['+'] <+: '+' :: stripCr l ∧ ¬ "+++".toList <+: '+' :: stripCr l) :=
      fun h => h.2 (hplus.mpr hpp)
    rw [hkept, if_neg hadd]
    split
    · rfl
    · rfl
  · have hkept : kept [l] = [stripCr l] := kept_cons_plain hpp []
    have hnot : ¬ "+++".toList <+: '+' :: stripCr l := fun h => hpp (hplus.mp h)
    have hb : ¬ "+++ b/".toList <+: '+' :: stripCr l :=
      fun h => hnot (List.IsPrefix.trans (by decide) h)
    have hadd : ['+'] <+: '+' :: stripCr l ∧ ¬ "+++".toList <+: '+' :: stripCr l :=
      ⟨List.prefix_append ['+'] _, hnot⟩
    rw [hkept, if_neg hb, if_pos hadd]
    rfl

theorem parseDiffLine_removed (l : Text) (st : DiffState) :
    (parseDiffLine st (stripCr ('-' :: l))).result = st.result := by
  have hhead : (stripCr ('-' :: l)).head? = some '-' := by
    rw [stripCr_cons (by decide) l]
    rfl
  rw [parseDiffLine]
  split
  · rfl
  · split
    · rfl
    · rw [if_neg]
      rintro ⟨h, -⟩
      exact absurd (hhead.symm.trans (head?_of_singleton h)) (by decide)

end Steps

section Runs

theorem run_preamble (ls : List ContextLine) (st : DiffState) :
    ((ls.map fun l => stripCr l.text).foldl parseDiffLine st).result = st.result := by
  induction ls generalizing st with
  | nil => rfl
  | cons l ls ih =>
    rw [List.map_cons, List.foldl_cons, ih, parseDiffLine_context]

theorem run_removed (ls : List ContentLine) (st : DiffState) :
    ((ls.map fun l => stripCr ('-' :: l.text)).foldl parseDiffLine st).result = st.result := by
  induction ls generalizing st with
  | nil => rfl
  | cons l ls ih =>
    rw [List.map_cons, List.foldl_cons, ih, parseDiffLine_removed]

theorem run_hunk (path : Path) (h : HunkLine) (result : FileMap) :
    parseDiffLine ⟨result, some path, false⟩ (stripCr h.render) =
      ⟨addLines path (kept h.addedText?.toList) result, some path, false⟩ := by
  cases h with
  | context l => exact parseDiffLine_context l _
  | added l => exact parseDiffLine_added path result l.text

/-- Behind the headers of a file, the kept lines go to that file. -/
theorem run_hunks (path : Path) (hunks : List HunkLine) (result : FileMap) :
    (hunks.map fun h => stripCr h.render).foldl parseDiffLine ⟨result, some path, false⟩ =
      ⟨addLines path (kept (hunks.filterMap HunkLine.addedText?)) result, some path, false⟩ := by
  induction hunks generalizing result with
  | nil => rfl
  | cons h hunks ih =>
    have hsplit : kept ((h :: hunks).filterMap HunkLine.addedText?) =
        kept h.addedText?.toList ++ kept (hunks.filterMap HunkLine.addedText?) := by
      rw [← kept_append]
      cases h with
      | context l => rfl
      | added l => rfl
    rw [List.map_cons, List.foldl_cons, run_hunk, ih, hsplit, addLines_append]

theorem stripCr_minusHeader (fresh : Bool) {path : Path} (hcr : ¬ EndsInCr path) :
    stripCr (FileDiff.minusHeader fresh path) = FileDiff.minusHeader fresh path := by
  cases fresh with
  | true => rfl
  | false =>
    cases path with
    | nil => rfl
    | cons c t =>
      simp only [FileDiff.minusHeader, Bool.false_eq_true, if_false]
      rw [stripCr_append_cons, stripCr_of_not_endsInCr hcr]

theorem stripCr_plusHeader {path : Path} (hcr : ¬ EndsInCr path) :
    stripCr ("+++ b/".toList ++ path) = "+++ b/".toList ++ path := by
  cases path with
  | nil => rfl
  | cons c t => rw [stripCr_append_cons, stripCr_of_not_endsInCr hcr]

/-- One section: the parser adds the kept lines to its file, from any state. -/
theorem run_section (d : FileDiff) (st : DiffState) :
    ((d.render.map stripCr).foldl parseDiffLine st).result =
      addLines d.path (kept d.added) st.result := by
  have hpre := run_preamble d.preamble st
  rw [FileDiff.render, FileDiff.added, List.map_append, List.foldl_append, List.map_map]
  rw [← hpre]
  cases d.body with
  | appended fresh hunks =>
    simp only [List.map_cons, List.foldl_cons, List.map_map]
    rw [stripCr_minusHeader fresh d.noCr, stripCr_plusHeader d.noCr, parseDiffLine_minusHeader,
      parseDiffLine_plusHeader]
    exact congrArg DiffState.result (run_hunks d.path hunks _)
  | deleted removed =>
    simp only [List.map_cons, List.foldl_cons, List.map_map]
    rw [stripCr_minusHeader false d.noCr, parseDiffLine_minusHeader]
    exact run_removed removed _

theorem lookup_addLines (path q : Path) (ls : List Text) (result : FileMap) :
    (addLines path ls result).lookup q =
      if q = path ∧ ls ≠ [] then some (ls.foldl pushLine ((result.lookup path).getD []))
      else result.lookup q := by
  induction ls generalizing result with
  | nil => simp [addLines]
  | cons l ls ih =>
    have hstep : addLines path (l :: ls) result = addLines path ls (addLine path l result) := rfl
    rw [hstep, ih, addLine, lookup_upsert, lookup_upsert]
    by_cases hq : q = path
    · by_cases hls : ls = []
      · simp [hq, hls]
      · simp [hq, hls]
    · simp [hq]

theorem run_other_sections (ds : List FileDiff) {q : Path} (hq : q ∉ ds.map FileDiff.path)
    (st : DiffState) :
    (((ds.flatMap FileDiff.render).map stripCr).foldl parseDiffLine st).result.lookup q =
      st.result.lookup q := by
  induction ds generalizing st with
  | nil => rfl
  | cons e ds ih =>
    rw [List.map_cons, List.mem_cons, not_or] at hq
    rw [List.flatMap_cons, List.map_append, List.foldl_append, ih hq.2, run_section,
      lookup_addLines, if_neg (fun h => hq.1 h.1)]

/-- The whole diff: a file that occurs once is mapped to its captured lines. -/
theorem run_sections (ds : List FileDiff) (distinct : (ds.map FileDiff.path).Nodup)
    (st : DiffState) {d : FileDiff} (hd : d ∈ ds) (hnew : st.result.lookup d.path = none) :
    (((ds.flatMap FileDiff.render).map stripCr).foldl parseDiffLine st).result.lookup d.path =
      if kept d.added = [] then none else some ((kept d.added).foldl pushLine []) := by
  induction ds generalizing st with
  | nil => simp at hd
  | cons e ds ih =>
    rw [List.map_cons, List.nodup_cons] at distinct
    rw [List.flatMap_cons, List.map_append, List.foldl_append]
    rcases List.mem_cons.mp hd with rfl | hd
    · rw [run_other_sections ds distinct.1, run_section, lookup_addLines, hnew]
      by_cases hk : kept d.added = []
      · simp [hk]
      · simp [hk]
    · apply ih distinct.2 _ hd
      have hne : d.path ≠ e.path := fun h => distinct.1 (h ▸ List.mem_map_of_mem hd)
      rw [run_section, lookup_addLines, if_neg (fun h => hne h.1)]
      exact hnew

end Runs

section Exactness

theorem foldl_pushLine_of_ne_nil {e : Text} (he : e ≠ []) (ls : List Text) :
    ls.foldl pushLine e = joinLines (e :: ls) := by
  induction ls generalizing e with
  | nil => simp
  | cons l ls ih =>
    have hpush : pushLine e l = e ++ '\n' :: l := by simp [pushLine, he]
    rw [List.foldl_cons, hpush, ih (by simp), joinLines_append_cons, joinLines_cons_cons]

/-- Empty lines in front of the first text leave no trace. -/
theorem foldl_pushLine_nil (ls : List Text) :
    ls.foldl pushLine [] = joinLines (ls.dropWhile (· = [])) := by
  induction ls with
  | nil => rfl
  | cons l ls ih =>
    by_cases hl : l = []
    · subst hl
      exact ih
    · have hpush : pushLine [] l = l := rfl
      rw [List.foldl_cons, hpush, foldl_pushLine_of_ne_nil hl, List.dropWhile_cons_of_neg (by simpa)]

theorem renderDiff_no_lf (ds : List FileDiff) :
    ∀ l ∈ ds.flatMap FileDiff.render, '\n' ∉ l := by
  intro l hl
  obtain ⟨d, -, hl⟩ := List.mem_flatMap.mp hl
  have hheader : ∀ a : Text, '\n' ∉ a → '\n' ∉ a ++ d.path := by
    intro a ha hm
    rcases List.mem_append.mp hm with hm | hm
    · exact ha hm
    · exact d.oneLine hm
  have hminus : ∀ fresh, '\n' ∉ FileDiff.minusHeader fresh d.path := by
    intro fresh
    cases fresh with
    | true =>
      change '\n' ∉ "--- /dev/null".toList
      decide
    | false => exact hheader _ (by decide)
  have hsign : ∀ (c : Char) (k : ContentLine), c ≠ '\n' → '\n' ∉ c :: k.text := by
    intro c k hc hm
    rcases List.mem_cons.mp hm with hm | hm
    · exact hc hm.symm
    · exact k.oneLine hm
  rw [FileDiff.render, List.mem_append] at hl
  rcases hl with hl | hl
  · obtain ⟨k, -, rfl⟩ := List.mem_map.mp hl
    exact k.oneLine
  · cases hb : d.body with
    | appended fresh hunks =>
      rw [hb] at hl
      simp only [List.mem_cons, List.mem_map] at hl
      rcases hl with rfl | rfl | ⟨k, -, rfl⟩
      · exact hminus fresh
      · exact hheader _ (by decide)
      · cases k with
        | context k => exact k.oneLine
        | added k => exact hsign '+' k (by decide)
    | deleted removed =>
      rw [hb] at hl
      simp only [List.mem_cons, List.mem_map] at hl
      rcases hl with rfl | rfl | ⟨k, -, rfl⟩
      · exact hminus false
      · decide
      · exact hsign '-' k (by decide)

/-- A file of the diff is mapped to its captured lines. -/
theorem lookup_parseDiffOutput (ds : List FileDiff) (distinct : (ds.map FileDiff.path).Nodup)
    {d : FileDiff} (hd : d ∈ ds) :
    (parseDiffOutput (renderDiff ds)).lookup d.path = captured d.added := by
  rw [parseDiffOutput, renderDiff, lines_unlines _ (renderDiff_no_lf ds),
    run_sections ds distinct _ hd rfl, captured, foldl_pushLine_nil]

/-- The number of characters of the lines, each with its end. -/
def size (ls : List Text) : Nat := (ls.map fun l => l.length + 1).sum

@[simp] theorem size_nil : size [] = 0 := rfl

@[simp] theorem size_cons (l : Text) (ls : List Text) : size (l :: ls) = l.length + 1 + size ls :=
  List.sum_cons

theorem size_kept_le (ls : List Text) : size (kept ls) ≤ size ls := by
  induction ls with
  | nil => exact Nat.le_refl _
  | cons l ls ih =>
    have hlen := length_stripCr_le l
    by_cases hpp : "++".toList <+: l
    · rw [kept_cons_header hpp, size_cons]
      omega
    · rw [kept_cons_plain hpp, size_cons, size_cons]
      omega

/-- A dropped or shortened line is missed in the total. -/
theorem kept_eq_of_size (ls : List Text) (h : size (kept ls) = size ls) :
    ∀ l ∈ ls, ¬ "++".toList <+: l ∧ ¬ EndsInCr l := by
  induction ls with
  | nil => simp
  | cons l ls ih =>
    have hle := size_kept_le ls
    have hlen := length_stripCr_le l
    by_cases hpp : "++".toList <+: l
    · rw [kept_cons_header hpp, size_cons] at h
      omega
    · rw [kept_cons_plain hpp, size_cons, size_cons] at h
      have hcr : ¬ EndsInCr l := by
        intro hcr
        have := length_stripCr_lt hcr
        omega
      intro m hm
      rcases List.mem_cons.mp hm with rfl | hm
      · exact ⟨hpp, hcr⟩
      · exact ih (by omega) m hm

theorem kept_of_capturable {ls : List Text} (h : ∀ l ∈ ls, ¬ "++".toList <+: l ∧ ¬ EndsInCr l) :
    kept ls = ls := by
  induction ls with
  | nil => rfl
  | cons l ls ih =>
    have hl := h l List.mem_cons_self
    rw [kept_cons_plain hl.1, stripCr_of_not_endsInCr hl.2,
      ih fun m hm => h m (List.mem_cons_of_mem l hm)]

theorem size_dropWhile_le (ls : List Text) : size (ls.dropWhile (· = [])) ≤ size ls := by
  induction ls with
  | nil => exact Nat.le_refl _
  | cons l ls ih =>
    by_cases hl : l = []
    · rw [List.dropWhile_cons_of_pos (by simpa using hl), size_cons]
      omega
    · have hkept : (l :: ls).dropWhile (· = []) = l :: ls :=
        List.dropWhile_cons_of_neg (by simpa using hl)
      exact Nat.le_of_eq (congrArg size hkept)

/-- A single empty line apart, a faithful capture keeps the total size. -/
theorem size_of_captured {ls : List Text} (hone : ls ≠ [[]]) (h : captured ls = appendedText ls) :
    size ((kept ls).dropWhile (· = [])) = size ls := by
  rw [captured, appendedText] at h
  by_cases hls : ls = []
  · subst hls
    rfl
  · rw [if_neg hls] at h
    split at h
    · cases h
    · have hlen := congrArg List.length (Option.some.inj h)
      rw [length_joinLines, length_joinLines] at hlen
      change size _ - 1 = size ls - 1 at hlen
      obtain ⟨l, rest, rfl⟩ := List.exists_cons_of_ne_nil hls
      have hpos : 1 < size (l :: rest) := by
        rw [size_cons]
        cases l with
        | nil =>
          cases rest with
          | nil => exact absurd rfl hone
          | cons m rest =>
            rw [size_cons]
            omega
        | cons c l =>
          rw [List.length_cons]
          omega
      omega

/-- The captured text is the appended text for the capturable lines and for no others. -/
theorem captured_eq_appendedText_iff (ls : List Text) :
    captured ls = appendedText ls ↔ Capturable ls := by
  constructor
  · intro h
    by_cases hone : ls = [[]]
    · subst hone
      exact ⟨by decide, by decide, fun _ => rfl⟩
    · have hsize := size_of_captured hone h
      have hle := size_kept_le ls
      have hdrop := size_dropWhile_le (kept ls)
      have hkept := kept_eq_of_size ls (by omega)
      refine ⟨fun l hl => (hkept l hl).1, fun l hl => (hkept l hl).2, ?_⟩
      intro hhead
      rw [kept_of_capturable hkept] at hsize
      obtain ⟨rest, rfl⟩ := List.head?_eq_some_iff.mp hhead
      have hrest := size_dropWhile_le rest
      rw [List.dropWhile_cons_of_pos (by simp), size_cons] at hsize
      omega
  · intro h
    rw [captured, appendedText, kept_of_capturable fun l hl => ⟨h.unsigned l hl, h.noCr l hl⟩]
    by_cases hone : ls = [[]]
    · subst hone
      rfl
    · cases ls with
      | nil => rfl
      | cons l rest =>
        have hl : l ≠ [] := fun hl => hone (h.first (by simp [hl]))
        rw [List.dropWhile_cons_of_neg (by simpa using hl)]

/-- The parser maps a file to the text appended to it exactly when every line of that text can
be told from a header, ends in no carriage return and follows some character. -/
theorem parseDiffOutput_captures_iff (ds : List FileDiff)
    (distinct : (ds.map FileDiff.path).Nodup) {d : FileDiff} (hd : d ∈ ds) :
    (parseDiffOutput (renderDiff ds)).lookup d.path = appendedText d.added ↔
      Capturable d.added := by
  rw [lookup_parseDiffOutput ds distinct hd]
  exact captured_eq_appendedText_iff d.added

end Exactness

/-- The section of an existing thread with a context line and the given lines behind it. -/
def appendDiff (ls : List ContentLine) : FileDiff where
  path := "channels/general.thread".toList
  oneLine := by decide
  noCr := by decide
  preamble := [⟨"index 83db48f..bf269f4 100644".toList, by decide, by decide⟩]
  body := .appended false (.context ⟨"@@ -1 +1,2 @@".toList, by decide, by decide⟩ ::
    ls.map HunkLine.added)

def deletionDiff : FileDiff where
  path := "channels/old.thread".toList
  oneLine := by decide
  noCr := by decide
  preamble := []
  body := .deleted [⟨"-- a/channels/general.thread".toList, by decide⟩]

/-- A bullet list, a blank line and a quoted sign, beside a deleted file. -/
theorem parseDiffOutput_captures_bullets :
    (parseDiffOutput (renderDiff [deletionDiff, appendDiff
      [⟨"- one".toList, by decide⟩, ⟨[], by decide⟩, ⟨"+ two".toList, by decide⟩]])).lookup
        "channels/general.thread".toList = some "- one\n\n+ two".toList :=
  (parseDiffOutput_captures_iff [deletionDiff, appendDiff
    [⟨"- one".toList, by decide⟩, ⟨[], by decide⟩, ⟨"+ two".toList, by decide⟩]] (by decide)
    (List.mem_cons_of_mem _ List.mem_cons_self)).mpr ⟨by decide, by decide, by decide⟩

/-- A line that starts with `++` is lost, a leading empty line is lost, and a final carriage
return is lost. -/
theorem parseDiffOutput_loses :
    (parseDiffOutput (renderDiff [appendDiff
      [⟨"a".toList, by decide⟩, ⟨"++i".toList, by decide⟩]])).lookup
        "channels/general.thread".toList ≠ some "a\n++i".toList ∧
    (parseDiffOutput (renderDiff [appendDiff
      [⟨[], by decide⟩, ⟨"a".toList, by decide⟩]])).lookup
        "channels/general.thread".toList ≠ some "\na".toList ∧
    (parseDiffOutput (renderDiff [appendDiff [⟨"a\r".toList, by decide⟩]])).lookup
        "channels/general.thread".toList ≠ some "a\r".toList := by
  decide +kernel

end DiffCapture
