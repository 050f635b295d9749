import GitIM.DiffCapture
import Mathlib.Data.List.Sort
import Mathlib.Data.List.Dedup

/-!
# The diff of two trees

What git writes for two trees with renames turned off, and what the parser of diffs makes
of it. Git prints one section for each path whose contents differ. If no changed line of
a section can be taken for the headers of another file, a path is mapped to the lines
that were added to it, whatever else has changed.
-/

namespace TreeDiff

open TextLines FileTree DiffCapture

section Output

inductive ChangeLine where
  | context (l : ContextLine)
  | added (l : ContentLine)
  | removed (l : ContentLine)

def ChangeLine.render : ChangeLine → Text
  | .context l => l.text
  | .added l => '+' :: l.text
  | .removed l => '-' :: l.text

def ChangeLine.addedText? : ChangeLine → Option Text
  | .added l => some l.text
  | _ => none

/-- The part of `git diff` that compares the contents of one path. A change without lines, of a
binary or an empty file, has no headers; a file that is gone has no added lines; all lines of a
new text file are added. -/
structure LineDiff where
  preamble : Path → Option Text → Option Text → List ContextLine
  hunks : Option Text → Option Text → Option (List ChangeLine)
  deleted : ∀ old ls, hunks old none = some ls → ls.filterMap ChangeLine.addedText? = []
  fresh : ∀ l : ContentLine, l.text ≠ [] → Char.ofNat 0 ∉ l.text →
    ∃ ls, hunks none (some (l.text ++ ['\n'])) = some ls ∧
      ls.filterMap ChangeLine.addedText? = [l.text] ∧ ∀ r, ChangeLine.removed r ∉ ls

variable (git : LineDiff)

def plusHeader (gone : Bool) (path : Path) : Text :=
  if gone then "+++ /dev/null".toList else "+++ b/".toList ++ path

/-- The section of one path. -/
def renderFile (path : Path) (old new : Option Text) : List Text :=
  if old = new then []
  else (git.preamble path old new).map ContextLine.text ++
    match git.hunks old new with
    | none => []
    | some ls => FileDiff.minusHeader old.isNone path :: plusHeader new.isNone path ::
        ls.map ChangeLine.render

/-- The lines added to a file. -/
def addedLines (old new : Option Text) : List Text :=
  if old = new then [] else ((git.hunks old new).getD []).filterMap ChangeLine.addedText?

/-- The paths whose contents differ, in order. -/
def changedPaths (since polled : FileMap) : List Path :=
  (((since.map Prod.fst ++ polled.map Prod.fst).dedup.filter
    fun p => since.lookup p ≠ polled.lookup p)).insertionSort fun a b => a ≤ b

def diffText (since polled : FileMap) : Text :=
  unlines ((changedPaths since polled).flatMap fun p =>
    renderFile git p (since.lookup p) (polled.lookup p))

/-- A path that git prints as it is: visible characters that need no quotes. -/
def plainPath (path : Path) : Bool :=
  path.all fun c => '!' ≤ c ∧ c ≤ '~' ∧ c ≠ '"' ∧ c ≠ '\\'

/-- No two lines read as the headers of a file; the flag says whether the line before reads as the
first of them. -/
def HeaderFree : Bool → List Text → Prop
  | _, [] => True
  | flag, l :: ls =>
    ¬(flag = true ∧ "+++ b/".toList <+: l) ∧ HeaderFree (isMinusHeader l) ls

instance decidableHeaderFree : ∀ flag ls, Decidable (HeaderFree flag ls)
  | _, [] => isTrue trivial
  | flag, l :: ls =>
    have := decidableHeaderFree (isMinusHeader l) ls
    inferInstanceAs (Decidable (¬(flag = true ∧ "+++ b/".toList <+: l) ∧
      HeaderFree (isMinusHeader l) ls))

/-- Every changed path is printed as it is, and its changed lines do not read as headers. -/
def Contained (since polled : FileMap) : Prop :=
  ∀ p ∈ changedPaths since polled, plainPath p = true ∧
    HeaderFree false (((git.hunks (since.lookup p) (polled.lookup p)).getD []).map
      fun l => stripCr l.render)

instance (since polled : FileMap) : Decidable (Contained git since polled) :=
  inferInstanceAs (Decidable (∀ p ∈ changedPaths since polled, plainPath p = true ∧
    HeaderFree false (((git.hunks (since.lookup p) (polled.lookup p)).getD []).map
      fun l => stripCr l.render)))

end Output

section Sections
variable {git : LineDiff}

theorem mem_changedPaths {since polled : FileMap} {p : Path} :
    p ∈ changedPaths since polled ↔ since.lookup p ≠ polled.lookup p := by
  rw [changedPaths, List.mem_insertionSort, List.mem_filter, List.mem_dedup, List.mem_append]
  constructor
  · intro h
    simpa using h.2
  · intro h
    refine ⟨?_, by simpa using h⟩
    rw [← lookup_isSome_iff, ← lookup_isSome_iff]
    cases hold : since.lookup p with
    | some t => exact .inl ⟨t, rfl⟩
    | none =>
      cases hnew : polled.lookup p with
      | some t => exact .inr ⟨t, rfl⟩
      | none => exact absurd (hold.trans hnew.symm) h

theorem nodup_changedPaths (since polled : FileMap) : (changedPaths since polled).Nodup := by
  apply (List.perm_insertionSort _ _).nodup_iff.mpr
  exact (List.nodup_dedup _).filter _

theorem not_mem_of_plain {path : Path} (h : plainPath path = true) {c : Char} (hc : c < '!') :
    c ∉ path := by
  intro hmem
  have hvisible : '!' ≤ c := by
    have := List.all_eq_true.mp h c hmem
    simp only [decide_eq_true_eq] at this
    exact this.1
  exact absurd hc (not_lt.mpr hvisible)

theorem noCr_of_plain {path : Path} (h : plainPath path = true) : ¬EndsInCr path := by
  intro hcr
  exact not_mem_of_plain h (by decide) (List.mem_of_getLast? hcr)

/-- Whether the line before read as a header matters only to the second header. -/
theorem parseDiffLine_flag {line : Text} {flag : Bool}
    (h : ¬(flag = true ∧ "+++ b/".toList <+: line)) (result : FileMap) (path : Path) :
    parseDiffLine ⟨result, some path, flag⟩ line = parseDiffLine ⟨result, some path, false⟩ line := by
  cases flag with
  | false => rfl
  | true =>
    have hb : ¬"+++ b/".toList <+: line := fun hb => h ⟨rfl, hb⟩
    simp only [parseDiffLine, if_neg hb]

theorem parseDiffLine_removed_eq (l : Text) (result : FileMap) (path : Path) :
    parseDiffLine ⟨result, some path, false⟩ (stripCr ('-' :: l)) =
      ⟨result, some path, isMinusHeader (stripCr ('-' :: l))⟩ := by
  have hhead : (stripCr ('-' :: l)).head? = some '-' := by
    rw [stripCr_cons (by decide) l]
    rfl
  have hplus : ¬['+'] <+: stripCr ('-' :: l) := by
    intro h
    exact absurd (hhead.symm.trans (head?_of_singleton h)) (by decide)
  have hb : ¬"+++ b/".toList <+: stripCr ('-' :: l) := by
    intro h
    exact hplus (List.IsPrefix.trans (by decide) h)
  have hadd : ¬(['+'] <+: stripCr ('-' :: l) ∧ ¬"+++".toList <+: stripCr ('-' :: l)) :=
    fun h => hplus h.1
  cases hheader : isMinusHeader (stripCr ('-' :: l)) with
  | true => rw [parseDiffLine, if_pos hheader]
  | false =>
    rw [parseDiffLine, if_neg (ne_true_of_eq_false hheader), if_neg hb, if_neg hadd]

theorem isMinusHeader_of_head {l : Text} (h : l.head? ≠ some '-') : isMinusHeader l = false := by
  apply eq_false_of_ne_true
  exact fun hheader => h (isMinusHeader_dash hheader)

/-- Only a removed line can be taken for the first header of a file. -/
theorem isMinusHeader_change {l : ChangeLine} (h : ∀ r, l ≠ .removed r) :
    isMinusHeader (stripCr l.render) = false := by
  apply isMinusHeader_of_head
  cases l with
  | removed l => exact absurd rfl (h l)
  | added l =>
    rw [ChangeLine.render, stripCr_cons (by decide) l.text]
    simp
  | context l =>
    intro hdash
    obtain ⟨t, ht⟩ := List.head?_eq_some_iff.mp hdash
    exact l.unsigned.2 (head?_of_singleton (List.IsPrefix.trans ⟨t, ht.symm⟩ (stripCr_isPrefix _)))

theorem run_change (path : Path) (l : ChangeLine) (result : FileMap) :
    parseDiffLine ⟨result, some path, false⟩ (stripCr l.render) =
      ⟨addLines path (kept l.addedText?.toList) result, some path,
        isMinusHeader (stripCr l.render)⟩ := by
  cases l with
  | removed l => exact parseDiffLine_removed_eq l.text result path
  | added l =>
    rw [isMinusHeader_change (by simp)]
    exact parseDiffLine_added path result l.text
  | context l =>
    rw [isMinusHeader_change (by simp)]
    exact parseDiffLine_context l _

/-- Behind the headers of a file, the kept lines go to that file. -/
theorem run_changes (path : Path) (ls : List ChangeLine) (result : FileMap) {flag : Bool}
    (h : HeaderFree flag (ls.map fun l => stripCr l.render)) :
    ((ls.map fun l => stripCr l.render).foldl parseDiffLine ⟨result, some path, flag⟩).result =
      addLines path (kept (ls.filterMap ChangeLine.addedText?)) result := by
  induction ls generalizing result flag with
  | nil => rfl
  | cons l ls ih =>
    have hsplit : kept ((l :: ls).filterMap ChangeLine.addedText?) =
        kept l.addedText?.toList ++ kept (ls.filterMap ChangeLine.addedText?) := by
      rw [← kept_append]
      cases l with
      | context l => rfl
      | added l => rfl
      | removed l => rfl
    rw [List.map_cons, HeaderFree] at h
    rw [List.map_cons, List.foldl_cons, parseDiffLine_flag h.1, run_change, ih _ h.2, hsplit,
      addLines_append]

theorem run_undone (ls : List ChangeLine) (st : DiffState)
    (h : ls.filterMap ChangeLine.addedText? = []) :
    ((ls.map fun l => stripCr l.render).foldl parseDiffLine st).result = st.result := by
  induction ls generalizing st with
  | nil => rfl
  | cons l ls ih =>
    cases l with
    | added l => cases h
    | context l => rw [List.map_cons, List.foldl_cons, ih _ h, ChangeLine.render,
        parseDiffLine_context]
    | removed l => rw [List.map_cons, List.foldl_cons, ih _ h, ChangeLine.render,
        parseDiffLine_removed]

/-- One section: the parser adds the kept lines to its file, from any state. -/
theorem run_file {path : Path} {old new : Option Text} (hplain : plainPath path = true)
    (hfree : HeaderFree false (((git.hunks old new).getD []).map fun l => stripCr l.render))
    (st : DiffState) :
    (((renderFile git path old new).map stripCr).foldl parseDiffLine st).result =
      addLines path (kept (addedLines git old new)) st.result := by
  by_cases hsame : old = new
  · rw [renderFile, addedLines, if_pos hsame, if_pos hsame]
    rfl
  rw [renderFile, addedLines, if_neg hsame, if_neg hsame, List.map_append, List.foldl_append,
    List.map_map]
  have hpre := run_preamble (git.preamble path old new) st
  cases hhunks : git.hunks old new with
  | none => exact hpre
  | some ls =>
    simp only [List.map_cons, List.foldl_cons, List.map_map, Option.getD_some]
    rw [stripCr_minusHeader _ (noCr_of_plain hplain), parseDiffLine_minusHeader]
    cases new with
    | none =>
      have hnone := git.deleted old ls hhunks
      rw [hnone]
      exact (run_undone ls _ hnone).trans hpre
    | some text =>
      have hplus : stripCr (plusHeader false path) = "+++ b/".toList ++ path :=
        stripCr_plusHeader (noCr_of_plain hplain)
      rw [Option.isNone_some, hplus, parseDiffLine_plusHeader]
      rw [hhunks, Option.getD_some] at hfree
      rw [← hpre]
      exact run_changes path ls _ hfree

/-- The sections of some paths: a path is mapped to its own kept lines. -/
theorem lookup_run_files {old new : Path → Option Text} {paths : List Path}
    (hfiles : ∀ p ∈ paths, plainPath p = true ∧
      HeaderFree false (((git.hunks (old p) (new p)).getD []).map fun l => stripCr l.render))
    (hnodup : paths.Nodup) (q : Path) (st : DiffState) (hq : q ∈ paths → st.result.lookup q = none) :
    (((paths.flatMap fun p => renderFile git p (old p) (new p)).map stripCr).foldl parseDiffLine
      st).result.lookup q =
        if q ∈ paths then captured (addedLines git (old q) (new q)) else st.result.lookup q := by
  induction paths generalizing st with
  | nil => rfl
  | cons p paths ih =>
    rw [List.nodup_cons] at hnodup
    obtain ⟨hplain, hfree⟩ := hfiles p List.mem_cons_self
    have hrest := fun r hr => hfiles r (List.mem_cons_of_mem p hr)
    have hafter := @run_file _ p _ _ hplain hfree st
    have hlook : ∀ r, (((renderFile git p (old p) (new p)).map stripCr).foldl parseDiffLine
        st).result.lookup r = if r = p ∧ kept (addedLines git (old p) (new p)) ≠ [] then
          some ((kept (addedLines git (old p) (new p))).foldl pushLine
            ((st.result.lookup p).getD [])) else st.result.lookup r := by
      intro r
      rw [hafter, lookup_addLines]
    rw [List.flatMap_cons, List.map_append, List.foldl_append]
    by_cases hqp : q = p
    · subst hqp
      rw [ih hrest hnodup.2 _ (fun h => absurd h hnodup.1), if_neg hnodup.1,
        if_pos List.mem_cons_self, hlook, hq List.mem_cons_self, captured]
      by_cases hkept : kept (addedLines git (old q) (new q)) = []
      · simp [hkept]
      · simp [hkept, foldl_pushLine_nil]
    · have hsame := hlook q
      rw [if_neg (fun h => hqp h.1)] at hsame
      have hmem : q ∈ p :: paths ↔ q ∈ paths := by simp [hqp]
      rw [ih hrest hnodup.2 _ (fun h => hsame.trans (hq (hmem.mpr h))), hsame]
      simp only [hmem]

end Sections

section Trees
variable {git : LineDiff} {since polled : FileMap}

theorem captured_nil : captured [] = none := rfl

theorem render_no_lf (l : ChangeLine) : '\n' ∉ l.render := by
  cases l with
  | context l => exact l.oneLine
  | added l => simpa [ChangeLine.render] using l.oneLine
  | removed l => simpa [ChangeLine.render] using l.oneLine

theorem renderFile_no_lf {path : Path} {old new : Option Text} (hplain : plainPath path = true) :
    ∀ l ∈ renderFile git path old new, '\n' ∉ l := by
  have hpath : '\n' ∉ path := not_mem_of_plain hplain (by decide)
  intro l hl
  rw [renderFile] at hl
  split at hl
  · cases hl
  rcases List.mem_append.mp hl with hl | hl
  · obtain ⟨context, -, rfl⟩ := List.mem_map.mp hl
    exact context.oneLine
  split at hl
  · cases hl
  · rcases List.mem_cons.mp hl with rfl | hl
    · cases old with
      | none => exact (by decide : '\n' ∉ "--- /dev/null".toList)
      | some t =>
        intro hmem
        rcases List.mem_append.mp hmem with hmem | hmem
        · exact absurd hmem (by decide)
        · exact hpath hmem
    rcases List.mem_cons.mp hl with rfl | hl
    · cases new with
      | none => exact (by decide : '\n' ∉ "+++ /dev/null".toList)
      | some t =>
        intro hmem
        rcases List.mem_append.mp hmem with hmem | hmem
        · exact absurd hmem (by decide)
        · exact hpath hmem
    · obtain ⟨change, -, rfl⟩ := List.mem_map.mp hl
      exact render_no_lf change

/-- A path of the diff is mapped to the lines added to it, whatever else has changed. -/
theorem lookup_diff (h : Contained git since polled) (q : Path) :
    (parseDiffOutput (diffText git since polled)).lookup q =
      captured (addedLines git (since.lookup q) (polled.lookup q)) := by
  have hlf : ∀ l ∈ (changedPaths since polled).flatMap fun p =>
      renderFile git p (since.lookup p) (polled.lookup p), '\n' ∉ l := by
    intro l hl
    obtain ⟨p, hp, hl⟩ := List.mem_flatMap.mp hl
    exact renderFile_no_lf (h p hp).1 l hl
  rw [parseDiffOutput, diffText, lines_unlines _ hlf,
    lookup_run_files h (nodup_changedPaths since polled) q _ (fun _ => rfl)]
  split
  · rfl
  · rename_i hq
    have hsame : since.lookup q = polled.lookup q := by
      by_contra hne
      exact hq (mem_changedPaths.mpr hne)
    rw [addedLines, if_pos hsame]
    rfl

theorem nodup_upsert {f : Option Text → Text} {k : Path} {m : FileMap}
    (h : (m.map Prod.fst).Nodup) : ((upsert f k m).map Prod.fst).Nodup := by
  induction m with
  | nil => simp [upsert]
  | cons head rest ih =>
    obtain ⟨q, v⟩ := head
    rw [List.map_cons, List.nodup_cons] at h
    rw [upsert]
    split
    · exact List.nodup_cons.mpr h
    · rename_i hne
      rw [List.map_cons, List.nodup_cons]
      refine ⟨?_, ih h.2⟩
      intro hmem
      obtain ⟨w, hw⟩ := lookup_isSome_iff.mpr hmem
      rw [lookup_upsert, if_neg hne] at hw
      exact h.1 (lookup_isSome_iff.mp ⟨w, hw⟩)

/-- The parser maps every path once. -/
theorem nodup_parseDiffOutput (stdout : Text) :
    ((parseDiffOutput stdout).map Prod.fst).Nodup := by
  have hstep : ∀ (ls : List Text) (st : DiffState), (st.result.map Prod.fst).Nodup →
      ((ls.foldl parseDiffLine st).result.map Prod.fst).Nodup := by
    intro ls
    induction ls with
    | nil => exact fun _ h => h
    | cons l ls ih =>
      intro st h
      apply ih
      rw [parseDiffLine]
      split
      · exact h
      split
      · exact h
      split
      · cases st.currentPath with
        | none => exact h
        | some path => exact nodup_upsert h
      · exact h
  exact hstep _ _ List.nodup_nil

end Trees

end TreeDiff
