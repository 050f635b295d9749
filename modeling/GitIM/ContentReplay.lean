import GitIM.Checked
import GitIM.DiffCapture
import GitIM.ThreadMerge

/-!
# Capture and replay of thread additions

The steps that the conflict path of a sync cycle and the epoch migration share: the
additions are read from the output of `git diff`, and `resolve_content` places them
behind the files of the tree that is checked out.
-/

namespace ContentReplay

open TextLines FileTree ThreadFormat ThreadMerge DiffCapture

section Resolution
variable {Json : Type} (codec : JsonCodec Json)

/-- `resolve_content` on the checked-out tree; `io` says that its reads and directories succeed. -/
def resolveContent (io : Bool) (localAdditions tree : FileMap) :
    Except ConflictError (List ResolvedFile × List RenumberMapping) :=
  if io then resolveContentPure codec localAdditions tree else .error .io

/-- The content of one file with the added text behind it. -/
def ResolvesTo (tree : FileMap) (path : Path) (text content : Text) : Prop :=
  ∃ mappings,
    resolveFile codec path text ((tree.lookup path).getD []) = .ok (⟨path, content⟩, mappings)

/-- The resolved files as writes to the tree. -/
def asWrites (files : List ResolvedFile) : FileMap := files.map fun f => (f.path, f.content)

theorem resolveFile_path {path : Path} {text remote : Text} {file : ResolvedFile}
    {mappings : List RenumberMapping}
    (h : resolveFile codec path text remote = .ok (file, mappings)) : file.path = path := by
  simp only [resolveFile, Checked.bind_eq_ok_iff] at h
  obtain ⟨_, -, _, -, _, -, _, -, heq⟩ := h
  cases heq
  rfl

theorem resolvesTo_unique {tree : FileMap} {path : Path} {text a b : Text}
    (ha : ResolvesTo codec tree path text a) (hb : ResolvesTo codec tree path text b) : a = b := by
  obtain ⟨_, ha⟩ := ha
  obtain ⟨_, hb⟩ := hb
  cases ha.symm.trans hb
  rfl

theorem resolvesTo_of_ok {tree : FileMap} {path : Path} {text : Text}
    {result : ResolvedFile × List RenumberMapping}
    (h : resolveFile codec path text ((tree.lookup path).getD []) = .ok result) :
    result.1.path = path ∧ ResolvesTo codec tree path text result.1.content := by
  obtain ⟨⟨p, content⟩, mappings⟩ := result
  have hpath : p = path := resolveFile_path codec h
  subst hpath
  exact ⟨rfl, mappings, h⟩

/-- Results of a traversal, one per key, are found under their key. -/
theorem lookup_of_forall₂ {keys : List Path} {results : List (ResolvedFile × List RenumberMapping)}
    {R : Path → Text → Prop}
    (h : List.Forall₂ (fun k r => r.1.path = k ∧ R k r.1.content) keys results) (path : Path) :
    (path ∈ keys → ∃ content, R path content ∧
      (asWrites (results.map Prod.fst)).lookup path = some content) ∧
    (path ∉ keys → (asWrites (results.map Prod.fst)).lookup path = none) := by
  induction h with
  | nil => simp [asWrites]
  | @cons k r keys results hr _ ih =>
    obtain ⟨hpath, hcontent⟩ := hr
    simp only [asWrites, List.map_cons, lookup_cons_ite, hpath, List.mem_cons, not_or]
    by_cases hk : path = k
    · subst hk
      exact ⟨fun _ => ⟨_, hcontent, if_pos rfl⟩, fun h => absurd rfl h.1⟩
    · rw [if_neg hk]
      exact ⟨fun h => ih.1 (h.resolve_left hk), fun h => ih.2 h.2⟩

/-- What a successful resolution writes: every file of the additions, resolved, and no other. -/
theorem resolveContentPure_ok {additions tree : FileMap}
    {files : List ResolvedFile} {mappings : List RenumberMapping}
    (h : resolveContentPure codec additions tree = .ok (files, mappings)) (path : Path) :
    (∀ text, additions.lookup path = some text → ∃ content,
      ResolvesTo codec tree path text content ∧ (asWrites files).lookup path = some content) ∧
    (additions.lookup path = none → (asWrites files).lookup path = none) := by
  simp only [resolveContentPure, Checked.bind_eq_ok_iff, Checked.mapM_eq_ok_iff] at h
  obtain ⟨results, hresults, heq⟩ := h
  cases heq
  have hentries := hresults.imp (fun k r hr => resolvesTo_of_ok codec hr)
  obtain ⟨hfound, hother⟩ := lookup_of_forall₂ hentries path
  rw [List.mem_insertionSort] at hfound hother
  constructor
  · intro text htext
    obtain ⟨content, hcontent, hlookup⟩ := hfound (lookup_isSome_iff.mp ⟨text, htext⟩)
    rw [htext, Option.getD_some] at hcontent
    exact ⟨content, hcontent, hlookup⟩
  · intro hnone
    refine hother (fun hmem => ?_)
    obtain ⟨text, htext⟩ := lookup_isSome_iff.mpr hmem
    cases hnone.symm.trans htext

/-- The resolution succeeds if every file resolves. -/
theorem resolveContentPure_succeeds {additions tree : FileMap}
    (h : ∀ path text, additions.lookup path = some text →
      ∃ content, ResolvesTo codec tree path text content) :
    ∃ files mappings, resolveContentPure codec additions tree = .ok (files, mappings) := by
  have hall : ∀ path ∈ (additions.map Prod.fst).insertionSort pathLe, ∃ r,
      resolveFile codec path ((additions.lookup path).getD []) ((tree.lookup path).getD []) =
        .ok r := by
    intro path hpath
    rw [List.mem_insertionSort] at hpath
    obtain ⟨text, htext⟩ := lookup_isSome_iff.mpr hpath
    obtain ⟨content, mappings, hok⟩ := h path text htext
    exact ⟨_, by rw [htext]; exact hok⟩
  obtain ⟨results, hresults⟩ := Checked.mapM_succeeds hall
  refine ⟨results.map Prod.fst, results.flatMap Prod.snd, ?_⟩
  rw [resolveContentPure, hresults]
  rfl

end Resolution

section Survival
variable {Json : Type} (codec : JsonCodec Json)

/-- The content reads as the remote entries with the appended ones behind them, each with its own
text, renumbered in order and pointing at the same messages. -/
def MergedBehind (remote appended content : Text) : Prop :=
  ∃ r a merged, parseThread codec remote = .ok r ∧ parseThread codec appended = .ok a ∧
    parseThread codec content = .ok merged ∧
      merged.entries = r.entries ++ relocated a.entries (maxLine r.entries)

/-- What was captured reads as what was appended, and none of its entries is of a kind that the
formatting changes. -/
def Survives (remote appended text : Text) : Prop :=
  ∃ r a, parseThread codec remote = .ok r ∧ parseThread codec appended = .ok a ∧
    parseThread codec text = .ok a ∧ a.entries ≠ [] ∧ Movable a.entries ∧
      FormatStable codec a.entries ∧ maxLine r.entries + a.entries.length < u64Bound ∧
        ¬ EndsInCr remote

variable {codec} {remote appended text : Text}

theorem Survives.appended_ne_nil (h : Survives codec remote appended text) : appended ≠ [] := by
  obtain ⟨r, a, -, ha, -, hsome, -⟩ := h
  rintro rfl
  have hnil : parseThread codec [] = .ok (⟨[]⟩ : ThreadFile Json) := rfl
  cases hnil.symm.trans ha
  exact hsome rfl

/-- What survives is placed behind the remote entries. -/
theorem Survives.resolves (hcodec : codec.OneLine) (h : Survives codec remote appended text)
    (path : Path) : ∃ content mappings,
      resolveFile codec path text remote = .ok (⟨path, content⟩, mappings) ∧
        MergedBehind codec remote appended content ∧ content ≠ remote := by
  obtain ⟨r, a, hr, ha, htext, hsome, hmovable, hstable, hroom, hend⟩ := h
  obtain ⟨content, merged, hresolve, hmerged, hentries⟩ :=
    resolveFile_keeps codec hcodec path hr htext hmovable hstable hroom hend
  refine ⟨content, _, hresolve, ⟨r, a, merged, hr, ha, hmerged, hentries⟩, ?_⟩
  rintro rfl
  cases hr.symm.trans hmerged
  have hlength := congrArg List.length hentries
  rw [List.length_append, relocated, List.length_mapIdx] at hlength
  have hpositive := List.length_pos_of_ne_nil hsome
  omega

/-- A thread to which nothing was appended is merged as it stands. -/
theorem mergedBehind_nil {r : ThreadFile Json} (hr : parseThread codec remote = .ok r) :
    MergedBehind codec remote [] remote := by
  refine ⟨r, ⟨[]⟩, r, hr, rfl, hr, ?_⟩
  rw [relocated, List.mapIdx_nil, List.append_nil]

end Survival

end ContentReplay
