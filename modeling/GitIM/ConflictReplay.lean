import GitIM.ContentReplay
import Mathlib.Data.List.Dedup

/-!
# Replay of local changes after a rebase conflict

When the rebase of a sync cycle conflicts, `sync_with_push` captures the local side,
resets to the remote tree and writes the local changes again: threads through the
resolver, channel metadata through a merge, other metadata and boards as they are.
Base, local and remote are trees; the git and file commands of the branch succeed.
Quick sessions take a path of their own and are left out.
-/

namespace ConflictReplay

open TextLines FileTree ThreadFormat ThreadMerge DiffCapture ContentReplay

section Paths

def isThreadPath (path : Path) : Prop := ".thread".toList <:+ path

def isMetaPath (path : Path) : Prop := ".meta.yaml".toList <:+ path

/-- The test that lets a board pass as resolvable. -/
def isBoardPath (path : Path) : Prop :=
  "showboards/".toList <+: path ∧ "/board.md".toList <:+ path

/-- The pathspec that captures boards; its `*` may stand for several directories. -/
def matchesBoardSpec (path : Path) : Prop :=
  isBoardPath path ∧ "showboards/".length + "/board.md".length ≤ path.length

def isQuickSessionPath (path : Path) : Prop :=
  "quick-sessions/".toList <+: path ∨ "archive/quick-sessions/".toList <+: path

/-- Only the metadata of a channel itself, not that of its cards. -/
def isChannelMetaPath (path : Path) : Prop :=
  "channels/".toList <+: path ∧
    let name := path.drop "channels/".length
    '/' ∉ name ∧ ".meta.yaml".toList <:+ name ∧ ".meta.yaml".length < name.length

instance (path : Path) : Decidable (isThreadPath path) := inferInstanceAs (Decidable (_ <:+ _))

instance (path : Path) : Decidable (isMetaPath path) := inferInstanceAs (Decidable (_ <:+ _))

instance (path : Path) : Decidable (isBoardPath path) := inferInstanceAs (Decidable (_ ∧ _))

instance (path : Path) : Decidable (matchesBoardSpec path) := inferInstanceAs (Decidable (_ ∧ _))

instance (path : Path) : Decidable (isQuickSessionPath path) :=
  inferInstanceAs (Decidable (_ ∨ _))

instance (path : Path) : Decidable (isChannelMetaPath path) := inferInstanceAs (Decidable (_ ∧ _))

theorem isMetaPath_of_channel {path : Path} (h : isChannelMetaPath path) : isMetaPath path :=
  h.2.2.1.trans (List.drop_suffix _ _)

theorem suffix_agree {a b path : Text} (ha : a <:+ path) (hb : b <:+ path) :
    a <:+ b ∨ b <:+ a :=
  List.suffix_or_suffix_of_suffix ha hb

theorem not_meta_of_thread {path : Path} (h : isThreadPath path) : ¬ isMetaPath path := by
  intro hm
  rcases suffix_agree h hm with hs | hs
  · revert hs
    decide
  · revert hs
    decide

theorem not_board_of_thread {path : Path} (h : isThreadPath path) : ¬ isBoardPath path := by
  intro hb
  rcases suffix_agree h hb.2 with hs | hs
  · revert hs
    decide
  · revert hs
    decide

theorem not_board_of_meta {path : Path} (h : isMetaPath path) : ¬ isBoardPath path := by
  intro hb
  rcases suffix_agree h hb.2 with hs | hs
  · revert hs
    decide
  · revert hs
    decide

end Paths

section Metadata

structure ChannelMeta where
  displayName : Text
  createdBy : Text
  createdAt : Text
  introduction : Text
  members : List Text
  project : Option Text
  deriving DecidableEq

/-- Reading and writing of channel metadata as YAML. -/
structure MetaCodec where
  fromStr : Text → Option ChannelMeta
  toStr : ChannelMeta → Text

/-- Members are united and sorted; every other field is the remote one. -/
def mergeChannelMeta (ours theirs : ChannelMeta) : ChannelMeta :=
  { theirs with
    members := (ours.members.foldl
      (fun members m => if m ∈ members then members else members ++ [m])
      theirs.members).insertionSort (· ≤ ·) }

theorem mem_foldl_insert (m : Text) (more members : List Text) :
    m ∈ more.foldl (fun members m => if m ∈ members then members else members ++ [m]) members ↔
      m ∈ members ∨ m ∈ more := by
  induction more generalizing members with
  | nil => simp
  | cons k more ih =>
    rw [List.foldl_cons, ih, List.mem_cons]
    split
    · rename_i hk
      constructor
      · rintro (h | h)
        · exact Or.inl h
        · exact Or.inr (Or.inr h)
      · rintro (h | rfl | h)
        · exact Or.inl h
        · exact Or.inl hk
        · exact Or.inr h
    · rw [List.mem_append, List.mem_singleton, or_assoc]

/-- A merge neither removes nor invents a member. -/
theorem mem_mergeChannelMeta (ours theirs : ChannelMeta) (m : Text) :
    m ∈ (mergeChannelMeta ours theirs).members ↔ m ∈ theirs.members ∨ m ∈ ours.members := by
  rw [mergeChannelMeta, List.mem_insertionSort]
  exact mem_foldl_insert m _ _

end Metadata

section Replay
variable {Json : Type} (codec : JsonCodec Json) (yaml : MetaCodec)

/-- The trees of a conflict and the diff of the threads, as git prints it. -/
structure Conflict where
  base : FileMap
  ours : FileMap
  theirs : FileMap
  threadDiff : List FileDiff

/-- The paths that differ between the merge base and HEAD. -/
def changedFiles (c : Conflict) : List Path :=
  ((c.base ++ c.ours).map Prod.fst).dedup.filter
    fun path => c.base.lookup path ≠ c.ours.lookup path

def localAdditions (c : Conflict) : FileMap :=
  (parseDiffOutput (renderDiff c.threadDiff)).filter fun e => ¬ isQuickSessionPath e.1

/-- The changed metadata files that exist, with their local content. -/
def localMetas (c : Conflict) : FileMap :=
  (restrict ((changedFiles c).filter (isMetaPath ·)) (fun path => c.ours.lookup path)).filter
    fun e => ¬ isQuickSessionPath e.1

def localBoards (c : Conflict) : FileMap :=
  restrict ((changedFiles c).filter (matchesBoardSpec ·)) (fun path => c.ours.lookup path)

/-- The replay of one metadata file: channel metadata is merged with the file on disk, everything
else is last-writer-wins. -/
def resolveMeta (disk : FileMap) (path : Path) (localContent : Text) : Option Text :=
  if isChannelMetaPath path then do
    let remoteContent ← disk.lookup path
    let localMeta ← yaml.fromStr localContent
    let remoteMeta ← yaml.fromStr remoteContent
    some (yaml.toStr (mergeChannelMeta localMeta remoteMeta))
  else some localContent

/-- The loop over the metadata; its paths are distinct, so no write is read back. -/
def resolveMetas (disk : FileMap) : FileMap → Option FileMap
  | [] => some []
  | (path, localContent) :: rest => do
    let content ← resolveMeta yaml disk path localContent
    let more ← resolveMetas disk rest
    some ((path, content) :: more)

def threadWrites (c : Conflict) : Option FileMap :=
  if localAdditions c = [] then some []
  else
    match resolveContent codec true (localAdditions c) c.theirs with
    | .ok (files, _) => some (asWrites files)
    | .error _ => none

/-- Everything that is written over the remote tree. -/
def replayWrites (c : Conflict) : Option FileMap := do
  let threads ← threadWrites codec c
  let metas ← resolveMetas yaml (localBoards c ++ (threads ++ c.theirs)) (localMetas c)
  some (metas ++ (localBoards c ++ threads))

/-- A commit of files that are all as in HEAD fails. -/
def commitWrites (theirs writes : FileMap) : Option FileMap :=
  if ∀ e ∈ writes, writes.lookup e.1 = theirs.lookup e.1 then none else some (writes ++ theirs)

/-- The tree that the replay commits; `none` is a return with the local commits kept or
restored. -/
def replayConflict (c : Conflict) : Option FileMap :=
  if ∃ path ∈ changedFiles c, ¬ isThreadPath path ∧ ¬ isMetaPath path ∧ ¬ isBoardPath path then
    none
  else if localAdditions c = [] ∧ localMetas c = [] ∧ localBoards c = [] then none
  else do
    let writes ← replayWrites codec yaml c
    if writes = [] then none else commitWrites c.theirs writes

end Replay

section Specification
variable {Json : Type} (codec : JsonCodec Json) (yaml : MetaCodec)

/-- What was appended to a file. -/
def appendedTo (base : Option Text) (content : Text) : Text := content.drop (base.getD []).length

/-- A whole number of lines is kept and something may stand behind them. -/
def Appends (base : Option Text) : Option Text → Prop
  | some content =>
    base.getD [] <+: content ∧ (base.getD [] = [] ∨ EndsInLf (base.getD []))
  | none => True

instance (base : Option Text) : ∀ ours, Decidable (Appends base ours)
  | some _ => inferInstanceAs (Decidable (_ ∧ _))
  | none => isTrue trivial

/-- The inputs the replay is for: every changed path is resolvable and outside quick sessions,
threads are appended to, the diff lists the changed threads and shows no addition to a deleted one,
and channel metadata can be read. -/
@[mk_iff]
structure Resolvable (c : Conflict) : Prop where
  kinds : ∀ path ∈ changedFiles c, ¬ isQuickSessionPath path ∧
    (isThreadPath path ∨ isMetaPath path ∨ matchesBoardSpec path)
  appends : ∀ path ∈ changedFiles c, isThreadPath path →
    Appends (c.base.lookup path) (c.ours.lookup path)
  distinct : (c.threadDiff.map FileDiff.path).Nodup
  listed : ∀ path ∈ changedFiles c, isThreadPath path → path ∈ c.threadDiff.map FileDiff.path
  sections : ∀ d ∈ c.threadDiff, d.path ∈ changedFiles c ∧ isThreadPath d.path
  deleted : ∀ d ∈ c.threadDiff, c.ours.lookup d.path = none → d.added = []
  readable : ∀ path ∈ changedFiles c, isChannelMetaPath path → ∀ content ∈
    (c.ours.lookup path).toList ++ (c.theirs.lookup path).toList, yaml.fromStr content ≠ none

instance (c : Conflict) : Decidable (Resolvable yaml c) :=
  decidable_of_iff' _ (resolvable_iff yaml c)

/-- The remote file merged with the local edit, by the kind of the file: a thread keeps the entries
of both sides. -/
def MergedAs (c : Conflict) (path : Path) (ours content : Text) : Prop :=
  if isThreadPath path then
    MergedBehind codec ((c.theirs.lookup path).getD []) (appendedTo (c.base.lookup path) ours) content
  else if isChannelMetaPath path then
    match c.theirs.lookup path with
    | none => content = ours
    | some theirs => ∃ ourMeta theirMeta, yaml.fromStr ours = some ourMeta ∧
        yaml.fromStr theirs = some theirMeta ∧
        content = yaml.toStr (mergeChannelMeta ourMeta theirMeta)
  else content = ours

/-- The replay commits the whole local change. -/
def ReplaysAll (c : Conflict) : Prop :=
  ∃ tree, replayConflict codec yaml c = some tree ∧ ∀ path ∈ changedFiles c,
    (∀ ours, c.ours.lookup path = some ours →
      ∃ content, tree.lookup path = some content ∧ MergedAs codec yaml c path ours content) ∧
    (c.ours.lookup path = none → c.theirs.lookup path = c.base.lookup path →
      tree.lookup path = none)

/-- The added lines of a section, less what the diff parser drops of them, are what was appended to
the thread and survive a rewriting; nothing is added to an empty thread that the remote side has. -/
def ThreadSurvives (c : Conflict) (d : FileDiff) (ours : Text) : Prop :=
  (appendedTo (c.base.lookup d.path) ours = [] ∧ captured d.added = none ∧
    ∃ theirs r, c.theirs.lookup d.path = some theirs ∧ parseThread codec theirs = .ok r) ∨
  ∃ text, captured d.added = some text ∧
    Survives codec ((c.theirs.lookup d.path).getD []) (appendedTo (c.base.lookup d.path) ours) text

def ThreadsSurvive (c : Conflict) : Prop :=
  ∀ d ∈ c.threadDiff, ∀ ours, c.ours.lookup d.path = some ours → ThreadSurvives codec c d ours

/-- A local file that the remote side does not have as the merge makes it. -/
def IsNews (c : Conflict) (path : Path) (ours : Text) : Prop :=
  if isThreadPath path then appendedTo (c.base.lookup path) ours ≠ []
  else ∀ content, MergedAs codec yaml c path ours content → c.theirs.lookup path ≠ some content

/-- The replay covers a conflict: every locally written channel metadata file exists on the remote
side, no file that the remote side left alone was deleted, and some file is news. -/
structure Covered (c : Conflict) : Prop where
  channels : ∀ path ∈ changedFiles c, isChannelMetaPath path →
    c.ours.lookup path ≠ none → c.theirs.lookup path ≠ none
  deletions : ∀ path ∈ changedFiles c, c.ours.lookup path = none →
    c.theirs.lookup path ≠ c.base.lookup path
  effective : ∃ path ∈ changedFiles c, ∃ ours, c.ours.lookup path = some ours ∧
    IsNews codec yaml c path ours

end Specification

section Capture
variable {yaml : MetaCodec}

/-- What the diff parser captures of a file. -/
def capturedOf (c : Conflict) (path : Path) : Option Text :=
  (parseDiffOutput (renderDiff c.threadDiff)).lookup path

theorem mem_changedFiles {c : Conflict} {path : Path} :
    path ∈ changedFiles c ↔ c.base.lookup path ≠ c.ours.lookup path := by
  rw [changedFiles, List.mem_filter, List.mem_dedup, decide_eq_true_iff]
  refine ⟨fun h => h.2, fun h => ⟨?_, h⟩⟩
  rw [List.map_append, List.mem_append]
  cases hb : c.base.lookup path with
  | some content => exact Or.inl (lookup_isSome_iff.mp ⟨content, hb⟩)
  | none =>
    cases ho : c.ours.lookup path with
    | some content => exact Or.inr (lookup_isSome_iff.mp ⟨content, ho⟩)
    | none => exact absurd (hb.trans ho.symm) h

theorem Resolvable.section_of_mem {c : Conflict} (h : Resolvable yaml c) {path : Path}
    (hmem : path ∈ c.threadDiff.map FileDiff.path) : path ∈ changedFiles c ∧ isThreadPath path := by
  obtain ⟨d, hd, rfl⟩ := List.mem_map.mp hmem
  exact h.sections d hd

theorem capturedOf_other {c : Conflict} (h : Resolvable yaml c) {path : Path}
    (hpath : ¬ (path ∈ changedFiles c ∧ isThreadPath path)) : capturedOf c path = none := by
  rw [capturedOf, parseDiffOutput, renderDiff, lines_unlines _ (renderDiff_no_lf _),
    run_other_sections _ (fun hmem => hpath (h.section_of_mem hmem))]
  rfl

theorem capturedOf_section {c : Conflict} (h : Resolvable yaml c) {d : FileDiff}
    (hd : d ∈ c.threadDiff) : capturedOf c d.path = captured d.added :=
  lookup_parseDiffOutput _ h.distinct hd

/-- A changed thread has its section. -/
theorem Resolvable.exists_section {c : Conflict} (h : Resolvable yaml c) {path : Path}
    (hpath : path ∈ changedFiles c) (hthread : isThreadPath path) :
    ∃ d ∈ c.threadDiff, d.path = path :=
  List.mem_map.mp (h.listed path hpath hthread)

/-- Nothing is captured of a deleted thread. -/
theorem capturedOf_deleted {c : Conflict} (h : Resolvable yaml c) {path : Path}
    (hpath : c.ours.lookup path = none) : capturedOf c path = none := by
  by_cases hmem : path ∈ c.threadDiff.map FileDiff.path
  · obtain ⟨d, hd, rfl⟩ := List.mem_map.mp hmem
    rw [capturedOf_section h hd, h.deleted d hd hpath]
    rfl
  · exact capturedOf_other h (fun hboth => hmem (h.listed path hboth.1 hboth.2))

theorem lookup_localAdditions {c : Conflict} (h : Resolvable yaml c) (path : Path) :
    (localAdditions c).lookup path = capturedOf c path := by
  rw [localAdditions, lookup_filter_key (fun p => ¬ isQuickSessionPath p)]
  split
  · rfl
  · rename_i hquick
    rw [not_not] at hquick
    refine (capturedOf_other h ?_).symm
    exact fun hboth => (h.kinds path hboth.1).1 hquick

theorem lookup_localMetas {c : Conflict} (h : Resolvable yaml c) (path : Path) :
    (localMetas c).lookup path =
      if path ∈ changedFiles c ∧ isMetaPath path then c.ours.lookup path else none := by
  rw [localMetas, lookup_filter_key (fun p => ¬ isQuickSessionPath p), lookup_restrict]
  simp only [List.mem_filter, decide_eq_true_eq]
  by_cases hpath : path ∈ changedFiles c ∧ isMetaPath path
  · rw [if_pos (h.kinds path hpath.1).1]
  · rw [if_neg hpath, ite_self]

theorem lookup_localBoards (c : Conflict) (path : Path) :
    (localBoards c).lookup path =
      if path ∈ changedFiles c ∧ matchesBoardSpec path then c.ours.lookup path else none := by
  rw [localBoards, lookup_restrict]
  simp only [List.mem_filter, decide_eq_true_eq]

end Capture

section Writes
variable {Json : Type} (codec : JsonCodec Json) {yaml : MetaCodec}

theorem threadWrites_ok {c : Conflict} (h : Resolvable yaml c) {writes : FileMap}
    (hw : threadWrites codec c = some writes) (path : Path) :
    (∀ text, capturedOf c path = some text → ∃ content,
      ResolvesTo codec c.theirs path text content ∧ writes.lookup path = some content) ∧
    (capturedOf c path = none → writes.lookup path = none) := by
  rw [← lookup_localAdditions h path]
  rw [threadWrites] at hw
  split at hw
  · rename_i hnil
    cases hw
    rw [hnil]
    exact ⟨fun text htext => (by cases htext), fun _ => rfl⟩
  · split at hw
    · rename_i files mappings hresolve
      cases hw
      exact resolveContentPure_ok codec hresolve path
    · cases hw

theorem threadWrites_succeeds {c : Conflict} (h : Resolvable yaml c)
    (hall : ∀ path text, capturedOf c path = some text →
      ∃ content, ResolvesTo codec c.theirs path text content) :
    ∃ writes, threadWrites codec c = some writes := by
  rw [threadWrites]
  split
  · exact ⟨[], rfl⟩
  · have hresolve : ∀ path text, (localAdditions c).lookup path = some text →
        ∃ content, ResolvesTo codec c.theirs path text content :=
      fun path text htext => hall path text (lookup_localAdditions h path ▸ htext)
    obtain ⟨files, mappings, hok⟩ := resolveContentPure_succeeds codec hresolve
    refine ⟨asWrites files, ?_⟩
    simp only [resolveContent, if_true, hok]

theorem resolveMetas_ok {disk metas writes : FileMap}
    (hw : resolveMetas yaml disk metas = some writes) (path : Path) :
    (∀ ours, metas.lookup path = some ours → ∃ content,
      resolveMeta yaml disk path ours = some content ∧ writes.lookup path = some content) ∧
    (metas.lookup path = none → writes.lookup path = none) := by
  induction metas generalizing writes with
  | nil =>
    cases hw
    exact ⟨fun ours h => (by cases h), fun _ => rfl⟩
  | cons head rest ih =>
    obtain ⟨p, ours⟩ := head
    simp only [resolveMetas, Option.bind_eq_bind, Option.bind_eq_some_iff, Option.some.injEq] at hw
    obtain ⟨content, hcontent, more, hmore, rfl⟩ := hw
    simp only [lookup_cons_ite]
    by_cases hp : path = p
    · subst hp
      simp only [if_true, Option.some.injEq, reduceCtorEq, false_implies, and_true]
      rintro _ rfl
      exact ⟨content, hcontent, rfl⟩
    · simp only [if_neg hp]
      exact ih hmore

theorem resolveMetas_succeeds {disk metas : FileMap}
    (hall : ∀ e ∈ metas, ∃ content, resolveMeta yaml disk e.1 e.2 = some content) :
    ∃ writes, resolveMetas yaml disk metas = some writes := by
  induction metas with
  | nil => exact ⟨[], rfl⟩
  | cons head rest ih =>
    obtain ⟨content, hcontent⟩ := hall head List.mem_cons_self
    obtain ⟨more, hmore⟩ := ih (fun e he => hall e (List.mem_cons_of_mem _ he))
    refine ⟨(head.1, content) :: more, ?_⟩
    simp [resolveMetas, hcontent, hmore]

theorem resolveMeta_congr {disk disk' : FileMap} {path : Path}
    (h : disk.lookup path = disk'.lookup path) (ours : Text) :
    resolveMeta yaml disk path ours = resolveMeta yaml disk' path ours := by
  rw [resolveMeta, resolveMeta, h]

/-- The three sources of writes have no path in common. -/
theorem lookup_writes (metas boards threads : FileMap) (path : Path) :
    (metas ++ (boards ++ threads)).lookup path =
      (metas.lookup path).or ((boards.lookup path).or (threads.lookup path)) := by
  rw [List.lookup_append, List.lookup_append]

/-- What the replay writes, path by path. -/
structure WritesOf (yaml : MetaCodec) (c : Conflict) (writes : FileMap) : Prop where
  unchanged : ∀ path, path ∉ changedFiles c → writes.lookup path = none
  deleted : ∀ path, c.ours.lookup path = none → writes.lookup path = none
  uncaptured : ∀ path, isThreadPath path → capturedOf c path = none → writes.lookup path = none
  thread : ∀ path, isThreadPath path → ∀ text, capturedOf c path = some text → ∃ content,
    ResolvesTo codec c.theirs path text content ∧ writes.lookup path = some content
  metadata : ∀ path ∈ changedFiles c, isMetaPath path → ∀ ours, c.ours.lookup path = some ours →
    ∃ content, resolveMeta yaml c.theirs path ours = some content ∧
      writes.lookup path = some content
  board : ∀ path ∈ changedFiles c, matchesBoardSpec path → ∀ ours,
    c.ours.lookup path = some ours → writes.lookup path = some ours

theorem lookup_disk {c : Conflict} (h : Resolvable yaml c) {threads : FileMap}
    (hthreads : threadWrites codec c = some threads) {path : Path} (hmeta : isMetaPath path) :
    (localBoards c ++ (threads ++ c.theirs)).lookup path = c.theirs.lookup path := by
  have hboard : (localBoards c).lookup path = none := by
    rw [lookup_localBoards, if_neg (fun hb => not_board_of_meta hmeta hb.2.1)]
  have hthread : threads.lookup path = none :=
    (threadWrites_ok codec h hthreads path).2
      (capturedOf_other h (fun hboth => not_meta_of_thread hboth.2 hmeta))
  rw [List.lookup_append, List.lookup_append, hboard, hthread, Option.none_or, Option.none_or]

theorem replayWrites_ok {c : Conflict} (h : Resolvable yaml c) {writes : FileMap}
    (hw : replayWrites codec yaml c = some writes) : WritesOf codec yaml c writes := by
  simp only [replayWrites, Option.bind_eq_bind, Option.bind_eq_some_iff, Option.some.injEq] at hw
  obtain ⟨threads, hthreads, metas, hmetas, rfl⟩ := hw
  have hthread := threadWrites_ok codec h hthreads
  have hmeta := resolveMetas_ok hmetas
  have hnometa : ∀ path, ¬ (path ∈ changedFiles c ∧ isMetaPath path) →
      metas.lookup path = none := fun path hpath => (hmeta path).2 (by
    rw [lookup_localMetas h, if_neg hpath])
  have hnoboard : ∀ path, ¬ (path ∈ changedFiles c ∧ matchesBoardSpec path) →
      (localBoards c).lookup path = none := fun path hpath => by
    rw [lookup_localBoards, if_neg hpath]
  have honly : ∀ path, isThreadPath path →
      (metas ++ (localBoards c ++ threads)).lookup path = threads.lookup path := by
    intro path hpath
    rw [lookup_writes, hnometa path (fun hm => not_meta_of_thread hpath hm.2),
      hnoboard path (fun hb => not_board_of_thread hpath hb.2.1), Option.none_or, Option.none_or]
  refine
    { unchanged := ?_
      deleted := ?_
      uncaptured := fun path hpath hnone => (honly path hpath).trans ((hthread path).2 hnone)
      thread := fun path hpath text htext => honly path hpath ▸ (hthread path).1 text htext
      metadata := ?_
      board := ?_ }
  · intro path hpath
    rw [lookup_writes, hnometa path (fun hm => hpath hm.1), hnoboard path (fun hb => hpath hb.1),
      (hthread path).2 (capturedOf_other h (fun hboth => hpath hboth.1))]
    rfl
  · intro path hpath
    have hm : (localMetas c).lookup path = none := by
      rw [lookup_localMetas h, hpath, ite_self]
    have hb : (localBoards c).lookup path = none := by
      rw [lookup_localBoards, hpath, ite_self]
    rw [lookup_writes, (hmeta path).2 hm, hb, (hthread path).2 (capturedOf_deleted h hpath)]
    rfl
  · intro path hpath hm ours hours
    have hlocal : (localMetas c).lookup path = some ours := by
      rw [lookup_localMetas h, if_pos ⟨hpath, hm⟩, hours]
    obtain ⟨content, hcontent, hwritten⟩ := (hmeta path).1 ours hlocal
    rw [resolveMeta_congr (lookup_disk codec h hthreads hm)] at hcontent
    exact ⟨content, hcontent, by rw [lookup_writes, hwritten, Option.some_or]⟩
  · intro path hpath hb ours hours
    have hlocal : (localBoards c).lookup path = some ours := by
      rw [lookup_localBoards, if_pos ⟨hpath, hb⟩, hours]
    rw [lookup_writes, hnometa path (fun hm => not_board_of_meta hm.2 hb.1), hlocal,
      Option.none_or, Option.some_or]

theorem replayWrites_succeeds {c : Conflict} (h : Resolvable yaml c)
    (hthreads : ∀ path text, capturedOf c path = some text →
      ∃ content, ResolvesTo codec c.theirs path text content)
    (hmetas : ∀ path ∈ changedFiles c, isMetaPath path → ∀ ours, c.ours.lookup path = some ours →
      ∃ content, resolveMeta yaml c.theirs path ours = some content) :
    ∃ writes, replayWrites codec yaml c = some writes := by
  obtain ⟨threads, hok⟩ := threadWrites_succeeds codec h hthreads
  have hall : ∀ e ∈ localMetas c, ∃ content,
      resolveMeta yaml (localBoards c ++ (threads ++ c.theirs)) e.1 e.2 = some content := by
    intro e he
    obtain ⟨path, hpath, heq⟩ := List.mem_filterMap.mp (List.mem_filter.mp he).1
    obtain ⟨hchanged, hm⟩ := List.mem_filter.mp hpath
    obtain ⟨ours, hours, rfl⟩ := Option.map_eq_some_iff.mp heq
    have hm : isMetaPath path := by simpa using hm
    rw [resolveMeta_congr (lookup_disk codec h hok hm)]
    exact hmetas path hchanged hm ours hours
  obtain ⟨metas, hdone⟩ := resolveMetas_succeeds hall
  refine ⟨metas ++ (localBoards c ++ threads), ?_⟩
  simp only [replayWrites, hok, hdone, Option.bind_eq_bind, Option.bind_some]

end Writes

section Coverage
variable {Json : Type} (codec : JsonCodec Json) {yaml : MetaCodec}

/-- Outside of threads the merge fixes the content. -/
theorem mergedAs_unique {c : Conflict} {path : Path} (hthread : ¬ isThreadPath path)
    {ours a b : Text} (ha : MergedAs codec yaml c path ours a)
    (hb : MergedAs codec yaml c path ours b) : a = b := by
  rw [MergedAs, if_neg hthread] at ha hb
  split at ha
  · rename_i hchannel
    rw [if_pos hchannel] at hb
    split at ha
    · rename_i hnone
      rw [hnone] at hb
      exact ha.trans hb.symm
    · rename_i theirs hsome
      rw [hsome] at hb
      obtain ⟨_, _, hours, htheirs, rfl⟩ := ha
      obtain ⟨_, _, hours', htheirs', rfl⟩ := hb
      cases hours.symm.trans hours'
      cases htheirs.symm.trans htheirs'
      rfl
  · rename_i hchannel
    rw [if_neg hchannel] at hb
    exact ha.trans hb.symm

/-- The replay of a metadata file with a remote side is the merge. -/
theorem resolveMeta_merged {c : Conflict} {path : Path} (hm : isMetaPath path) {ours content : Text}
    (h : resolveMeta yaml c.theirs path ours = some content) :
    MergedAs codec yaml c path ours content ∧
      (isChannelMetaPath path → c.theirs.lookup path ≠ none) := by
  rw [MergedAs, if_neg (fun ht => not_meta_of_thread ht hm)]
  rw [resolveMeta] at h
  split at h
  · rename_i hchannel
    simp only [Option.bind_eq_bind, Option.bind_eq_some_iff, Option.some.injEq] at h
    obtain ⟨theirs, htheirs, ourMeta, hours, theirMeta, hmeta, rfl⟩ := h
    rw [if_pos hchannel, htheirs]
    exact ⟨⟨ourMeta, theirMeta, hours, hmeta, rfl⟩, fun _ => by simp⟩
  · rename_i hchannel
    rw [if_neg hchannel]
    cases h
    exact ⟨rfl, fun hc => absurd hc hchannel⟩

theorem resolveMeta_succeeds {c : Conflict} (h : Resolvable yaml c) {path : Path}
    (hpath : path ∈ changedFiles c) {ours : Text} (hours : c.ours.lookup path = some ours)
    (hremote : isChannelMetaPath path → c.theirs.lookup path ≠ none) :
    ∃ content, resolveMeta yaml c.theirs path ours = some content := by
  rw [resolveMeta]
  split
  · rename_i hchannel
    obtain ⟨theirs, htheirs⟩ := Option.ne_none_iff_exists'.mp (hremote hchannel)
    obtain ⟨ourMeta, hour⟩ :=
      Option.ne_none_iff_exists'.mp (h.readable path hpath hchannel ours (by simp [hours]))
    obtain ⟨theirMeta, htheir⟩ :=
      Option.ne_none_iff_exists'.mp (h.readable path hpath hchannel theirs (by simp [htheirs]))
    refine ⟨yaml.toStr (mergeChannelMeta ourMeta theirMeta), ?_⟩
    simp [htheirs, hour, htheir]
  · exact ⟨ours, rfl⟩

theorem commitWrites_eq_some {theirs writes tree : FileMap} :
    commitWrites theirs writes = some tree ↔
      (∃ path, ∃ content, writes.lookup path = some content ∧
        theirs.lookup path ≠ some content) ∧ tree = writes ++ theirs := by
  rw [commitWrites, Option.ite_none_left_eq_some, Option.some.injEq, eq_comm (b := tree)]
  refine and_congr_left (fun _ => ?_)
  push Not
  constructor
  · rintro ⟨e, he, hne⟩
    obtain ⟨content, hcontent⟩ := lookup_isSome_iff.mpr (List.mem_map_of_mem he)
    exact ⟨e.1, content, hcontent, fun h => hne (hcontent.trans h.symm)⟩
  · rintro ⟨path, content, hcontent, hne⟩
    obtain ⟨e, he, rfl⟩ := List.mem_map.mp (lookup_isSome_iff.mp ⟨content, hcontent⟩)
    exact ⟨e, he, fun h => hne (h.symm.trans hcontent)⟩

theorem replayConflict_eq_some {c : Conflict} (h : Resolvable yaml c) {tree : FileMap} :
    replayConflict codec yaml c = some tree ↔ ∃ writes, replayWrites codec yaml c = some writes ∧
      (∃ path, ∃ content, writes.lookup path = some content ∧
        c.theirs.lookup path ≠ some content) ∧ tree = writes ++ c.theirs := by
  have hkinds : ¬ ∃ path ∈ changedFiles c,
      ¬ isThreadPath path ∧ ¬ isMetaPath path ∧ ¬ isBoardPath path := by
    rintro ⟨path, hpath, hthread, hmeta, hboard⟩
    rcases (h.kinds path hpath).2 with hk | hk | hk
    · exact hthread hk
    · exact hmeta hk
    · exact hboard hk.1
  rw [replayConflict, if_neg hkinds]
  split
  · rename_i hempty
    -- with nothing captured nothing would be written
    have hnil : replayWrites codec yaml c = some [] := by
      simp [replayWrites, threadWrites, hempty.1, hempty.2.1, hempty.2.2, resolveMetas]
    simp [hnil]
  · simp only [Option.bind_eq_bind, Option.bind_eq_some_iff]
    refine exists_congr (fun writes => and_congr_right (fun _ => ?_))
    split
    · rename_i hnil
      simp [hnil]
    · exact commitWrites_eq_some

/-- A thread that survives is written merged, or nothing was appended to it. -/
theorem thread_written (hcodec : codec.OneLine) {c : Conflict} (h : Resolvable yaml c)
    (hthreads : ThreadsSurvive codec c) {writes : FileMap} (hw : WritesOf codec yaml c writes)
    {path : Path} (hpath : path ∈ changedFiles c) (hthread : isThreadPath path) {ours : Text}
    (hours : c.ours.lookup path = some ours) : ∃ content,
      MergedBehind codec ((c.theirs.lookup path).getD []) (appendedTo (c.base.lookup path) ours)
          content ∧
        ((appendedTo (c.base.lookup path) ours ≠ [] ∧ writes.lookup path = some content ∧
            c.theirs.lookup path ≠ some content) ∨
          (appendedTo (c.base.lookup path) ours = [] ∧ writes.lookup path = none ∧
            c.theirs.lookup path = some content)) := by
  obtain ⟨d, hd, rfl⟩ := h.exists_section hpath hthread
  rcases hthreads d hd ours hours with ⟨hnothing, hcaptured, theirs, r, htheirs, hr⟩ |
    ⟨text, hcaptured, hsurvives⟩
  · refine ⟨theirs, ?_, Or.inr ⟨hnothing, ?_, htheirs⟩⟩
    · rw [hnothing, htheirs, Option.getD_some]
      exact mergedBehind_nil hr
    · exact hw.uncaptured _ hthread ((capturedOf_section h hd).trans hcaptured)
  · obtain ⟨content, mappings, hresolve, hmerged, hnew⟩ := hsurvives.resolves hcodec d.path
    obtain ⟨written, hwritten, hlookup⟩ :=
      hw.thread _ hthread text ((capturedOf_section h hd).trans hcaptured)
    cases resolvesTo_unique codec hwritten ⟨mappings, hresolve⟩
    refine ⟨content, hmerged, Or.inl ⟨hsurvives.appended_ne_nil, hlookup, fun htheirs => hnew ?_⟩⟩
    rw [htheirs, Option.getD_some]

/-- Every locally written file is written merged, or is no news. -/
theorem covered_written (hcodec : codec.OneLine) {c : Conflict} (h : Resolvable yaml c)
    (hthreads : ThreadsSurvive codec c) {writes : FileMap} (hw : WritesOf codec yaml c writes)
    {path : Path} (hpath : path ∈ changedFiles c) {ours : Text}
    (hours : c.ours.lookup path = some ours) :
    ∃ content, MergedAs codec yaml c path ours content ∧
      ((writes.lookup path = some content ∧
          (IsNews codec yaml c path ours → c.theirs.lookup path ≠ some content)) ∨
        (¬ IsNews codec yaml c path ours ∧ writes.lookup path = none ∧
          c.theirs.lookup path = some content)) := by
  by_cases hthread : isThreadPath path
  · obtain ⟨content, hmerged, hcases⟩ := thread_written codec hcodec h hthreads hw hpath hthread hours
    refine ⟨content, by rwa [MergedAs, if_pos hthread], ?_⟩
    rw [IsNews, if_pos hthread, not_not]
    exact hcases.imp (fun hnew => ⟨hnew.2.1, fun _ => hnew.2.2⟩) id
  · have hnews : ∀ content, MergedAs codec yaml c path ours content →
        IsNews codec yaml c path ours → c.theirs.lookup path ≠ some content := by
      intro content hmerged hnews
      rw [IsNews, if_neg hthread] at hnews
      exact hnews content hmerged
    rcases (h.kinds path hpath).2 with hk | hk | hk
    · exact absurd hk hthread
    · obtain ⟨content, hresolve, hlookup⟩ := hw.metadata path hpath hk ours hours
      have hmerged := (resolveMeta_merged codec hk hresolve).1
      exact ⟨content, hmerged, Or.inl ⟨hlookup, hnews content hmerged⟩⟩
    · have hmerged : MergedAs codec yaml c path ours ours := by
        rw [MergedAs, if_neg hthread,
          if_neg (fun hc => not_board_of_meta (isMetaPath_of_channel hc) hk.1)]
      exact ⟨ours, hmerged, Or.inl ⟨hw.board path hpath hk ours hours, hnews ours hmerged⟩⟩

theorem lookup_committed (writes theirs : FileMap) (path : Path) :
    (writes ++ theirs).lookup path = (writes.lookup path).or (theirs.lookup path) :=
  List.lookup_append

theorem captured_resolves (hcodec : codec.OneLine) {c : Conflict} (h : Resolvable yaml c)
    (hthreads : ThreadsSurvive codec c) {path : Path} {text : Text}
    (htext : capturedOf c path = some text) : ∃ content, ResolvesTo codec c.theirs path text content := by
  by_cases hboth : path ∈ changedFiles c ∧ isThreadPath path
  · obtain ⟨d, hd, rfl⟩ := h.exists_section hboth.1 hboth.2
    cases hours : c.ours.lookup d.path with
    | none => cases (capturedOf_deleted h hours).symm.trans htext
    | some ours =>
      rw [capturedOf_section h hd] at htext
      rcases hthreads d hd ours hours with ⟨-, hnone, -⟩ | ⟨other, hcaptured, hsurvives⟩
      · cases hnone.symm.trans htext
      · cases hcaptured.symm.trans htext
        obtain ⟨content, mappings, hresolve, -⟩ := hsurvives.resolves hcodec d.path
        exact ⟨content, mappings, hresolve⟩
  · cases (capturedOf_other h hboth).symm.trans htext

theorem replaysAll_of_covered (hcodec : codec.OneLine) {c : Conflict} (h : Resolvable yaml c)
    (hthreads : ThreadsSurvive codec c) (hcov : Covered codec yaml c) : ReplaysAll codec yaml c := by
  obtain ⟨writes, hwrites⟩ := replayWrites_succeeds codec h
    (fun path text htext => captured_resolves codec hcodec h hthreads htext)
    (fun path hpath hm ours hours => resolveMeta_succeeds h hpath hours
      (fun hc => hcov.channels path hpath hc (by simp [hours])))
  have hw := replayWrites_ok codec h hwrites
  obtain ⟨path, hpath, ours, hours, hnews⟩ := hcov.effective
  obtain ⟨content, hmerged, hwritten⟩ := covered_written codec hcodec h hthreads hw hpath hours
  obtain ⟨hlookup, hdiffer⟩ := hwritten.resolve_right (fun hsame => hsame.1 hnews)
  refine ⟨writes ++ c.theirs, (replayConflict_eq_some codec h).mpr
    ⟨writes, hwrites, ⟨path, content, hlookup, hdiffer hnews⟩, rfl⟩, fun q hq => ⟨?_, ?_⟩⟩
  · intro ours hours
    obtain ⟨content, hmerged, hcases⟩ := covered_written codec hcodec h hthreads hw hq hours
    refine ⟨content, ?_, hmerged⟩
    rw [lookup_committed]
    rcases hcases with ⟨hlookup, -⟩ | ⟨-, hnone, hsame⟩
    · rw [hlookup, Option.some_or]
    · rw [hnone, hsame, Option.none_or]
  · intro hnone hsame
    exact absurd hsame (hcov.deletions q hq hnone)

theorem covered_of_replaysAll (hcodec : codec.OneLine) {c : Conflict} (h : Resolvable yaml c)
    (hthreads : ThreadsSurvive codec c) (hall : ReplaysAll codec yaml c) : Covered codec yaml c := by
  obtain ⟨tree, hreplay, hpaths⟩ := hall
  obtain ⟨writes, hwrites, ⟨path₀, content₀, hlookup₀, hdiffer⟩, rfl⟩ :=
    (replayConflict_eq_some codec h).mp hreplay
  have hw := replayWrites_ok codec h hwrites
  refine ⟨?_, ?_, ?_⟩
  · intro path hpath hchannel hours
    obtain ⟨ours, hours⟩ := Option.ne_none_iff_exists'.mp hours
    have hm := isMetaPath_of_channel hchannel
    obtain ⟨content, hresolve, -⟩ := hw.metadata path hpath hm ours hours
    exact (resolveMeta_merged codec hm hresolve).2 hchannel
  · intro path hpath hnone hsame
    have htree := (hpaths path hpath).2 hnone hsame
    rw [lookup_committed, hw.deleted path hnone, Option.none_or, hsame] at htree
    exact mem_changedFiles.mp hpath (htree.trans hnone.symm)
  · have hchanged : path₀ ∈ changedFiles c := by
      by_contra hnot
      cases (hw.unchanged path₀ hnot).symm.trans hlookup₀
    cases hours : c.ours.lookup path₀ with
    | none => cases (hw.deleted path₀ hours).symm.trans hlookup₀
    | some ours =>
      refine ⟨path₀, hchanged, ours, hours, ?_⟩
      rw [IsNews]
      split
      · rename_i hthread
        obtain ⟨content, -, hcases⟩ := thread_written codec hcodec h hthreads hw hchanged hthread hours
        rcases hcases with hnew | ⟨-, hnone, -⟩
        · exact hnew.1
        · cases hnone.symm.trans hlookup₀
      · rename_i hthread
        intro content hmerged htheirs
        obtain ⟨content', htree, hmerged'⟩ := (hpaths path₀ hchanged).1 ours hours
        rw [lookup_committed, hlookup₀, Option.some_or] at htree
        cases htree
        cases mergedAs_unique codec hthread hmerged hmerged'
        exact hdiffer htheirs

/-- Where the local thread edits survive capture and formatting, the replay commits the whole local
change exactly if it covers the conflict. -/
theorem replayConflict_complete_iff (hcodec : codec.OneLine) {c : Conflict} (h : Resolvable yaml c)
    (hthreads : ThreadsSurvive codec c) : ReplaysAll codec yaml c ↔ Covered codec yaml c :=
  ⟨covered_of_replaysAll codec hcodec h hthreads, replaysAll_of_covered codec hcodec h hthreads⟩

end Coverage

section Samples

def generalMeta : Path := "channels/general.meta.yaml".toList

def aliceBoard : Path := "showboards/alice/board.md".toList

/-- Channel metadata in block style; the scalars of the samples need no quotes. -/
def blockYaml (m : ChannelMeta) : Text :=
  unlines (["display_name: ".toList ++ m.displayName, "created_by: ".toList ++ m.createdBy,
    "created_at: ".toList ++ m.createdAt, "introduction: ".toList ++ m.introduction,
    "members:".toList] ++ m.members.map ("- ".toList ++ ·))

def channelOf (members : List Text) : ChannelMeta where
  displayName := "General".toList
  createdBy := "alice".toList
  createdAt := newYear
  introduction := "all".toList
  members := members
  project := none

def sampleMetas : List ChannelMeta :=
  [channelOf ["alice".toList], channelOf ["alice".toList, "bob".toList],
    channelOf ["alice".toList, "carol".toList]]

def sampleYaml : MetaCodec where
  fromStr t := sampleMetas.find? (blockYaml · = t)
  toStr := blockYaml

def localLine : Text := "[L000002][P000000][@alice][20260101T000000Z] second".toList

/-- Both sides append to a thread and add a member, and the local side changes a board. -/
def bothSides : Conflict where
  base := [(generalThread, baseText), (generalMeta, blockYaml (channelOf ["alice".toList]))]
  ours := [(generalThread, baseText ++ unlines [localLine]),
    (generalMeta, blockYaml (channelOf ["alice".toList, "bob".toList])),
    (aliceBoard, "todo".toList)]
  theirs := [(generalThread, baseText ++ remoteAddition),
    (generalMeta, blockYaml (channelOf ["alice".toList, "carol".toList]))]
  threadDiff := [appendDiff [⟨localLine, by decide⟩]]

def bothText : Text :=
  baseText ++ (remoteAddition ++ "[L000003][P000000][@alice][20260101T000000Z] second\n".toList)

def localEntry : ThreadEntry SmallJson := sampleMessage 2 0 "second".toList

theorem localLine_survives : Survives smallCodec (baseText ++ remoteAddition)
    (appendedTo (some baseText) (baseText ++ unlines [localLine])) localLine := by
  refine ⟨⟨[sampleMessage 1 0 "hello".toList, sampleMessage 2 1 "first".toList]⟩, ⟨[localEntry]⟩,
    by decide +kernel, by decide +kernel, by decide +kernel, by decide, ⟨by decide, by decide⟩,
    ⟨?_, ?_, ?_⟩, by decide, by decide +kernel⟩
  · intro m hm
    cases List.mem_singleton.mp hm
    decide
  · intro e he
    cases List.mem_singleton.mp he
  · intro e he
    cases List.mem_singleton.mp he

theorem bothSides_evaluated : Resolvable sampleYaml bothSides ∧
    bothSides.ours.lookup generalThread = some (baseText ++ unlines [localLine]) ∧
    (∀ path ∈ changedFiles bothSides, isChannelMetaPath path →
      bothSides.ours.lookup path ≠ none → bothSides.theirs.lookup path ≠ none) ∧
    (∀ path ∈ changedFiles bothSides, bothSides.ours.lookup path = none →
      bothSides.theirs.lookup path ≠ bothSides.base.lookup path) ∧
    aliceBoard ∈ changedFiles bothSides ∧ ¬ isThreadPath aliceBoard ∧
    bothSides.ours.lookup aliceBoard = some "todo".toList ∧
    bothSides.theirs.lookup aliceBoard = none := by
  decide +kernel

theorem bothSides_survive : ThreadsSurvive smallCodec bothSides := by
  intro d hd ours hours
  cases List.mem_singleton.mp hd
  cases bothSides_evaluated.2.1.symm.trans hours
  exact Or.inr ⟨localLine, by decide +kernel, localLine_survives⟩

/-- The thread is appended to, the members are united and the board is written. -/
theorem replayConflict_complete_bothSides : ReplaysAll smallCodec sampleYaml bothSides := by
  obtain ⟨hresolvable, -, hchannels, hdeletions, hboard, hthread, htodo, hnone⟩ := bothSides_evaluated
  refine (replayConflict_complete_iff smallCodec smallCodec_oneLine hresolvable
    bothSides_survive).mpr ⟨hchannels, hdeletions, aliceBoard, hboard, "todo".toList, htodo, ?_⟩
  rw [IsNews, if_neg hthread]
  intro content _
  rw [hnone]
  exact nofun

def newMeta : Path := "channels/new.meta.yaml".toList

def archivedThread : Path := "archive/channels/general.thread".toList

def randomThread : Path := "channels/random.thread".toList

/-- The local side creates a channel and appends to a thread that the remote side appends to. -/
def createdChannel : Conflict where
  base := [(generalThread, baseText)]
  ours := [(generalThread, baseText ++ unlines [localLine]),
    (newMeta, blockYaml (channelOf ["alice".toList]))]
  theirs := [(generalThread, baseText ++ remoteAddition)]
  threadDiff := [appendDiff [⟨localLine, by decide⟩]]

def baseLine : ContentLine :=
  ⟨"[L000001][P000000][@alice][20260101T000000Z] hello".toList, by decide⟩

/-- The local side moves a thread into the archive and appends to another one, to which the remote
side appends too. -/
def archivedChannel : Conflict where
  base := [(generalThread, baseText), (randomThread, baseText)]
  ours := [(archivedThread, baseText), (randomThread, baseText ++ unlines [localLine])]
  theirs := [(generalThread, baseText), (randomThread, baseText ++ remoteAddition)]
  threadDiff :=
    [{ path := archivedThread
       oneLine := by decide
       noCr := by decide
       preamble := []
       body := .appended true [.added baseLine] },
     { path := generalThread
       oneLine := by decide
       noCr := by decide
       preamble := []
       body := .deleted [baseLine] },
     { path := randomThread
       oneLine := by decide
       noCr := by decide
       preamble := []
       body := .appended false [.added ⟨localLine, by decide⟩] }]

theorem createdChannel_evaluated : Resolvable sampleYaml createdChannel ∧
    replayConflict smallCodec sampleYaml createdChannel = none := by
  decide +kernel

def keptTree : FileMap :=
  [(archivedThread, baseText), (randomThread, bothText), (generalThread, baseText),
    (randomThread, baseText ++ remoteAddition)]

theorem archivedChannel_evaluated : Resolvable sampleYaml archivedChannel ∧
    replayConflict smallCodec sampleYaml archivedChannel = some keptTree ∧
    archivedChannel.ours.lookup generalThread = none ∧
    archivedChannel.theirs.lookup generalThread = archivedChannel.base.lookup generalThread ∧
    generalThread ∈ changedFiles archivedChannel ∧
    keptTree.lookup generalThread = some baseText := by
  decide +kernel

/-- A created channel has no remote metadata to merge with, so the replay is rolled back; the
replay of an archive move commits a tree that still has the active thread. -/
theorem replayConflict_incomplete :
    (Resolvable sampleYaml createdChannel ∧
      replayConflict smallCodec sampleYaml createdChannel = none) ∧
    (Resolvable sampleYaml archivedChannel ∧ ∃ tree,
      replayConflict smallCodec sampleYaml archivedChannel = some tree ∧
      archivedChannel.ours.lookup generalThread = none ∧
      archivedChannel.theirs.lookup generalThread = archivedChannel.base.lookup generalThread ∧
      tree.lookup generalThread = some baseText) ∧
    ¬ ReplaysAll smallCodec sampleYaml createdChannel ∧
    ¬ ReplaysAll smallCodec sampleYaml archivedChannel := by
  obtain ⟨hcreatedResolvable, hcreated⟩ := createdChannel_evaluated
  obtain ⟨hresolvable, harchived, hours, hsame, hchanged, hkept⟩ := archivedChannel_evaluated
  refine ⟨⟨hcreatedResolvable, hcreated⟩, ⟨hresolvable, _, harchived, hours, hsame, hkept⟩, ?_, ?_⟩
  · rintro ⟨tree, htree, -⟩
    cases hcreated.symm.trans htree
  · rintro ⟨tree, htree, hpaths⟩
    cases harchived.symm.trans htree
    have hgone := (hpaths generalThread hchanged).2 hours hsame
    rw [hkept] at hgone
    cases hgone

end Samples

end ConflictReplay
