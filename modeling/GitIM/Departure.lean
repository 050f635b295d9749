import GitIM.Channels

/-!
# Departures

A departing user says goodbye in every thread it wrote to, its direct messages are
archived, it is removed from the members of every channel, and at last its own file
goes to the archive. The model follows a departure that is answered with success: every
write, commit and push of its four phases is complete.
-/

namespace Departure

open TextLines TextScan FileTree Checked ThreadFormat ThreadValidation ConflictReplay DmThreads
  Channels

/-- The working tree and the list of registered users that the daemon keeps in memory. -/
structure Workspace where
  tree : FileMap
  users : List Text
  deriving DecidableEq

inductive DepartFault where
  | response (message : Text)
  | panicParseU64 (digits : Text)
  deriving DecidableEq

section Phases
variable {Json : Type} (json : EventJson Json) (yaml : MetaCodec) (handler : Handler)

/-- The files of a directory with the extension `thread`. -/
def collectThreadPaths (dir : Text) (tree : FileMap) : List Path :=
  (tree.map Prod.fst).filter fun path =>
    (stripPrefix dir path).any fun name =>
      '/' ∉ name ∧ ".thread".toList <:+ name ∧ name ≠ ".thread".toList

def threadPaths (tree : FileMap) : List Path :=
  (collectThreadPaths "channels/".toList tree ++
    collectThreadPaths "dm/".toList tree).insertionSort fun a b => a ≤ b

def threadHasAuthor (entries : List (ThreadEntry Json)) : Bool :=
  entries.any fun e => e.author.name = handler.name

def lastEntryIsLeaveWorkspace (entries : List (ThreadEntry Json)) : Bool :=
  match entries.getLast? with
  | some (.event ev) => ev.eventType = "leave-workspace".toList ∧ ev.author.name = handler.name
  | _ => false

/-- A thread that cannot be read or parsed is left out. -/
def appendLeaveEventToThread (clock : Path → Text) (tree : FileMap) (path : Path) :
    Except DepartFault FileMap :=
  match tree.lookup path with
  | none => .ok tree
  | some content =>
    match parseThread json.toJsonCodec content with
    | .error (.panicParseU64 digits) => .error (.panicParseU64 digits)
    | .error (.error _) => .ok tree
    | .ok file =>
      if threadHasAuthor handler file.entries = false ∨
          lastEntryIsLeaveWorkspace handler file.entries = true then .ok tree
      else .ok (writeFile tree path (content ++
        formatEvent json.toJsonCodec (nextLine (lastLineNumber file.entries)) handler (clock path)
          "leave-workspace".toList json.empty))

def writeLeaveEvents (clock : Path → Text) (tree : FileMap) : Except DepartFault FileMap :=
  (threadPaths tree).foldlM (appendLeaveEventToThread json handler clock) tree

/-- A thread that is archived already, or gone, is skipped. -/
def archiveDmThread (tree : FileMap) (stem : Text) : Except DepartFault FileMap :=
  if fileExists tree (archivedDmPath stem) = true ∨ fileExists tree (dmPath stem) = false then
    .ok tree
  else match gitMv tree (dmPath stem) (archivedDmPath stem) with
    | some after => .ok after
    | none => .error (.response ("phase2: git mv ".toList ++ (stem ++ " failed".toList)))

def archiveDms (tree : FileMap) : Except DepartFault FileMap :=
  (departTargets tree handler.name).foldlM archiveDmThread tree

/-- The names of the files `channels/<name>.meta.yaml`, in order. -/
def channelNames (tree : FileMap) : List Text :=
  ((tree.map Prod.fst).filterMap fun path => do
    let name ← stripPrefix "channels/".toList path
    if '/' ∈ name then none else stripSuffix ".meta.yaml".toList name).insertionSort
      fun a b => a ≤ b

/-- The metadata of a channel without a user. -/
def without (name : Text) (info : ChannelMeta) : ChannelMeta :=
  { info with members := info.members.filter (· ≠ name) }

/-- Nobody looks at what is left of the members. -/
def cleanChannelMembers (tree : FileMap) (channel : Text) : FileMap :=
  match (tree.lookup (metaPath channel)).bind yaml.fromStr with
  | none => tree
  | some info =>
    if handler.name ∈ info.members then
      writeFile tree (metaPath channel) (yaml.toStr (without handler.name info))
    else tree

def cleanMembers (tree : FileMap) : FileMap :=
  (channelNames tree).foldl (cleanChannelMembers yaml handler) tree

def boardPath (name : Text) : Path :=
  "showboards/".toList ++ (name ++ "/board.md".toList)

def archivedBoardPath (name : Text) : Path :=
  "archive/showboards/".toList ++ (name ++ "/board.md".toList)

/-- The file of the user and, if it has one, its board. -/
def archiveUser (w : Workspace) : Except DepartFault Workspace :=
  if fileExists w.tree (departedPath handler.name) then .ok w
  else match gitMv w.tree (userPath handler.name) (departedPath handler.name) with
    | none => .error (.response ("phase4: users/".toList ++ (handler.name ++
        ".meta.yaml is missing and not in archive/ either".toList)))
    | some after =>
      if fileExists after (boardPath handler.name) then
        match gitMv after (boardPath handler.name) (archivedBoardPath handler.name) with
        | none => .error (.response "phase4: board git mv failed".toList)
        | some final => .ok ⟨final, w.users.filter (· ≠ handler.name)⟩
      else .ok ⟨after, w.users.filter (· ≠ handler.name)⟩

end Phases

section Calls
variable {Json : Type} (json : EventJson Json) (yaml : MetaCodec)

/-- `handle_depart_user`. A handler that has departed is answered with success. -/
def departUser (clock : Path → Text) (w : Workspace) (name : Text) :
    Except DepartFault Workspace := do
  let handler ← (checkHandler name "invalid handler".toList).mapError .response
  if fileExists w.tree (departedPath name) then .ok w
  else do
    refuse (fileExists w.tree (userPath name) = false)
      (.response ("user @".toList ++ (name ++ " not found".toList)))
    let tree ← writeLeaveEvents json handler clock w.tree
    let tree ← archiveDms handler tree
    archiveUser handler ⟨cleanMembers yaml handler tree, w.users⟩

end Calls

section Specification
variable {Json : Type} {json : EventJson Json} {yaml : MetaCodec} {handler : Handler}
  {tree after : FileMap} {channel : Text}

theorem metaPath_isMeta (channel : Text) : isMetaPath (metaPath channel) :=
  ⟨"channels/".toList ++ channel, List.append_assoc _ _ _⟩

/-- A file that ends in `.thread` is not the metadata of a channel. -/
theorem metaPath_ne_of_thread {path : Path} (h : isThreadPath path) : metaPath channel ≠ path :=
  fun heq => not_meta_of_thread h (heq ▸ metaPath_isMeta channel)

theorem thread_of_mem_threadPaths {path : Path} (h : path ∈ threadPaths tree) :
    isThreadPath path := by
  have hcollected : ∀ dir, path ∈ collectThreadPaths dir tree → isThreadPath path := by
    intro dir hdir
    obtain ⟨-, hname⟩ := List.mem_filter.mp hdir
    obtain ⟨name, hstrip, hthread⟩ := (Option.any_eq_true _ _).mp hname
    rw [stripPrefix_eq_some_iff] at hstrip
    rw [decide_eq_true_eq] at hthread
    exact hstrip ▸ List.IsSuffix.trans hthread.2.1 (List.suffix_append dir name)
  rw [threadPaths, List.mem_insertionSort, List.mem_append] at h
  rcases h with h | h
  · exact hcollected _ h
  · exact hcollected _ h

theorem writeLeaveEvents_meta {clock : Path → Text}
    (h : writeLeaveEvents json handler clock tree = .ok after) :
    after.lookup (metaPath channel) = tree.lookup (metaPath channel) := by
  refine foldlM_invariant (P := fun t => t.lookup (metaPath channel) =
    tree.lookup (metaPath channel)) ?_ h rfl
  intro path hpath t t' ht hstep
  have hne : metaPath channel ≠ path := metaPath_ne_of_thread (thread_of_mem_threadPaths hpath)
  rw [appendLeaveEventToThread] at hstep
  split at hstep
  · cases hstep
    exact ht
  · split at hstep
    · cases hstep
    · cases hstep
      exact ht
    · split at hstep
      · cases hstep
        exact ht
      · cases hstep
        rw [lookup_writeFile, if_neg hne, ht]

/-- A move between two other places keeps the metadata of a channel. -/
theorem gitMv_meta {source target : Path} (h : gitMv tree source target = some after)
    (hsource : metaPath channel ≠ source) (htarget : metaPath channel ≠ target) :
    after.lookup (metaPath channel) = tree.lookup (metaPath channel) := by
  obtain ⟨content, -, -, hlookup⟩ := gitMv_eq_some h
  rw [hlookup, if_neg htarget, if_neg hsource]

theorem archiveDms_meta (h : archiveDms handler tree = .ok after) :
    after.lookup (metaPath channel) = tree.lookup (metaPath channel) := by
  refine foldlM_invariant (P := fun t => t.lookup (metaPath channel) =
    tree.lookup (metaPath channel)) ?_ h rfl
  intro stem _ t t' ht hstep
  rw [archiveDmThread] at hstep
  split at hstep
  · cases hstep
    exact ht
  · split at hstep
    · rename_i moved hmove
      cases hstep
      rw [← ht]
      exact gitMv_meta hmove
        (metaPath_ne_of_thread ⟨"dm/".toList ++ stem, List.append_assoc _ _ _⟩)
        (metaPath_ne_of_thread ⟨"archive/dm/".toList ++ stem, List.append_assoc _ _ _⟩)
    · cases hstep

theorem archiveUser_meta {w final : Workspace} (h : archiveUser handler w = .ok final) :
    final.tree.lookup (metaPath channel) = w.tree.lookup (metaPath channel) := by
  -- the paths of users and boards differ from those of channels in their first character
  have hhead : ∀ (path : Path) (d : Char), path.head? = some d → d ≠ 'c' →
      metaPath channel ≠ path := by
    rintro path d hpath hd rfl
    exact hd (Option.some.inj hpath).symm
  rw [archiveUser] at h
  split at h
  · cases h
    rfl
  · split at h
    · cases h
    · rename_i moved hmove
      have hmoved : moved.lookup (metaPath channel) = w.tree.lookup (metaPath channel) :=
        gitMv_meta hmove (hhead _ 'u' rfl (by decide)) (hhead _ 'a' rfl (by decide))
      split at h
      · split at h
        · cases h
        · rename_i final hboard
          cases h
          rw [← hmoved]
          exact gitMv_meta hboard (hhead _ 's' rfl (by decide)) (hhead _ 'a' rfl (by decide))
      · cases h
        exact hmoved

theorem without_idem (name : Text) (info : ChannelMeta) :
    without name (without name info) = without name info := by
  simp [without]

/-- The metadata of a channel is as it was, or as it was without the user. -/
def AsBefore (yaml : MetaCodec) (handler : Handler) (channel : Text) (info : ChannelMeta)
    (tree : FileMap) : Prop :=
  readMeta yaml tree channel = .ok info ∨
    readMeta yaml tree channel = .ok (without handler.name info)

theorem asBefore_clean (hyaml : ∀ m, yaml.fromStr (yaml.toStr m) = some m) {info : ChannelMeta}
    (other : Text) (h : readMeta yaml tree channel = .ok info) :
    AsBefore yaml handler channel info (cleanChannelMembers yaml handler tree other) := by
  rw [cleanChannelMembers]
  split
  · exact Or.inl h
  · rename_i stored hstored
    split
    · by_cases hother : other = channel
      · subst hother
        obtain ⟨content, hcontent, hparse⟩ := readMeta_ok_iff.mp h
        rw [hcontent, Option.bind_some, hparse] at hstored
        cases hstored
        exact Or.inr (readMeta_ok_iff.mpr ⟨_, by rw [lookup_writeFile, if_pos rfl], hyaml _⟩)
      · refine Or.inl (readMeta_ok_iff.mpr ?_)
        rw [lookup_writeFile, if_neg fun heq => hother (metaPath_injective heq).symm]
        exact readMeta_ok_iff.mp h
    · exact Or.inl h

theorem asBefore_foldl (hyaml : ∀ m, yaml.fromStr (yaml.toStr m) = some m) {info : ChannelMeta}
    (names : List Text) (h : AsBefore yaml handler channel info tree) :
    AsBefore yaml handler channel info (names.foldl (cleanChannelMembers yaml handler) tree) := by
  induction names generalizing tree with
  | nil => exact h
  | cons name names ih =>
    refine ih ?_
    rcases h with h | h
    · exact asBefore_clean hyaml name h
    · rcases asBefore_clean hyaml name h with h | h
      · exact Or.inr h
      · rw [without_idem] at h
        exact Or.inr h

/-- What an accepted departure does to the members of a channel. -/
theorem departUser_meta (hyaml : ∀ m, yaml.fromStr (yaml.toStr m) = some m)
    {clock : Path → Text} {w final : Workspace} {name : Text} {info : ChannelMeta}
    (h : departUser json yaml clock w name = .ok final)
    (hinfo : readMeta yaml w.tree channel = .ok info) :
    readMeta yaml final.tree channel = .ok info ∨
      fileExists w.tree (departedPath name) = false ∧
        readMeta yaml final.tree channel = .ok (without name info) := by
  obtain ⟨handler, hhandler, h⟩ := bind_eq_ok_iff.mp h
  rw [mapError_eq_ok_iff] at hhandler
  have hname : handler.name = name := checkHandler_name hhandler
  split at h
  · cases h
    exact Or.inl hinfo
  · rename_i hdeparted
    obtain ⟨u, -, h⟩ := bind_eq_ok_iff.mp h
    obtain ⟨told, htold, h⟩ := bind_eq_ok_iff.mp h
    obtain ⟨moved, hmoved, h⟩ := bind_eq_ok_iff.mp h
    have hmovedInfo : readMeta yaml moved channel = .ok info := by
      rw [readMeta_ok_iff, archiveDms_meta hmoved, writeLeaveEvents_meta htold]
      exact readMeta_ok_iff.mp hinfo
    have hfinal : ∀ info', readMeta yaml (cleanMembers yaml handler moved) channel = .ok info' →
        readMeta yaml final.tree channel = .ok info' := by
      intro info' hinfo'
      rw [readMeta_ok_iff, archiveUser_meta h]
      exact readMeta_ok_iff.mp hinfo'
    rcases asBefore_foldl hyaml (channelNames moved) (Or.inl hmovedInfo) with hclean | hclean
    · exact Or.inl (hfinal info hclean)
    · exact Or.inr ⟨by simpa using hdeparted, hname ▸ hfinal _ hclean⟩

end Specification

end Departure
