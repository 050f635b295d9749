import Mathlib.Data.List.Permutation
import GitIM.Users
import GitIM.Flows
import GitIM.TwoSteps
import GitIM.ChannelMembership

/-!
# Updates of shared documents

Channel metadata, user metadata and flow documents are updated by calls that take the
commit lock for their last step. Joining, leaving and the edits of labels read the document
under the lock. The assignment of a project, the update of a profile and the edits of flows
read it before, and write back what they have made of it.
-/

namespace DocumentUpdates

open TextLines TextScan FileTree Checked Runs ThreadFormat ThreadValidation ConflictReplay DmThreads
  Channels Cards Users Flows TwoSteps
open Poll (sortedSet)

section Calls

structure ProjectMeta where
  displayName : Text
  createdBy : Text
  createdAt : Text
  introduction : Text
  deriving DecidableEq

/-- The libraries that read and write the documents, and the debug text of a character. -/
structure Libraries (Json : Type) where
  event : EventJson Json
  channel : MetaCodec
  user : UserCodec
  flow : FlowCodec
  project : Text → Option ProjectMeta
  quote : Char → Text

inductive LabelEdit where
  | add
  | remove
  deriving DecidableEq

inductive Call where
  | channelEvent (kind : EventKind) (channel : Text) (targets : List Text) (author : Text)
  | setChannelProject (channel : Text) (project : Option Text) (author : Text)
  | updateUser (handler : Text) (displayName introduction : Option Text)
  | labels (edit : LabelEdit) (target : Text) (labels : List Text)
  | flowCreate (slug name description author : Text)
  | flowUpdateNode (slug nodeId prompt author : Text)
  | flowReplace (slug : Text) (name description : Option Text) (nodes : List FlowNode)
      (author : Text)
  deriving DecidableEq

/-- What a call takes along to its last step. A document that was read before the lock is kept as
it was then, next to what the call writes in its place. -/
inductive Plan where
  | event (kind : EventKind) (channel : Text) (targets : List Text) (author : Handler)
  | rewrite (path : Path) (read written : Text)
  | labels (edit : LabelEdit) (target : Text) (labels : List Text)
  | flow (slug : Text) (read : Option Text) (doc : FlowMeta)
  deriving DecidableEq

variable {Json : Type} (lib : Libraries Json) (users : List Text) (currentUser : Option Text)

inductive ProjectSlugError where
  | empty
  | tooLong
  | invalidChar (c : Char)
  | hyphenBoundary
  | consecutiveHyphens
  | reserved (slug : Text)
  deriving DecidableEq

def reservedProjectSlugs : List Text :=
  ["archive", "channels", "projects", "users", "dms", "cards", "flows", "system"].map String.toList

def ProjectSlugError.text (quote : Char → Text) : ProjectSlugError → Text
  | empty => "project slug is empty".toList
  | tooLong => "project slug exceeds 32 characters".toList
  | invalidChar c => "project slug contains invalid character: ".toList ++ quote c
  | hyphenBoundary => "project slug must not start or end with hyphen".toList
  | consecutiveHyphens => "project slug must not contain consecutive hyphens".toList
  | reserved slug => "project slug '".toList ++ (slug ++ "' is reserved".toList)

def projectSlugError (s : Text) : Option ProjectSlugError :=
  if s = [] then some .empty
  else if utf8Len s > 32 then some .tooLong
  else match s.find? (fun c => !isHandlerChar c) with
    | some c => some (.invalidChar c)
    | none =>
      if s.head? = some '-' ∨ s.getLast? = some '-' then some .hyphenBoundary
      else if "--".toList <:+: s then some .consecutiveHyphens
      else if s ∈ reservedProjectSlugs then some (.reserved s)
      else none

def projectPath (slug : Text) : Path := "projects/".toList ++ (slug ++ ".meta.yaml".toList)

/-- The checks of `validate_project_meta`. -/
def projectValid (content : Text) : Bool :=
  (lib.project content).any fun info =>
    info.displayName ≠ [] ∧ utf8Len info.displayName ≤ 64 ∧ info.introduction ≠ [] ∧
      utf8Len info.introduction ≤ 500 ∧ handlerError info.createdBy = none

def checkProject (tree : FileMap) (slug : Text) : Except Text Unit := do
  checkSome (projectSlugError slug) fun e => .error ("invalid_slug: ".toList ++ e.text lib.quote)
  match tree.lookup (projectPath slug) with
  | none => .error ("project '".toList ++ (slug ++ "' does not exist".toList))
  | some content =>
    refuse (projectValid lib content = false)
      ("project '".toList ++ (slug ++ "' meta is corrupted".toList))

def checkFlowSlug (slug : Text) : Except Text Unit :=
  checkSome (flowSlugError slug) fun e => .error ("invalid slug: ".toList ++ e.text)

def readFlow (tree : FileMap) (slug : Text) : Except Text (Text × FlowMeta) :=
  match tree.lookup (flowPath slug) with
  | none => .error ("flow not found: ".toList ++ slug)
  | some content => do
    let doc ← (parseFlowMarkdown lib.flow content).mapError fun e => "invalid flow: ".toList ++ e.text
    .ok (content, doc)

/-- The first node with the id gets the prompt. -/
def setPrompt (nodeId prompt : Text) : List FlowNode → Option (List FlowNode)
  | [] => none
  | n :: rest =>
    if n.id = nodeId then some ({ n with prompt := trimEnd prompt } :: rest)
    else (setPrompt nodeId prompt rest).map (n :: ·)

def ensureSelf (target : Text) : Except Text Unit := do
  let _ ← checkHandler target "invalid target handler".toList
  match currentUser.filter (· ≠ []) with
  | none => .error "daemon has no bound identity (current_user is empty)".toList
  | some me =>
    refuse (me ≠ target) ("only self (@".toList ++ (me ++ ") can modify own labels".toList))

/-- What a call does before it takes the lock; `none` if nothing is left to do. -/
def check (tree : FileMap) : Call → CallEnv → Except Text (Option Plan)
  | .channelEvent kind channel targets author, _ => do
    checkChannelName channel
    let handler ← checkHandler author "invalid author".toList
    ensureAuthorNotDeparted tree author
    ensureRegistered users author
    let _ ← targets.mapM fun t => checkHandler t "invalid target".toList
    let info ← readMeta lib.channel tree channel
    checkRules kind author targets users info
    .ok (some (.event kind channel targets handler))
  | .setChannelProject channel project author, _ => do
    refuse (handlerError author ≠ none) ("invalid author: ".toList ++ author)
    ensureAuthorNotDeparted tree author
    ensureRegistered users author
    checkChannelName channel
    checkSome project fun slug => checkProject lib tree slug
    match tree.lookup (metaPath channel) with
    | none =>
      if fileExists tree (archivedMetaPath channel) then
        .error ("channel '".toList ++ (channel ++ "' is archived; meta is frozen".toList))
      else .error ("channel '".toList ++ (channel ++ "' does not exist".toList))
    | some content =>
      match lib.channel.fromStr content with
      | none => .error "parse channel meta".toList
      | some info =>
        .ok (some (.rewrite (metaPath channel) content
          (lib.channel.toStr { info with project := project })))
  | .updateUser handler displayName introduction, _ => do
    checkProfile handler displayName introduction
    match tree.lookup (userPath handler) with
    | none => .error ("user not found: ".toList ++ handler)
    | some content =>
      match lib.user.fromStr content with
      | none => .error "failed to parse user meta".toList
      | some info =>
        let edited := editProfile displayName introduction info
        if edited = info then .ok none
        else .ok (some (.rewrite (userPath handler) content (lib.user.toStr edited)))
  | .labels .add target labels, _ => do
    ensureSelf currentUser target
    (validateLabels (sortedSet labels) userMaxLabels).mapError
      fun e => "invalid labels: ".toList ++ e.text
    .ok (some (.labels .add target (sortedSet labels)))
  | .labels .remove target labels, _ => do
    ensureSelf currentUser target
    .ok (some (.labels .remove target labels))
  | .flowCreate slug name description author, env => do
    checkFlowSlug slug
    ensureAuthorNotDeparted tree author
    refuse (fileExists tree (flowPath slug) = true) ("flow already exists: ".toList ++ slug)
    .ok (some (.flow slug none ⟨1, slug, name, description, author, env.now, none, []⟩))
  | .flowUpdateNode slug nodeId prompt author, _ => do
    checkFlowSlug slug
    ensureAuthorNotDeparted tree author
    let (content, doc) ← readFlow lib tree slug
    match setPrompt nodeId prompt doc.nodes with
    | none => .error ("node not found: ".toList ++ nodeId)
    | some nodes => .ok (some (.flow slug (some content) { doc with nodes := nodes }))
  | .flowReplace slug name description nodes author, _ => do
    checkFlowSlug slug
    ensureAuthorNotDeparted tree author
    let (content, doc) ← readFlow lib tree slug
    .ok (some (.flow slug (some content) ⟨1, slug, name.getD doc.name,
      description.getD doc.description, doc.createdBy, doc.createdAt, doc.updatedAt, nodes⟩))

end Calls

section Sections
variable {Json : Type} (lib : Libraries Json) (users : List Text)

/-- A file that is written whole. -/
def rewriteFile (tree : FileMap) (path : Path) (text : Text) (env : CallEnv) : Except Text FileMap :=
  match replaceFile tree path text env.metaWrite with
  | (after, true) => .ok after
  | (_, false) => .error "write failed".toList

def rereadMeta (tree : FileMap) (channel : Text) : Except Text ChannelMeta :=
  match tree.lookup (metaPath channel) with
  | none => .error "failed to read channel meta".toList
  | some content =>
    match lib.channel.fromStr content with
    | none => .error "failed to parse channel meta".toList
    | some info => .ok info

/-- The locked part of `write_channel_event`. The commit is left out: if it fails, the response
only says so. -/
def eventSection (tree : FileMap) (kind : EventKind) (channel : Text) (targets : List Text)
    (author : Handler) (env : CallEnv) : Except Text FileMap := do
  let existing := (tree.lookup (threadPath channel)).getD []
  let file ← (parseThread lib.event.toJsonCodec existing).mapError
    fun _ => "failed to parse thread".toList
  let latest ← rereadMeta lib tree channel
  checkRules kind author.name targets users latest
  let line := formatEvent lib.event.toJsonCodec (nextLine (lastLineNumber file.entries)) author
    env.now kind.name (eventMeta lib.event targets)
  (validateAppend lib.event.toJsonCodec lib.event.isObject users
    (allowedSenders kind author.name targets latest) existing line).mapError
      fun _ => "compliance check failed".toList
  let members := updateMembers kind (affected author.name targets) latest.members
  let (after, appended) := appendFile tree (threadPath channel) line env.append
  appended
  refuse (env.serialized = false) "failed to serialize channel meta".toList
  rewriteFile after (metaPath channel) (lib.channel.toStr { latest with members := members }) env

def editLabels (labels : List Text) (info : UserMeta) : LabelEdit → Except Text (Option UserMeta)
  | .add => addLabels labels info
  | .remove => removeLabels labels info

def labelsSection (tree : FileMap) (edit : LabelEdit) (target : Text) (labels : List Text)
    (env : CallEnv) : Except Text FileMap :=
  match (tree.lookup (userPath target)).map lib.user.fromStr with
  | none => .error "read user meta failed".toList
  | some none => .error "parse user meta failed".toList
  | some (some info) => do
    let edited ← editLabels labels info edit
    match edited with
    | none => .ok tree
    | some info => rewriteFile tree (userPath target) (lib.user.toStr info) env

/-- `commit_flow_document_locked` up to its commit. -/
def flowSection (tree : FileMap) (slug : Text) (doc : FlowMeta) (env : CallEnv) :
    Except Text FileMap := do
  let doc := { doc with updatedAt := some env.now }
  (validateFlowDocument lib.quote doc slug).mapError FlowError.text
  rewriteFile tree (flowPath slug) (stringifyFlowMarkdown lib.flow doc) env

/-- The last step of a call, as far as it is answered with success. -/
def perform (tree : FileMap) : Plan → CallEnv → Except Text FileMap
  | .event kind channel targets author, env =>
    eventSection lib users tree kind channel targets author env
  | .rewrite path _ written, env => rewriteFile tree path written env
  | .labels edit target labels, env => labelsSection lib tree edit target labels env
  | .flow slug _ doc, env => flowSection lib tree slug doc env

/-- The calls of a daemon. A step that ends in an error is none. -/
def protocol (currentUser : Option Text) : Protocol FileMap Call Plan CallEnv where
  prepare tree c env := (check lib users currentUser tree c env).toOption
  finish tree plan env := (perform lib users tree plan env).toOption

/-- A document that was read before the lock is still as it was. -/
def AsRead (tree : FileMap) : Plan → Prop
  | .rewrite path read _ => tree.lookup path = some read
  | .flow slug read _ => tree.lookup (flowPath slug) = read
  | .event _ _ _ _ | .labels _ _ _ => True

instance decidableAsRead (tree : FileMap) (plan : Plan) : Decidable (AsRead tree plan) := by
  cases plan <;> unfold AsRead <;> infer_instance

/-- The condition: a call writes only if what it read before the lock is still there. -/
def Unchanged (w : World FileMap Call Plan CallEnv) : Action Call CallEnv → Prop
  | .start _ _ => True
  | .proceed id _ => ∀ x ∈ w.waiting, x.id = id → AsRead w.state x.plan

instance decidableUnchanged (w : World FileMap Call Plan CallEnv) :
    (a : Action Call CallEnv) → Decidable (Unchanged w a)
  | .start _ _ => isTrue trivial
  | .proceed id _ =>
    inferInstanceAs (Decidable (∀ x ∈ w.waiting, x.id = id → AsRead w.state x.plan))

end Sections

section Steps
variable {Json : Type} {lib : Libraries Json} {users : List Text} {currentUser : Option Text}
  {tree after : FileMap}

theorem rewriteFile_ok_iff {path : Path} {text : Text} {env : CallEnv} :
    rewriteFile tree path text env = .ok after ↔
      env.metaWrite = .complete ∧ after = writeFile tree path text := by
  rw [rewriteFile]
  cases henv : env.metaWrite with
  | notOpened => simp [replaceFile]
  | stopped n => simp [replaceFile]
  | complete => simp [replaceFile, eq_comm]

theorem appendFile_ok {path : Path} {text : Text} {result : WriteResult}
    (h : (appendFile tree path text result).2 = .ok ()) :
    (appendFile tree path text result).1 =
      writeFile tree path ((tree.lookup path).getD [] ++ text) := by
  cases result with
  | notOpened => cases h
  | stopped n => cases h
  | complete => rfl

theorem rereadMeta_ok {channel : Text} {info : ChannelMeta}
    (h : rereadMeta lib tree channel = .ok info) :
    ∃ content, tree.lookup (metaPath channel) = some content ∧
      lib.channel.fromStr content = some info := by
  rw [rereadMeta] at h
  split at h
  · cases h
  rename_i content hlookup
  split at h
  · cases h
  rename_i hfrom
  cases h
  exact ⟨content, hlookup, hfrom⟩

/-- A membership event checks the rules on the metadata as it is, and changes the members of it. -/
theorem eventSection_ok {kind : EventKind} {channel : Text} {targets : List Text} {author : Handler}
    {env : CallEnv} (h : eventSection lib users tree kind channel targets author env = .ok after) :
    ∃ content info thread, tree.lookup (metaPath channel) = some content ∧
      lib.channel.fromStr content = some info ∧
      checkRules kind author.name targets users info = .ok () ∧
      after = writeFile (writeFile tree (threadPath channel) thread) (metaPath channel)
        (lib.channel.toStr { info with
          members := updateMembers kind (affected author.name targets) info.members }) := by
  simp only [eventSection, bind_eq_ok_iff, mapError_eq_ok_iff] at h
  obtain ⟨file, -, latest, hlatest, _, hrules, _, -, _, happend, _, -, hwrite⟩ := h
  obtain ⟨content, hlookup, hfrom⟩ := rereadMeta_ok hlatest
  rw [appendFile_ok happend] at hwrite
  exact ⟨content, latest, _, hlookup, hfrom, hrules, (rewriteFile_ok_iff.mp hwrite).2⟩

theorem labelsSection_ok {edit : LabelEdit} {target : Text} {labels : List Text} {env : CallEnv}
    (h : labelsSection lib tree edit target labels env = .ok after) :
    after = tree ∨ ∃ text, after = writeFile tree (userPath target) text := by
  rw [labelsSection] at h
  split at h
  · cases h
  · cases h
  · obtain ⟨edited, -, hwrite⟩ := bind_eq_ok_iff.mp h
    cases edited with
    | none =>
      cases hwrite
      exact .inl rfl
    | some info => exact .inr ⟨_, (rewriteFile_ok_iff.mp hwrite).2⟩

theorem flowSection_ok {slug : Text} {doc : FlowMeta} {env : CallEnv}
    (h : flowSection lib tree slug doc env = .ok after) :
    ∃ text, after = writeFile tree (flowPath slug) text := by
  obtain ⟨-, hwrite⟩ := then_eq_ok_iff.mp h
  exact ⟨_, (rewriteFile_ok_iff.mp hwrite).2⟩

/-- The path is in none of the directories of the documents. -/
def Elsewhere (path : Path) : Prop :=
  path.head? ≠ some 'c' ∧ path.head? ≠ some 'u' ∧ path.head? ≠ some 'f'

theorem Elsewhere.ne_meta {path : Path} (h : Elsewhere path) (channel : Text) :
    path ≠ metaPath channel := by
  rintro rfl
  exact h.1 rfl

theorem Elsewhere.ne_thread {path : Path} (h : Elsewhere path) (channel : Text) :
    path ≠ threadPath channel := by
  rintro rfl
  exact h.1 rfl

theorem Elsewhere.ne_user {path : Path} (h : Elsewhere path) (handler : Text) :
    path ≠ userPath handler := by
  rintro rfl
  exact h.2.1 rfl

theorem Elsewhere.ne_flow {path : Path} (h : Elsewhere path) (slug : Text) :
    path ≠ flowPath slug := by
  rintro rfl
  exact h.2.2 rfl

/-- A plan that rewrites a document rewrites one of the two kinds there are. -/
def WritesDocument : Plan → Prop
  | .rewrite path _ _ => ∃ name, path = metaPath name ∨ path = userPath name
  | .event _ _ _ _ | .labels _ _ _ | .flow _ _ _ => True

/-- Archived files and projects are not touched. -/
theorem perform_frame {plan : Plan} {env : CallEnv} (hplan : WritesDocument plan)
    (h : perform lib users tree plan env = .ok after) {path : Path} (hpath : Elsewhere path) :
    after.lookup path = tree.lookup path := by
  cases plan with
  | event kind channel targets author =>
    obtain ⟨-, -, -, -, -, -, rfl⟩ := eventSection_ok h
    rw [lookup_writeFile, if_neg (hpath.ne_meta channel), lookup_writeFile,
      if_neg (hpath.ne_thread channel)]
  | rewrite doc read written =>
    obtain ⟨-, rfl⟩ := rewriteFile_ok_iff.mp h
    have hne : path ≠ doc := by
      obtain ⟨name, rfl | rfl⟩ := hplan
      · exact hpath.ne_meta name
      · exact hpath.ne_user name
    rw [lookup_writeFile, if_neg hne]
  | labels edit target labels =>
    rcases labelsSection_ok h with rfl | ⟨text, rfl⟩
    · rfl
    · rw [lookup_writeFile, if_neg (hpath.ne_user target)]
  | flow slug read doc =>
    obtain ⟨text, rfl⟩ := flowSection_ok h
    rw [lookup_writeFile, if_neg (hpath.ne_flow slug)]

/-- The document a call is about. -/
def Call.document : Call → Path
  | .channelEvent _ channel _ _ => metaPath channel
  | .setChannelProject channel _ _ => metaPath channel
  | .updateUser handler _ _ => userPath handler
  | .labels _ target _ => userPath target
  | .flowCreate slug _ _ _ => flowPath slug
  | .flowUpdateNode slug _ _ _ => flowPath slug
  | .flowReplace slug _ _ _ _ => flowPath slug

theorem elsewhere_departed (author : Text) : Elsewhere (departedPath author) := by
  have hhead : (departedPath author).head? = some 'a' := rfl
  simp [Elsewhere, hhead]

theorem elsewhere_archived (channel : Text) : Elsewhere (archivedMetaPath channel) := by
  have hhead : (archivedMetaPath channel).head? = some 'a' := rfl
  simp [Elsewhere, hhead]

theorem elsewhere_project (slug : Text) : Elsewhere (projectPath slug) := by
  have hhead : (projectPath slug).head? = some 'p' := rfl
  simp [Elsewhere, hhead]

theorem fileExists_congr {before : FileMap} {path : Path}
    (h : tree.lookup path = before.lookup path) : fileExists tree path = fileExists before path :=
  congrArg Option.isSome h

/-- The checks of a call read its document, archived files and projects. -/
theorem check_congr {before : FileMap} {c : Call} (env : CallEnv)
    (hsame : ∀ path, Elsewhere path → tree.lookup path = before.lookup path)
    (hdocument : tree.lookup c.document = before.lookup c.document) :
    check lib users currentUser tree c env = check lib users currentUser before c env := by
  have hdeparted : ∀ author,
      ensureAuthorNotDeparted tree author = ensureAuthorNotDeparted before author := by
    intro author
    rw [ensureAuthorNotDeparted, fileExists_congr (hsame _ (elsewhere_departed author)),
      ensureAuthorNotDeparted]
  cases c with
  | channelEvent kind channel targets author =>
    have hmeta : readMeta lib.channel tree channel = readMeta lib.channel before channel := by
      rw [Call.document] at hdocument
      rw [readMeta, readMeta, fileExists_congr (hsame _ (elsewhere_archived channel)), hdocument]
    simp only [check, hdeparted, hmeta]
  | setChannelProject channel project author =>
    have hproject : ∀ slug, checkProject lib tree slug = checkProject lib before slug := by
      intro slug
      simp only [checkProject, hsame _ (elsewhere_project slug)]
    rw [Call.document] at hdocument
    simp only [check, hproject, hdeparted, hdocument]
    rw [fileExists_congr (hsame _ (elsewhere_archived channel))]
  | updateUser handler displayName introduction =>
    rw [Call.document] at hdocument
    simp only [check, hdocument]
  | labels edit target labels => cases edit <;> rfl
  | flowCreate slug name description author =>
    rw [Call.document] at hdocument
    simp only [check, hdeparted]
    rw [fileExists_congr hdocument]
  | flowUpdateNode slug nodeId prompt author =>
    rw [Call.document] at hdocument
    simp only [check, readFlow, hdeparted, hdocument]
  | flowReplace slug name description nodes author =>
    rw [Call.document] at hdocument
    simp only [check, readFlow, hdeparted, hdocument]

theorem readFlow_ok {slug content : Text} {doc : FlowMeta}
    (h : readFlow lib tree slug = .ok (content, doc)) :
    tree.lookup (flowPath slug) = some content := by
  rw [readFlow] at h
  split at h
  · cases h
  · rename_i text hlookup
    obtain ⟨d, -, hd⟩ := bind_eq_ok_iff.mp h
    cases hd
    exact hlookup

/-- What the plan of a call says about the call, and about what was read for it. -/
theorem check_plan {c : Call} {env : CallEnv} {plan : Plan}
    (h : check lib users currentUser tree c env = .ok (some plan)) :
    (∃ kind channel targets author handler,
      c = .channelEvent kind channel targets author ∧ handler.name = author ∧
        plan = .event kind channel targets handler) ∨
    (∃ edit target labels kept, c = .labels edit target labels ∧ plan = .labels edit target kept) ∨
    (∃ channel project author read info, c = .setChannelProject channel project author ∧
      tree.lookup (metaPath channel) = some read ∧ lib.channel.fromStr read = some info ∧
        plan = .rewrite (metaPath channel) read
          (lib.channel.toStr { info with project := project })) ∨
    (∃ handler displayName introduction read written,
      c = .updateUser handler displayName introduction ∧
        tree.lookup (userPath handler) = some read ∧
        plan = .rewrite (userPath handler) read written) ∨
    (∃ slug read doc, plan = .flow slug read doc ∧ c.document = flowPath slug ∧
      tree.lookup c.document = read) := by
  cases c with
  | channelEvent kind channel targets author =>
    simp only [check, bind_eq_ok_iff] at h
    obtain ⟨_, -, handler, hhandler, _, -, _, -, _, -, info, -, _, -, hplan⟩ := h
    cases hplan
    exact .inl ⟨kind, channel, targets, author, handler, rfl, checkHandler_name hhandler, rfl⟩
  | setChannelProject channel project author =>
    simp only [check, bind_eq_ok_iff] at h
    obtain ⟨_, -, _, -, _, -, _, -, _, -, hrest⟩ := h
    split at hrest
    · split at hrest <;> cases hrest
    rename_i content hlookup
    split at hrest
    · cases hrest
    · rename_i info hfrom
      cases hrest
      exact .inr (.inr (.inl ⟨channel, project, author, content, info, rfl, hlookup, hfrom, rfl⟩))
  | updateUser handler displayName introduction =>
    simp only [check, bind_eq_ok_iff] at h
    obtain ⟨_, -, hrest⟩ := h
    split at hrest
    · cases hrest
    rename_i content hlookup
    split at hrest
    · cases hrest
    split at hrest
    · cases hrest
    · cases hrest
      exact .inr (.inr (.inr (.inl ⟨handler, displayName, introduction, content, _, rfl, hlookup,
        rfl⟩)))
  | labels edit target labels =>
    cases edit with
    | add =>
      simp only [check, bind_eq_ok_iff] at h
      obtain ⟨_, -, _, -, hplan⟩ := h
      cases hplan
      exact .inr (.inl ⟨.add, target, labels, _, rfl, rfl⟩)
    | remove =>
      simp only [check, bind_eq_ok_iff] at h
      obtain ⟨_, -, hplan⟩ := h
      cases hplan
      exact .inr (.inl ⟨.remove, target, labels, _, rfl, rfl⟩)
  | flowCreate slug name description author =>
    simp only [check, bind_eq_ok_iff, refuse_eq_ok_iff] at h
    obtain ⟨_, -, _, -, _, hnew, hplan⟩ := h
    cases hplan
    have hnone := fileExists_eq_false_iff.mp (Bool.eq_false_of_not_eq_true hnew)
    exact .inr (.inr (.inr (.inr ⟨slug, none, _, rfl, rfl, hnone⟩)))
  | flowUpdateNode slug nodeId prompt author =>
    simp only [check, bind_eq_ok_iff] at h
    obtain ⟨_, -, _, -, ⟨content, doc⟩, hread, hrest⟩ := h
    split at hrest
    · cases hrest
    · cases hrest
      exact .inr (.inr (.inr (.inr ⟨slug, some content, _, rfl, rfl, readFlow_ok hread⟩)))
  | flowReplace slug name description nodes author =>
    simp only [check, bind_eq_ok_iff] at h
    obtain ⟨_, -, _, -, ⟨content, doc⟩, hread, hplan⟩ := h
    cases hplan
    exact .inr (.inr (.inr (.inr ⟨slug, some content, _, rfl, rfl, readFlow_ok hread⟩)))

theorem writesDocument_of_check {c : Call} {env : CallEnv} {plan : Plan}
    (h : check lib users currentUser tree c env = .ok (some plan)) : WritesDocument plan := by
  rcases check_plan h with ⟨_, _, _, _, _, -, -, rfl⟩ | ⟨_, _, _, _, -, rfl⟩ |
    ⟨channel, _, _, _, _, -, -, -, rfl⟩ | ⟨handler, _, _, _, _, -, -, rfl⟩ | ⟨_, _, _, rfl, -, -⟩
  · trivial
  · trivial
  · exact ⟨channel, .inl rfl⟩
  · exact ⟨handler, .inr rfl⟩
  · trivial

/-- An event that succeeds under the lock would pass its checks at that moment. -/
theorem check_event {before : FileMap} {kind : EventKind} {channel : Text} {targets : List Text}
    {author : Text} {handler : Handler} {first env : CallEnv}
    (h : check lib users currentUser before (.channelEvent kind channel targets author) first =
      .ok (some (.event kind channel targets handler)))
    (hsame : ∀ path, Elsewhere path → tree.lookup path = before.lookup path)
    (hperform : eventSection lib users tree kind channel targets handler env = .ok after) :
    check lib users currentUser tree (.channelEvent kind channel targets author) first =
      .ok (some (.event kind channel targets handler)) := by
  obtain ⟨content, info, -, hlookup, hfrom, hrules, -⟩ := eventSection_ok hperform
  simp only [check, bind_eq_ok_iff] at h ⊢
  obtain ⟨_, hname, handler', hhandler, _, hdeparted, _, hregistered, names, hnames, -, -, _, -,
    hplan⟩ := h
  cases hplan
  rw [checkHandler_name hhandler] at hrules
  rw [ensureAuthorNotDeparted, ← fileExists_congr (hsame _ (elsewhere_departed author))] at hdeparted
  exact ⟨_, hname, handler, hhandler, _, hdeparted, _, hregistered, names, hnames, info,
    readMeta_ok_iff.mpr ⟨content, hlookup, hfrom⟩, _, hrules, rfl⟩

/-- A call that writes on what it read passes its checks a second time. -/
theorem check_again {before : FileMap} {c : Call} {first env : CallEnv} {plan : Plan}
    (h : check lib users currentUser before c first = .ok (some plan))
    (hsame : ∀ path, Elsewhere path → tree.lookup path = before.lookup path)
    (hread : AsRead tree plan) (hperform : perform lib users tree plan env = .ok after) :
    check lib users currentUser tree c first = .ok (some plan) := by
  rcases check_plan h with ⟨kind, channel, targets, author, handler, rfl, -, rfl⟩ |
    ⟨edit, target, labels, kept, rfl, rfl⟩ |
    ⟨channel, project, author, read, info, rfl, hlookup, -, rfl⟩ |
    ⟨handler, displayName, introduction, read, written, rfl, hlookup, rfl⟩ |
    ⟨slug, read, doc, rfl, hdocument, hlookup⟩
  · exact check_event h hsame hperform
  · rw [← h]
    cases edit <;> rfl
  · rw [← h]
    exact check_congr first hsame (hread.trans hlookup.symm)
  · rw [← h]
    exact check_congr first hsame (hread.trans hlookup.symm)
  · rw [← h]
    refine check_congr first hsame (Eq.trans ?_ hlookup.symm)
    rw [hdocument]
    exact hread

end Steps

section Runs
variable {Json : Type} {lib : Libraries Json} {users : List Text} {currentUser : Option Text}

/-- Every waiting call has read, on files that differ from those of now in documents only. -/
def Prepared (lib : Libraries Json) (users : List Text) (currentUser : Option Text)
    (w : World FileMap Call Plan CallEnv) : Prop :=
  ∀ x ∈ w.waiting, ∃ before, check lib users currentUser before x.call x.first = .ok (some x.plan) ∧
    ∀ path, Elsewhere path → w.state.lookup path = before.lookup path

theorem toOption_eq_some {ε α : Type} {x : Except ε α} {a : α} (h : x.toOption = some a) :
    x = .ok a := by
  cases x with
  | error e => cases h
  | ok b => exact congrArg _ (Option.some.inj h)

theorem prepared_step {w w' : World FileMap Call Plan CallEnv} {a : Action Call CallEnv}
    (h : Prepared lib users currentUser w)
    (hstep : step (protocol lib users currentUser) w a = some w') :
    Prepared lib users currentUser w' := by
  cases a with
  | start c env =>
    simp only [TwoSteps.step] at hstep
    split at hstep
    · cases hstep
    · cases hstep
      exact h
    · rename_i plan hprepare
      cases hstep
      intro x hx
      rcases List.mem_append.mp hx with hx | hx
      · exact h x hx
      · rw [List.mem_singleton.mp hx]
        exact ⟨w.state, toOption_eq_some hprepare, fun _ _ => rfl⟩
  | proceed id env =>
    simp only [TwoSteps.step] at hstep
    split at hstep
    · cases hstep
    rename_i y hfind
    obtain ⟨s, hfinish, rfl⟩ := Option.map_eq_some_iff.mp hstep
    obtain ⟨_, hy, -⟩ := h y (List.mem_of_find?_eq_some hfind)
    intro x hx
    obtain ⟨before, hx, hsame⟩ := h x (List.mem_of_mem_filter hx)
    refine ⟨before, hx, fun path hpath => ?_⟩
    exact (perform_frame (writesDocument_of_check hy) (toOption_eq_some hfinish) hpath).trans
      (hsame path hpath)

theorem fresh_of_unchanged {w : World FileMap Call Plan CallEnv} {a : Action Call CallEnv}
    (h : Prepared lib users currentUser w) (ha : Unchanged w a) :
    Fresh (protocol lib users currentUser) w a := by
  cases a with
  | start c env => trivial
  | proceed id env =>
    intro x hx hid s hfinish
    obtain ⟨before, hcheck, hsame⟩ := h x hx
    have hagain := check_again hcheck hsame (ha x hx hid) (toOption_eq_some hfinish)
    have hprepare : (protocol lib users currentUser).prepare w.state x.call x.first =
        some (some x.plan) := congrArg Except.toOption hagain
    rw [applyCall, hprepare, Option.bind_some]
    exact hfinish

/-- The calls of a run have acted one after the other. -/
theorem inv_of_unchanged {tree : FileMap} {w : World FileMap Call Plan CallEnv}
    {as : List (Action Call CallEnv)}
    (hrun : run (step (protocol lib users currentUser)) (initial tree) as = some w)
    (hcond : Along (step (protocol lib users currentUser)) Unchanged (initial tree) as) :
    Inv (protocol lib users currentUser) tree w := by
  have hstart : Inv (protocol lib users currentUser) tree (initial tree) ∧
      Prepared lib users currentUser (initial tree) :=
    ⟨inv_initial tree, fun x hx => (by cases hx)⟩
  have hpreserve : ∀ v a v', (Inv (protocol lib users currentUser) tree v ∧
      Prepared lib users currentUser v) → Unchanged v a →
      step (protocol lib users currentUser) v a = some v' →
      Inv (protocol lib users currentUser) tree v' ∧ Prepared lib users currentUser v' :=
    fun v a v' hv ha hstep =>
      ⟨inv_step hv.1 (fresh_of_unchanged hv.2 ha) hstep, prepared_step hv.2 hstep⟩
  exact (run_invariant hpreserve hrun hcond hstart).1

end Runs

section Survival
variable {Json : Type} {lib : Libraries Json} {users : List Text} {currentUser : Option Text}
  {tree after : FileMap}

/-- The call adds the user to the channel. -/
def Adds (channel user : Text) : Call → Prop
  | .channelEvent .join name targets author => name = channel ∧ user ∈ affected author targets
  | _ => False

/-- The call takes the user out of the channel. -/
def Removes (channel user : Text) : Call → Prop
  | .channelEvent .leave name targets author => name = channel ∧ user ∈ affected author targets
  | _ => False

def Call.creates (slug : Text) : Call → Bool
  | .flowCreate s _ _ _ => s = slug
  | _ => false

def IsMember (lib : Libraries Json) (tree : FileMap) (channel user : Text) : Prop :=
  ∃ info, readMeta lib.channel tree channel = .ok info ∧ user ∈ info.members

theorem isMember_iff {channel user content : Text} {info : ChannelMeta}
    (hlookup : tree.lookup (metaPath channel) = some content)
    (hfrom : lib.channel.fromStr content = some info) :
    IsMember lib tree channel user ↔ user ∈ info.members := by
  have hread : readMeta lib.channel tree channel = .ok info :=
    readMeta_ok_iff.mpr ⟨content, hlookup, hfrom⟩
  simp [IsMember, hread]

theorem isMember_congr {channel user : Text}
    (h : after.lookup (metaPath channel) = tree.lookup (metaPath channel)) :
    IsMember lib after channel user ↔ IsMember lib tree channel user := by
  simp only [IsMember, readMeta_ok_iff, h]

theorem metaPath_ne_userPath (channel handler : Text) : metaPath channel ≠ userPath handler := by
  intro h
  have hhead : some 'c' = some 'u' := congrArg List.head? h
  cases hhead

theorem metaPath_ne_flowPath (channel slug : Text) : metaPath channel ≠ flowPath slug := by
  intro h
  have hhead : some 'c' = some 'f' := congrArg List.head? h
  cases hhead

/-- The call with its two steps: content with what is there, or done as planned. -/
theorem applyCall_cases {c : Call} {first env : CallEnv}
    (h : applyCall (protocol lib users currentUser) tree c first env = some after) :
    after = tree ∧ check lib users currentUser tree c first = .ok none ∨
      ∃ plan, check lib users currentUser tree c first = .ok (some plan) ∧
        perform lib users tree plan env = .ok after := by
  obtain ⟨prepared, hprepare, hfinish⟩ := Option.bind_eq_some_iff.mp h
  have hcheck := toOption_eq_some hprepare
  cases prepared with
  | none => exact .inl ⟨(Option.some.inj hfinish).symm, hcheck⟩
  | some plan => exact .inr ⟨plan, hcheck, toOption_eq_some hfinish⟩

/-- The members of the channel after an event. -/
theorem isMember_event {kind : EventKind} {channel : Text} {targets : List Text} {author : Handler}
    {env : CallEnv} (hyaml : ∀ m, lib.channel.fromStr (lib.channel.toStr m) = some m)
    (user : Text) : eventSection lib users tree kind channel targets author env = .ok after →
      (IsMember lib after channel user ↔ match kind with
        | .join => IsMember lib tree channel user ∨ user ∈ affected author.name targets
        | .leave => IsMember lib tree channel user ∧ user ∉ affected author.name targets) := by
  intro h
  obtain ⟨content, info, thread, hlookup, hfrom, -, rfl⟩ := eventSection_ok h
  rw [isMember_iff hlookup hfrom,
    isMember_iff ((lookup_writeFile _ _ _ _).trans (if_pos rfl)) (hyaml _)]
  exact mem_updateMembers

theorem isMember_perform {c : Call} {first env : CallEnv} {plan : Plan} {channel user : Text}
    (hyaml : ∀ m, lib.channel.fromStr (lib.channel.toStr m) = some m)
    (hcheck : check lib users currentUser tree c first = .ok (some plan))
    (h : perform lib users tree plan env = .ok after)
    (hmember : IsMember lib tree channel user) (hkept : ¬ Removes channel user c) :
    IsMember lib after channel user := by
  rcases check_plan hcheck with ⟨kind, name, targets, author, handler, rfl, rfl, rfl⟩ |
    ⟨edit, target, labels, kept, rfl, rfl⟩ |
    ⟨name, project, author, read, info, rfl, hlookup, hfrom, rfl⟩ |
    ⟨handler, displayName, introduction, read, written, rfl, hlookup, rfl⟩ |
    ⟨slug, read, doc, rfl, hdocument, hlookup⟩
  · by_cases hname : name = channel
    · subst hname
      rw [isMember_event hyaml user h]
      cases kind with
      | join => exact .inl hmember
      | leave => exact ⟨hmember, fun hin => hkept ⟨rfl, hin⟩⟩
    · obtain ⟨-, -, -, -, -, -, rfl⟩ := eventSection_ok h
      refine (isMember_congr ?_).mpr hmember
      rw [lookup_writeFile, if_neg (fun heq => hname (metaPath_injective heq).symm),
        lookup_writeFile, if_neg (metaPath_ne_threadPath channel name)]
  · rcases labelsSection_ok h with rfl | ⟨text, rfl⟩
    · exact hmember
    · refine (isMember_congr ?_).mpr hmember
      rw [lookup_writeFile, if_neg (metaPath_ne_userPath channel target)]
  · obtain ⟨-, rfl⟩ := rewriteFile_ok_iff.mp h
    by_cases hname : name = channel
    · subst hname
      have hwritten := (lookup_writeFile tree (metaPath name) (metaPath name)
        (lib.channel.toStr { info with project := project })).trans (if_pos rfl)
      exact (isMember_iff hwritten (hyaml _)).mpr ((isMember_iff hlookup hfrom).mp hmember)
    · refine (isMember_congr ?_).mpr hmember
      rw [lookup_writeFile, if_neg (fun heq => hname (metaPath_injective heq).symm)]
  · obtain ⟨-, rfl⟩ := rewriteFile_ok_iff.mp h
    refine (isMember_congr ?_).mpr hmember
    rw [lookup_writeFile, if_neg (metaPath_ne_userPath channel handler)]
  · obtain ⟨text, rfl⟩ := flowSection_ok h
    refine (isMember_congr ?_).mpr hmember
    rw [lookup_writeFile, if_neg (metaPath_ne_flowPath channel slug)]

theorem isMember_added {c : Call} {first env : CallEnv} {channel user : Text}
    (hyaml : ∀ m, lib.channel.fromStr (lib.channel.toStr m) = some m)
    (h : applyCall (protocol lib users currentUser) tree c first env = some after)
    (hadds : Adds channel user c) : IsMember lib after channel user := by
  cases c with
  | channelEvent kind name targets author =>
    cases kind with
    | leave => exact hadds.elim
    | join =>
      obtain ⟨rfl, hin⟩ := hadds
      rcases applyCall_cases h with ⟨-, hnone⟩ | ⟨plan, hcheck, hperform⟩
      · simp only [check, bind_eq_ok_iff] at hnone
        obtain ⟨_, -, _, -, _, -, _, -, _, -, _, -, _, -, hnone⟩ := hnone
        cases hnone
      · rcases check_plan hcheck with ⟨_, _, _, _, handler, hcall, hname, rfl⟩ |
          ⟨_, _, _, _, hcall, -⟩ | ⟨_, _, _, _, _, hcall, -⟩ | ⟨_, _, _, _, _, hcall, -⟩ |
          ⟨slug, _, _, -, hdocument, -⟩
        · cases hcall
          rw [← hname] at hin
          exact (isMember_event hyaml user hperform).mpr (.inr hin)
        · cases hcall
        · cases hcall
        · cases hcall
        · exact absurd hdocument (metaPath_ne_flowPath name slug)
  | setChannelProject _ _ _ => exact hadds.elim
  | updateUser _ _ _ => exact hadds.elim
  | labels _ _ _ => exact hadds.elim
  | flowCreate _ _ _ _ => exact hadds.elim
  | flowUpdateNode _ _ _ _ => exact hadds.elim
  | flowReplace _ _ _ _ _ => exact hadds.elim

theorem isMember_kept {turns : List (Turn Call CallEnv)} {channel user : Text}
    (hyaml : ∀ m, lib.channel.fromStr (lib.channel.toStr m) = some m)
    (h : applyAll (protocol lib users currentUser) tree turns = some after)
    (hkept : ∀ t ∈ turns, ¬ Removes channel user t.call)
    (hmember : IsMember lib tree channel user) : IsMember lib after channel user := by
  induction turns generalizing tree with
  | nil =>
    cases h
    exact hmember
  | cons t turns ih =>
    obtain ⟨next, hcall, hrest⟩ := Option.bind_eq_some_iff.mp h
    refine ih hrest (fun u hu => hkept u (List.mem_cons_of_mem t hu)) ?_
    rcases applyCall_cases hcall with ⟨rfl, -⟩ | ⟨plan, hcheck, hperform⟩
    · exact hmember
    · exact isMember_perform hyaml hcheck hperform hmember (hkept t List.mem_cons_self)

/-- Whoever was added and not taken out since is a member. -/
theorem isMember_of_added {turns : List (Turn Call CallEnv)} {channel user : Text}
    (hyaml : ∀ m, lib.channel.fromStr (lib.channel.toStr m) = some m)
    (h : applyAll (protocol lib users currentUser) tree turns = some after)
    (hkept : ∀ t ∈ turns, ¬ Removes channel user t.call)
    (hadded : ∃ t ∈ turns, Adds channel user t.call) : IsMember lib after channel user := by
  induction turns generalizing tree with
  | nil =>
    obtain ⟨t, ht, -⟩ := hadded
    cases ht
  | cons t turns ih =>
    obtain ⟨next, hcall, hrest⟩ := Option.bind_eq_some_iff.mp h
    have hlater : ∀ u ∈ turns, ¬ Removes channel user u.call :=
      fun u hu => hkept u (List.mem_cons_of_mem t hu)
    obtain ⟨u, hu, hadds⟩ := hadded
    rcases List.mem_cons.mp hu with rfl | hu
    · exact isMember_kept hyaml hrest hlater (isMember_added hyaml hcall hadds)
    · exact ih hrest hlater ⟨u, hu, hadds⟩

theorem fileExists_writeFile {path q : Path} (text : Text) (h : fileExists tree q = true) :
    fileExists (writeFile tree path text) q = true := by
  rw [fileExists, lookup_writeFile]
  split
  · rfl
  · exact h

theorem fileExists_perform {plan : Plan} {env : CallEnv} {path : Path}
    (h : perform lib users tree plan env = .ok after) (hexists : fileExists tree path = true) :
    fileExists after path = true := by
  cases plan with
  | event kind channel targets author =>
    obtain ⟨-, -, -, -, -, -, rfl⟩ := eventSection_ok h
    exact fileExists_writeFile _ (fileExists_writeFile _ hexists)
  | rewrite doc read written =>
    obtain ⟨-, rfl⟩ := rewriteFile_ok_iff.mp h
    exact fileExists_writeFile _ hexists
  | labels edit target labels =>
    rcases labelsSection_ok h with rfl | ⟨text, rfl⟩
    · exact hexists
    · exact fileExists_writeFile _ hexists
  | flow slug read doc =>
    obtain ⟨text, rfl⟩ := flowSection_ok h
    exact fileExists_writeFile _ hexists

theorem fileExists_applyCall {c : Call} {first env : CallEnv} {path : Path}
    (h : applyCall (protocol lib users currentUser) tree c first env = some after)
    (hexists : fileExists tree path = true) : fileExists after path = true := by
  rcases applyCall_cases h with ⟨rfl, -⟩ | ⟨plan, -, hperform⟩
  · exact hexists
  · exact fileExists_perform hperform hexists

/-- A flow is created where there is none, and then there is one. -/
theorem applyCall_create {c : Call} {slug : Text} {first env : CallEnv}
    (h : applyCall (protocol lib users currentUser) tree c first env = some after)
    (hcreates : c.creates slug = true) :
    fileExists tree (flowPath slug) = false ∧ fileExists after (flowPath slug) = true := by
  cases c with
  | flowCreate s name description author =>
    have hslug : s = slug := of_decide_eq_true hcreates
    subst hslug
    rcases applyCall_cases h with ⟨-, hnone⟩ | ⟨plan, hcheck, hperform⟩
    · simp only [check, bind_eq_ok_iff] at hnone
      obtain ⟨_, -, _, -, _, -, hnone⟩ := hnone
      cases hnone
    · simp only [check, bind_eq_ok_iff, refuse_eq_ok_iff] at hcheck
      obtain ⟨_, -, _, -, _, hnew, hplan⟩ := hcheck
      cases hplan
      obtain ⟨text, rfl⟩ := flowSection_ok hperform
      refine ⟨Bool.eq_false_of_not_eq_true hnew, ?_⟩
      rw [fileExists, lookup_writeFile, if_pos rfl]
      rfl
  | channelEvent _ _ _ _ => cases hcreates
  | setChannelProject _ _ _ => cases hcreates
  | updateUser _ _ _ => cases hcreates
  | labels _ _ _ => cases hcreates
  | flowUpdateNode _ _ _ _ => cases hcreates
  | flowReplace _ _ _ _ _ => cases hcreates

theorem not_creates_of_exists {turns : List (Turn Call CallEnv)} {slug : Text}
    (h : applyAll (protocol lib users currentUser) tree turns = some after)
    (hexists : fileExists tree (flowPath slug) = true) :
    ∀ t ∈ turns, t.call.creates slug = false := by
  induction turns generalizing tree with
  | nil => exact fun t ht => (by cases ht)
  | cons t turns ih =>
    obtain ⟨next, hcall, hrest⟩ := Option.bind_eq_some_iff.mp h
    intro u hu
    rcases List.mem_cons.mp hu with rfl | hu
    · by_contra hne
      have hnew := (applyCall_create hcall (Bool.eq_true_of_not_eq_false hne)).1
      rw [hexists] at hnew
      cases hnew
    · exact ih hrest (fileExists_applyCall hcall hexists) u hu

theorem creates_le_one {turns : List (Turn Call CallEnv)}
    (h : applyAll (protocol lib users currentUser) tree turns = some after) (slug : Text) :
    (turns.filter fun t => t.call.creates slug).length ≤ 1 := by
  induction turns generalizing tree with
  | nil => exact Nat.zero_le 1
  | cons t turns ih =>
    obtain ⟨next, hcall, hrest⟩ := Option.bind_eq_some_iff.mp h
    cases hcreates : t.call.creates slug with
    | false =>
      rw [List.filter_cons_of_neg (by simp [hcreates])]
      exact ih hrest
    | true =>
      have hlater := not_creates_of_exists hrest (applyCall_create hcall hcreates).2
      have hnone : turns.filter (fun t => t.call.creates slug) = [] :=
        List.filter_eq_nil_iff.mpr fun u hu => by simp [hlater u hu]
      rw [List.filter_cons_of_pos (by simp [hcreates]), hnone]
      exact Nat.le_refl 1

/-- What a run of calls leaves behind: the files are those of the calls that have succeeded, one
after the other in some order; whoever joined and was not taken out is a member; no flow was
created twice. -/
structure NoneLost (lib : Libraries Json) (users : List Text) (currentUser : Option Text)
    (tree : FileMap) (w : World FileMap Call Plan CallEnv) : Prop where
  complete : w.waiting = [] → (w.order.map Turn.call).Perm w.started
  serial : ∃ order, order.Perm w.order ∧
    applyAll (protocol lib users currentUser) tree order = some w.state
  members : ∀ channel user, (∃ t ∈ w.order, Adds channel user t.call) →
    (∀ t ∈ w.order, ¬ Removes channel user t.call) → IsMember lib w.state channel user
  created : ∀ slug, (w.order.filter fun t => t.call.creates slug).length ≤ 1

/-- No update is lost as long as no call writes over a document that has changed since it read
it. -/
theorem noneLost_of_unchanged {w : World FileMap Call Plan CallEnv}
    {as : List (Action Call CallEnv)}
    (hyaml : ∀ m, lib.channel.fromStr (lib.channel.toStr m) = some m)
    (hrun : run (step (protocol lib users currentUser)) (initial tree) as = some w)
    (hcond : Along (step (protocol lib users currentUser)) Unchanged (initial tree) as) :
    NoneLost lib users currentUser tree w := by
  have hinv := inv_of_unchanged hrun hcond
  constructor
  · exact hinv.perm_started
  · exact ⟨w.order, List.Perm.refl _, hinv.acted⟩
  · intro channel user hadded hkept
    exact isMember_of_added hyaml hinv.acted hkept hadded
  · exact creates_le_one hinv.acted

end Survival

section Samples
open ThreadMerge TableCodec ChannelMembership

deriving instance DecidableEq for CallEnv

def inProject (members : List Text) : ChannelMeta :=
  { channelOf members with project := some "web".toList }

def projectTable : List (ChannelMeta × Text) :=
  metaTable ++ [["alice".toList], ["alice".toList, "bob".toList]].map fun members =>
    (inProject members, blockYaml (inProject members) ++ "project: web\n".toList)

def projectYaml : Text := unlines ["display_name: Web".toList, "created_by: alice".toList,
  "created_at: ".toList ++ newYear, "introduction: all pages".toList]

/-- The metadata of a flow without nodes. -/
def emptyFlowYaml (doc : FlowMeta) : Text := unlines ["schema_version: 1".toList,
  "slug: ".toList ++ doc.slug, "name: ".toList ++ doc.name,
  "description: ".toList ++ doc.description, "created_by: ".toList ++ doc.createdBy,
  "created_at: ".toList ++ doc.createdAt, "updated_at: ".toList ++ doc.updatedAt.getD [],
  "nodes: []".toList]

/-- The libraries on the documents of the samples. No sample reads a user or a flow. -/
def sampleLibraries : Libraries EventObject where
  event := objectJson
  channel := ⟨tableValue projectTable, tableText projectTable⟩
  user := ⟨fun _ => none, fun _ => []⟩
  flow := ⟨fun _ => .error "missing field".toList, emptyFlowYaml⟩
  project t := if t = projectYaml then some ⟨"Web".toList, "alice".toList, newYear,
    "all pages".toList⟩ else none
  quote c := ['\'', c, '\'']

theorem projectTable_back (m : ChannelMeta) :
    sampleLibraries.channel.fromStr (sampleLibraries.channel.toStr m) = some m :=
  tableValue_tableText (by decide +kernel) m

def sampleProtocol : Protocol FileMap Call Plan CallEnv :=
  protocol sampleLibraries sampleUsers (some "alice".toList)

def sampleTree : FileMap := generalChannel ++ [(projectPath "web".toList, projectYaml)]

def assignment : Call :=
  .setChannelProject "general".toList (some "web".toList) "alice".toList

def bobJoins : Call := .channelEvent .join "general".toList [] "bob".toList

/-- A project is assigned while a flow is created, and bob joins. -/
def overlapping : List (Action Call CallEnv) :=
  [.start assignment calmEnv,
    .start (.flowCreate "deploy".toList "Deploy".toList "all".toList "alice".toList) calmEnv,
    .proceed 0 calmEnv, .start bobJoins calmEnv, .proceed 1 calmEnv, .proceed 2 calmEnv]

theorem noneLost_overlapping :
    ∃ w, run (step sampleProtocol) (initial sampleTree) overlapping = some w ∧
      w.state.lookup (metaPath "general".toList) =
        some (sampleLibraries.channel.toStr (inProject ["alice".toList, "bob".toList])) ∧
      NoneLost sampleLibraries sampleUsers (some "alice".toList) sampleTree w := by
  have hevaluated : (run (step sampleProtocol) (initial sampleTree) overlapping).map
      (fun w => w.state.lookup (metaPath "general".toList)) =
        some (some (sampleLibraries.channel.toStr (inProject ["alice".toList, "bob".toList]))) ∧
      Along (step sampleProtocol) Unchanged (initial sampleTree) overlapping := by
    decide +kernel
  obtain ⟨hstate, hunchanged⟩ := hevaluated
  obtain ⟨w, hrun, hlookup⟩ := Option.map_eq_some_iff.mp hstate
  exact ⟨w, hrun, hlookup, noneLost_of_unchanged projectTable_back hrun hunchanged⟩

/-- Bob joins between the read of the assignment and its write. -/
def joinBetween : List (Action Call CallEnv) :=
  [.start assignment calmEnv, .start bobJoins calmEnv, .proceed 1 calmEnv, .proceed 0 calmEnv]

/-- The member list from before bob joined is written back: he is no member, and in neither order
the two calls have this effect. -/
theorem not_noneLost_joinBetween :
    ∃ w, run (step sampleProtocol) (initial sampleTree) joinBetween = some w ∧ w.waiting = [] ∧
      ¬ IsMember sampleLibraries w.state "general".toList "bob".toList ∧
      (¬ ∃ order, order.Perm w.order ∧ applyAll sampleProtocol sampleTree order = some w.state) ∧
      ¬ NoneLost sampleLibraries sampleUsers (some "alice".toList) sampleTree w := by
  have hevaluated : (run (step sampleProtocol) (initial sampleTree) joinBetween).map
      (fun w => (w.waiting.length, w.state.lookup (metaPath "general".toList), w.order)) =
        some (0, some (sampleLibraries.channel.toStr (inProject ["alice".toList])),
          [⟨1, bobJoins, calmEnv, calmEnv⟩, ⟨0, assignment, calmEnv, calmEnv⟩]) ∧
      ((applyAll sampleProtocol sampleTree
          [⟨1, bobJoins, calmEnv, calmEnv⟩, ⟨0, assignment, calmEnv, calmEnv⟩]).bind
        (List.lookup (metaPath "general".toList)) ≠
          some (sampleLibraries.channel.toStr (inProject ["alice".toList])) ∧
      (applyAll sampleProtocol sampleTree
          [⟨0, assignment, calmEnv, calmEnv⟩, ⟨1, bobJoins, calmEnv, calmEnv⟩]).bind
        (List.lookup (metaPath "general".toList)) ≠
          some (sampleLibraries.channel.toStr (inProject ["alice".toList]))) ∧
      "bob".toList ∉ (inProject ["alice".toList]).members := by
    decide +kernel
  obtain ⟨hresult, ⟨hjoinFirst, hassignFirst⟩, hnoMember⟩ := hevaluated
  obtain ⟨w, hrun, hfields⟩ := Option.map_eq_some_iff.mp hresult
  simp only [Prod.mk.injEq, List.length_eq_zero_iff] at hfields
  obtain ⟨hdone, hlookup, horder⟩ := hfields
  have hserial : ¬ ∃ order, order.Perm w.order ∧
      applyAll sampleProtocol sampleTree order = some w.state := by
    rintro ⟨order, hperm, hall⟩
    have hmeta := congrArg (Option.bind · (List.lookup (metaPath "general".toList))) hall
    simp only [Option.bind_some, hlookup] at hmeta
    rw [horder] at hperm
    rcases List.perm_pair.mp hperm with rfl | rfl
    · exact hjoinFirst hmeta
    · exact hassignFirst hmeta
  refine ⟨w, hrun, hdone, ?_, hserial, fun h => hserial h.serial⟩
  rw [isMember_iff hlookup (projectTable_back _)]
  exact hnoMember

end Samples

end DocumentUpdates
