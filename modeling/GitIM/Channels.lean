import GitIM.ConflictReplay
import GitIM.DmThreads

/-!
# Channels and their members

Creating a channel, joining and leaving it. A channel is a metadata file with the list
of its members and a thread with one event for every change of that list. A call checks
the rules, appends its event to the thread and then rewrites the metadata; each of the
two writes can fail.
-/

namespace Channels

open TextLines TextScan FileTree Checked ThreadFormat ThreadGrammar ThreadValidation
  ConflictReplay DmThreads

section Names

inductive ChannelNameError where
  | empty
  | tooLong
  | invalidChar (c : Char)
  | hyphenBoundary
  | consecutiveHyphens
  deriving DecidableEq

def ChannelNameError.text : ChannelNameError → Text
  | empty => "channel name is empty".toList
  | tooLong => "channel name exceeds 32 characters".toList
  | invalidChar c => "channel name contains invalid character: ".toList ++ [c]
  | hyphenBoundary => "channel name must not start or end with hyphen".toList
  | consecutiveHyphens => "channel name must not contain consecutive hyphens".toList

/-- The checks of `ChannelName::new`, in their order; `none` accepts. -/
def channelNameError (s : Text) : Option ChannelNameError :=
  if s = [] then some .empty
  else if utf8Len s > 32 then some .tooLong
  else match s.find? (fun c => !isHandlerChar c) with
    | some c => some (.invalidChar c)
    | none =>
      if s.head? = some '-' ∨ s.getLast? = some '-' then some .hyphenBoundary
      else if "--".toList <:+: s then some .consecutiveHyphens
      else none

def checkChannelName (name : Text) : Except Text Unit :=
  checkSome (channelNameError name) fun e => .error ("invalid channel name: ".toList ++ e.text)

def metaPath (channel : Text) : Path := "channels/".toList ++ (channel ++ ".meta.yaml".toList)

def threadPath (channel : Text) : Path := "channels/".toList ++ (channel ++ ".thread".toList)

def archivedMetaPath (channel : Text) : Path :=
  "archive/channels/".toList ++ (channel ++ ".meta.yaml".toList)

theorem metaPath_injective {a b : Text} (h : metaPath a = metaPath b) : a = b :=
  List.append_cancel_right (List.append_cancel_left h)

theorem threadPath_injective {a b : Text} (h : threadPath a = threadPath b) : a = b :=
  List.append_cancel_right (List.append_cancel_left h)

theorem metaPath_ne_threadPath (a b : Text) : metaPath a ≠ threadPath b := by
  intro h
  have hthread : isThreadPath (threadPath b) :=
    ⟨"channels/".toList ++ b, List.append_assoc _ _ _⟩
  have hmeta : isMetaPath (metaPath a) := ⟨"channels/".toList ++ a, List.append_assoc _ _ _⟩
  exact not_meta_of_thread hthread (h ▸ hmeta)

end Names

section Rules

inductive ImRuleError where
  | authorNotRegistered (author : Text)
  | targetNotRegistered (target : Text)
  | authorNotMember (author : Text)
  | alreadyMember (user : Text)
  | notMember (user : Text)
  | lastMember (user : Text)
  deriving DecidableEq

def ImRuleError.text : ImRuleError → Text
  | authorNotRegistered a => "author '".toList ++ (a ++ "' is not a registered user".toList)
  | targetNotRegistered t => "target '".toList ++ (t ++ "' is not a registered user".toList)
  | authorNotMember a => "author '".toList ++ (a ++ "' is not a channel member".toList)
  | alreadyMember u => "user '".toList ++ (u ++ "' is already a channel member".toList)
  | notMember u => "user '".toList ++ (u ++ "' is not a channel member".toList)
  | lastMember u =>
    "user '".toList ++ (u ++ "' is the last member; archive the channel instead".toList)

/-- The targets one after the other: each is registered, and a member or not as the rule says. -/
def checkTargets (registered : List Text) (bad : Text → Prop) [DecidablePred bad]
    (error : Text → ImRuleError) : List Text → Except ImRuleError Unit
  | [] => .ok ()
  | target :: rest => do
    refuse (target ∉ registered) (.targetNotRegistered target)
    refuse (bad target) (error target)
    checkTargets registered bad error rest

def validateJoin (author : Text) (targets registered members : List Text) :
    Except ImRuleError Unit := do
  refuse (author ∉ registered) (.authorNotRegistered author)
  if targets = [] then refuse (author ∈ members) (.alreadyMember author)
  else do
    refuse (author ∉ members) (.authorNotMember author)
    checkTargets registered (· ∈ members) .alreadyMember targets

/-- A member who leaves alone must not be the last one; nobody looks at what is left when members
remove others. -/
def validateLeave (author : Text) (targets registered members : List Text) :
    Except ImRuleError Unit := do
  refuse (author ∉ registered) (.authorNotRegistered author)
  if targets = [] then do
    refuse (author ∉ members) (.notMember author)
    refuse (members.eraseDups.length = 1) (.lastMember author)
  else do
    refuse (author ∉ members) (.authorNotMember author)
    checkTargets registered (· ∉ members) .notMember targets

def leaveRemovesChannelCreator (author : Text) (targets : List Text) (info : ChannelMeta) : Bool :=
  if info.createdBy = [] then false
  else if targets = [] then author = info.createdBy
  else info.createdBy ∈ targets

inductive EventKind where
  | join
  | leave
  deriving DecidableEq

def EventKind.name : EventKind → Text
  | join => "join".toList
  | leave => "leave".toList

def checkRules (kind : EventKind) (author : Text) (targets users : List Text)
    (info : ChannelMeta) : Except Text Unit :=
  match kind with
  | .join => (validateJoin author targets users info.members).mapError
      fun e => "join validation failed: ".toList ++ e.text
  | .leave => do
    (validateLeave author targets users info.members).mapError
      fun e => "leave validation failed: ".toList ++ e.text
    refuse (leaveRemovesChannelCreator author targets info = true)
      "channel creator must transfer ownership before leaving".toList

/-- The users an event is about. -/
def affected (author : Text) (targets : List Text) : List Text :=
  if targets = [] then [author] else targets

def addMissing (members more : List Text) : List Text :=
  more.foldl (fun members m => if m ∈ members then members else members ++ [m]) members

def updateMembers (kind : EventKind) (users members : List Text) : List Text :=
  match kind with
  | .join => (addMissing members users).insertionSort (· ≤ ·)
  | .leave => members.filter (· ∉ users)

end Rules

section Calls

/-- The JSON library on the objects of membership events. -/
structure EventJson (Json : Type) extends JsonCodec Json where
  isObject : Json → Bool
  /-- The object without fields. -/
  empty : Json
  /-- The object with a list of targets. -/
  targets : List Text → Json
  /-- The field `targets` of an object, as far as it has one. -/
  readTargets : Json → Option (List Text)

variable {Json : Type} (json : EventJson Json) (yaml : MetaCodec)

/-- How a write to a file ends. -/
inductive WriteResult where
  | notOpened
  | stopped (characters : Nat)
  | complete
  deriving DecidableEq

/-- What the clock, the serializer and the file system answer during one call. -/
structure CallEnv where
  now : Text
  stamp : TimestampShape now
  append : WriteResult
  serialized : Bool
  metaWrite : WriteResult

/-- An append to a file, and the error if not all of it arrived. -/
def appendFile (tree : FileMap) (path : Path) (text : Text) :
    WriteResult → FileMap × Except Text Unit
  | .notOpened => (tree, .error "open failed".toList)
  | .stopped n =>
    (writeFile tree path ((tree.lookup path).getD [] ++ text.take n), .error "write failed".toList)
  | .complete => (writeFile tree path ((tree.lookup path).getD [] ++ text), .ok ())

/-- A file is truncated before it is written; the flag says whether all of it arrived. -/
def replaceFile (tree : FileMap) (path : Path) (text : Text) : WriteResult → FileMap × Bool
  | .notOpened => (tree, false)
  | .stopped n => (writeFile tree path (text.take n), false)
  | .complete => (writeFile tree path text, true)

def eventMeta (targets : List Text) : Json :=
  if targets = [] then json.empty else json.targets targets

def readMeta (tree : FileMap) (channel : Text) : Except Text ChannelMeta :=
  match tree.lookup (metaPath channel) with
  | some content =>
    match yaml.fromStr content with
    | some info => .ok info
    | none => .error "failed to parse channel meta".toList
  | none =>
    if fileExists tree (archivedMetaPath channel) then
      .error ("channel '".toList ++ (channel ++ "' is archived".toList))
    else .error ("channel '".toList ++ (channel ++ "' does not exist".toList))

/-- A membership event that passed all checks: the line of the thread and the new metadata. -/
structure Prepared where
  line : Text
  info : ChannelMeta

/-- Who may write the event: the members, and whoever joins. -/
def allowedSenders (kind : EventKind) (author : Text) (targets : List Text) (info : ChannelMeta) :
    List Text :=
  if kind = .join ∧ targets = [] ∧ author ∉ info.members then info.members ++ [author]
  else info.members

/-- Everything `write_channel_event` does before its first write. The rules are checked before
the lock and once more under it, on the metadata as it is then. -/
def prepareEvent (users : List Text) (tree : FileMap) (kind : EventKind) (channel : Text)
    (targets : List Text) (author now : Text) : Except Text Prepared := do
  checkChannelName channel
  let handler ← checkHandler author "invalid author".toList
  ensureAuthorNotDeparted tree author
  ensureRegistered users author
  let _ ← targets.mapM fun t => checkHandler t "invalid target".toList
  let info ← readMeta yaml tree channel
  checkRules kind author targets users info
  let file ← (parseThread json.toJsonCodec ((tree.lookup (threadPath channel)).getD [])).mapError
    fun _ => "failed to parse thread".toList
  let latest ← readMeta yaml tree channel
  checkRules kind author targets users latest
  let line := formatEvent json.toJsonCodec (nextLine (lastLineNumber file.entries)) handler now
    kind.name (eventMeta json targets)
  (validateAppend json.toJsonCodec json.isObject users
    (allowedSenders kind author targets latest)
    ((tree.lookup (threadPath channel)).getD []) line).mapError
      fun _ => "compliance check failed".toList
  let members := updateMembers kind (affected author targets) latest.members
  .ok ⟨line, { latest with members := members }⟩

/-- `write_channel_event`: the response and the files it leaves behind. The commit is left out: if
it fails, the response only says so. -/
def writeChannelEvent (users : List Text) (tree : FileMap) (kind : EventKind) (channel : Text)
    (targets : List Text) (author : Text) (env : CallEnv) : Except Text Unit × FileMap :=
  match prepareEvent json yaml users tree kind channel targets author env.now with
  | .error e => (.error e, tree)
  | .ok prepared =>
    match appendFile tree (threadPath channel) prepared.line env.append with
    | (after, .error e) => (.error e, after)
    | (after, .ok ()) =>
      if env.serialized then
        match replaceFile after (metaPath channel) (yaml.toStr prepared.info) env.metaWrite with
        | (final, false) => (.error "failed to write channel meta".toList, final)
        | (final, true) => (.ok (), final)
      else (.error "failed to serialize channel meta".toList, after)

/-- `handle_create_channel`, as far as it ends in success; a write or a commit that fails ends in
an error and creates no channel. -/
def createChannel (users : List Text) (tree : FileMap) (name : Text)
    (displayName introduction : Option Text) (author : Text) (invitees : List Text)
    (env : CallEnv) : Except Text FileMap := do
  let handler ← checkHandler author "invalid author".toList
  ensureAuthorNotDeparted tree author
  ensureRegistered users author
  let _ ← invitees.mapM fun invitee => do
    refuse (handlerError invitee ≠ none) ("invalid invitee handle: ".toList ++ invitee)
    refuse (invitee ∉ users) ("invitee '".toList ++ (invitee ++ "' is not registered".toList))
  checkChannelName name
  refuse (fileExists tree (metaPath name) = true)
    ("channel '".toList ++ (name ++ "' already exists".toList))
  refuse (fileExists tree (archivedMetaPath name) = true)
    ("channel '".toList ++ (name ++ "' exists in archive".toList))
  refuse (env.serialized = false) "failed to serialize channel meta".toList
  refuse (env.metaWrite ≠ .complete) "failed to write channel meta".toList
  refuse (env.append ≠ .complete) "failed to write channel thread".toList
  let members := addMissing [author] invitees
  let info : ChannelMeta := ⟨displayName.getD name, author, env.now, introduction.getD [], members,
    none⟩
  .ok (writeFile (writeFile tree (metaPath name) (yaml.toStr info)) (threadPath name)
    (formatEvent json.toJsonCodec 1 handler env.now EventKind.join.name
      (eventMeta json (members.drop 1))))

end Calls

section Specification
variable {Json : Type} {json : EventJson Json} {yaml : MetaCodec}

theorem mem_addMissing (u : Text) (members more : List Text) :
    u ∈ addMissing members more ↔ u ∈ members ∨ u ∈ more :=
  mem_foldl_insert u more members

theorem nodup_addMissing {members : List Text} (more : List Text) (h : members.Nodup) :
    (addMissing members more).Nodup := by
  induction more generalizing members with
  | nil => exact h
  | cons k more ih =>
    rw [addMissing, List.foldl_cons]
    split
    · exact ih h
    · rename_i hk
      exact ih (List.nodup_append.mpr ⟨h, List.nodup_singleton k, by
        rintro a ha b hb rfl
        exact hk (List.mem_singleton.mp hb ▸ ha)⟩)

theorem addMissing_eq_append (members more : List Text) :
    ∃ extra, addMissing members more = members ++ extra := by
  induction more generalizing members with
  | nil => exact ⟨[], (List.append_nil members).symm⟩
  | cons k more ih =>
    rw [addMissing, List.foldl_cons]
    split
    · exact ih members
    · obtain ⟨extra, hextra⟩ := ih (members ++ [k])
      exact ⟨k :: extra, by rw [addMissing] at hextra; rw [hextra, List.append_assoc]; rfl⟩

theorem mem_updateMembers {kind : EventKind} {users members : List Text} {u : Text} :
    u ∈ updateMembers kind users members ↔ match kind with
      | .join => u ∈ members ∨ u ∈ users
      | .leave => u ∈ members ∧ u ∉ users := by
  cases kind with
  | join => rw [updateMembers, List.mem_insertionSort, mem_addMissing]
  | leave => simp [updateMembers]

theorem nodup_updateMembers {kind : EventKind} {users members : List Text} (h : members.Nodup) :
    (updateMembers kind users members).Nodup := by
  cases kind with
  | join => exact (List.perm_insertionSort _ _).nodup_iff.mpr (nodup_addMissing users h)
  | leave => exact h.filter _

/-- Members who leave by themselves leave somebody behind. -/
theorem exists_other_of_leave {author : Text} {users : List Text} {info : ChannelMeta}
    (h : checkRules .leave author [] users info = .ok ()) : ∃ m ∈ info.members, m ≠ author := by
  by_contra hnone
  have hall : ∀ m ∈ info.members, m = author := by
    intro m hm
    by_contra hne
    exact hnone ⟨m, hm, hne⟩
  obtain ⟨hrules, -⟩ := then_eq_ok_iff.mp h
  simp only [mapError_eq_ok_iff, validateLeave, then_eq_ok_iff, if_true, refuse_eq_ok_iff,
    not_not] at hrules
  obtain ⟨-, hmember, hlast⟩ := hrules
  refine hlast ?_
  cases hmembers : info.members with
  | nil => simp [hmembers] at hmember
  | cons first rest =>
    rw [hmembers] at hall
    have hfilter : rest.filter (fun b => !b == first) = [] := by
      rw [List.filter_eq_nil_iff]
      intro b hb
      rw [hall first List.mem_cons_self, hall b (List.mem_cons_of_mem first hb)]
      simp
    rw [List.eraseDups_cons, hfilter]
    rfl

theorem checkHandler_name {name label : Text} {h : Handler}
    (hcheck : checkHandler name label = .ok h) : h.name = name := by
  rw [checkHandler, mapError_eq_ok_iff, Handler.new] at hcheck
  split at hcheck
  · cases hcheck
  · cases hcheck
    rfl

theorem readMeta_ok_iff {tree : FileMap} {channel : Text} {info : ChannelMeta} :
    readMeta yaml tree channel = .ok info ↔
      ∃ content, tree.lookup (metaPath channel) = some content ∧
        yaml.fromStr content = some info := by
  rw [readMeta]
  cases hlookup : tree.lookup (metaPath channel) with
  | none =>
    simp only [reduceCtorEq, false_and, exists_false, iff_false]
    split <;> simp
  | some content =>
    cases hparse : yaml.fromStr content with
    | none => simp [hparse]
    | some m => simp [hparse]

/-- What a prepared event is made of. -/
theorem prepareEvent_ok {users : List Text} {tree : FileMap} {kind : EventKind} {channel : Text}
    {targets : List Text} {author now : Text} {prepared : Prepared}
    (h : prepareEvent json yaml users tree kind channel targets author now = .ok prepared) :
    ∃ (handler : Handler) (info : ChannelMeta) (file : ThreadFile Json),
      handler.name = author ∧ readMeta yaml tree channel = .ok info ∧
      checkRules kind author targets users info = .ok () ∧
      parseThread json.toJsonCodec ((tree.lookup (threadPath channel)).getD []) = .ok file ∧
      prepared = ⟨formatEvent json.toJsonCodec (nextLine (lastLineNumber file.entries)) handler now
          kind.name (eventMeta json targets),
        { info with members := updateMembers kind (affected author targets) info.members }⟩ := by
  simp only [prepareEvent, bind_eq_ok_iff, mapError_eq_ok_iff] at h
  obtain ⟨-, -, handler, hhandler, -, -, -, -, -, -, info, hinfo, -, -, file, hfile, latest, hlatest,
    _, hrules, -, -, hprepared⟩ := h
  exact ⟨handler, latest, file, checkHandler_name hhandler, hlatest, hrules, hfile,
    (Except.ok.inj hprepared).symm⟩

/-- What a created channel starts with: its creator and the invitees in the metadata, and one event
in the thread. -/
theorem createChannel_ok {users : List Text} {tree created : FileMap} {name : Text}
    {displayName introduction : Option Text} {author : Text} {invitees : List Text} {env : CallEnv}
    (h : createChannel json yaml users tree name displayName introduction author invitees env =
      .ok created) :
    ∃ (handler : Handler) (info : ChannelMeta) (extra : List Text),
      handler.name = author ∧ info.members = author :: extra ∧
      info.members = addMissing [author] invitees ∧
      created = writeFile (writeFile tree (metaPath name) (yaml.toStr info)) (threadPath name)
        (formatEvent json.toJsonCodec 1 handler env.now EventKind.join.name
          (eventMeta json extra)) := by
  simp only [createChannel, bind_eq_ok_iff] at h
  obtain ⟨handler, hhandler, -, -, -, -, -, -, -, -, -, -, -, -, -, -, -, -, -, -, hcreated⟩ := h
  obtain ⟨extra, hextra⟩ := addMissing_eq_append [author] invitees
  refine ⟨handler, ⟨displayName.getD name, author, env.now, introduction.getD [],
    addMissing [author] invitees, none⟩, extra, checkHandler_name hhandler, hextra, rfl, ?_⟩
  rw [← Except.ok.inj hcreated, hextra]
  rfl

/-- The files after both writes of an event. -/
def recorded (yaml : MetaCodec) (tree : FileMap) (channel : Text) (prepared : Prepared) : FileMap :=
  writeFile (writeFile tree (threadPath channel)
    ((tree.lookup (threadPath channel)).getD [] ++ prepared.line))
    (metaPath channel) (yaml.toStr prepared.info)

variable {users : List Text} {tree : FileMap} {kind : EventKind} {channel : Text}
  {targets : List Text} {author : Text} {env : CallEnv}

/-- A call that is answered with success has written both files. -/
theorem writeChannelEvent_ok
    (h : (writeChannelEvent json yaml users tree kind channel targets author env).1 = .ok ()) :
    ∃ prepared,
      prepareEvent json yaml users tree kind channel targets author env.now = .ok prepared ∧
      (writeChannelEvent json yaml users tree kind channel targets author env).2 =
        recorded yaml tree channel prepared := by
  rw [writeChannelEvent] at h ⊢
  cases hprepare : prepareEvent json yaml users tree kind channel targets author env.now with
  | error e =>
    rw [hprepare] at h
    cases h
  | ok prepared =>
    refine ⟨prepared, rfl, ?_⟩
    rw [hprepare] at h
    cases happend : env.append <;> rw [happend] at h
    case complete =>
      cases hserialized : env.serialized <;> cases hwrite : env.metaWrite <;>
        simp [hserialized, hwrite, appendFile, replaceFile] at h
      simp [appendFile, replaceFile, recorded]
    all_goals cases h

/-- What a successful call does to the metadata of its channel. -/
theorem writeChannelEvent_meta (hyaml : ∀ m, yaml.fromStr (yaml.toStr m) = some m)
    (h : (writeChannelEvent json yaml users tree kind channel targets author env).1 = .ok ()) :
    ∃ info, readMeta yaml tree channel = .ok info ∧
      checkRules kind author targets users info = .ok () ∧
      readMeta yaml (writeChannelEvent json yaml users tree kind channel targets author env).2
        channel =
          .ok { info with members := updateMembers kind (affected author targets) info.members } := by
  obtain ⟨prepared, hprepared, hfiles⟩ := writeChannelEvent_ok h
  obtain ⟨handler, info, file, -, hinfo, hrules, -, rfl⟩ := prepareEvent_ok hprepared
  refine ⟨info, hinfo, hrules, readMeta_ok_iff.mpr ?_⟩
  rw [hfiles, recorded]
  exact ⟨_, by rw [lookup_writeFile, if_pos rfl], hyaml _⟩

/-- A call leaves every file but the two of its channel alone. -/
theorem writeChannelEvent_frame {path : Path} (hthread : path ≠ threadPath channel)
    (hmeta : path ≠ metaPath channel) :
    (writeChannelEvent json yaml users tree kind channel targets author env).2.lookup path =
      tree.lookup path := by
  rw [writeChannelEvent]
  cases prepareEvent json yaml users tree kind channel targets author env.now with
  | error e => rfl
  | ok prepared =>
    cases env.append with
    | notOpened => rfl
    | stopped n => simp [appendFile, hthread]
    | complete =>
      cases env.serialized with
      | false => simp [appendFile, hthread]
      | true => cases env.metaWrite <;> simp [appendFile, replaceFile, hthread, hmeta]

end Specification

end Channels
