import GitIM.Channels
import GitIM.QuickSession

/-!
# Polling

What a daemon reports to its user: the changes between two commits, one file of the
diff after the other. The diff comes from git; who may see a change is decided by the
files of the working tree.
-/

namespace Poll

open TextLines TextScan FileTree Checked ThreadFormat ThreadValidation ConflictReplay DmThreads
  Channels QuickSession

section Recipients
variable {Json : Type}

/-- The fields of a card that a poll reads. -/
structure CardMeta where
  title : Text
  assignee : Option Text
  createdBy : Text
  deriving DecidableEq

/-- The elements of an ordered set of texts. -/
def sortedSet (texts : List Text) : List Text := texts.eraseDups.insertionSort fun a b => a ≤ b

def dropLine (messages : List Message) (line : Nat) : List Message :=
  messages.filter (·.lineNumber ≠ line)

theorem length_dropLine_lt {messages : List Message} {line : Nat} {m : Message}
    (h : messages.find? (·.lineNumber = line) = some m) :
    (dropLine messages line).length < messages.length := by
  have hline : m.lineNumber = line := by simpa using List.find?_some h
  exact List.length_filter_lt_length_iff_exists.mpr
    ⟨m, List.mem_of_find?_eq_some h, by simp [hline]⟩

/-- The authors and mentions up the parent chain. A message that was visited is dropped from the
list, so that a cycle ends like a missing parent. -/
def chainParticipants (messages : List Message) (cursor : Nat) : List Text :=
  if cursor = 0 then []
  else match _h : messages.find? (·.lineNumber = cursor) with
    | none => []
    | some ancestor =>
      ancestor.author.name :: extractMentions ancestor.body ++
        chainParticipants (dropLine messages cursor) ancestor.pointTo
termination_by messages.length
decreasing_by exact length_dropLine_lt _h

def computeRecipients (message : Message) (info : ChannelMeta) (messages : List Message) :
    List Text :=
  sortedSet ((if info.createdBy = [] then [] else [info.createdBy]) ++
    chainParticipants messages message.pointTo ++ extractMentions message.body)

def computeCardThreadRecipients (message : Message) (card : CardMeta) : List Text :=
  sortedSet ((if card.createdBy = [] then [] else [card.createdBy]) ++
    (card.assignee.filter (· ≠ [])).toList ++ extractMentions message.body)

end Recipients

section Changes

inductive PollKind where
  | board
  | quickSessionMeta
  | quickSessionThread
  | cardMeta
  | cardThread
  | channel
  | channelMeta
  | dm
  | dmArchived
  | cronThread
  | userArchived
  deriving DecidableEq

inductive PollEntry (Json : Type) where
  | entry (e : ThreadEntry Json) (recipients : Option (List Text))
  | cardEvent (eventType body : Text) (mentions : List Text) (assignee : Option Text)
  | sessionEvent (id agentId : Text) (status : QuickSessionStatus) (revision : Nat)
      (recipients : Option (List Text))
  deriving DecidableEq

structure PollChange (Json : Type) where
  channel : Text
  kind : PollKind
  entries : List (PollEntry Json)
  deriving DecidableEq

/-- The libraries that read the files a poll looks at. -/
structure Readers (Json : Type) where
  json : JsonCodec Json
  channel : MetaCodec
  card : Text → Option CardMeta
  quickSession : Text → Option QuickSessionMeta
  /-- The target of a cron specification; the empty text if it names none. -/
  cronTarget : Text → Option Text

/-- The session a daemon polls for. -/
structure Viewer where
  user : Option Text
  isAdmin : Bool
  isGuest : Bool
  deriving DecidableEq

def Viewer.skipFilter (viewer : Viewer) : Bool := viewer.isAdmin || viewer.isGuest

inductive PollFault where
  | response (message code : Text)
  | panicParseU64 (digits : Text)
  deriving DecidableEq

end Changes

section Paths

def boardHandlerFromPath (path : Path) : Option Text := do
  let rest ← stripPrefix "showboards/".toList path
  let (handler, file) ← splitOnce '/' rest
  if file = "board.md".toList ∧ handlerError handler = none then some handler else none

/-- The flag says whether the session is archived. -/
def quickSessionPath (path : Path) : Option (Bool × Text × Text) := do
  let (archived, rest) ← match stripPrefix "quick-sessions/".toList path with
    | some rest => some (false, rest)
    | none => (stripPrefix "archive/quick-sessions/".toList path).map (true, ·)
  let (sessionId, file) ← splitOnce '/' rest
  if '/' ∈ file ∨ validateQuickSessionId sessionId ≠ .ok () then none
  else if file = "session.meta.yaml".toList ∨ file = "discussion.thread".toList then
    some (archived, sessionId, file)
  else none

/-- A file of a card: its channel, the card and the name of the file. -/
def cardPath (path : Path) : Option (Text × Text × Text) := do
  let rest ← stripPrefix "channels/".toList path
  let (channel, tail) ← splitOnce '/' rest
  let cardRest ← stripPrefix "cards/".toList tail
  let (cardId, file) ← splitOnce '/' cardRest
  some (channel, cardId, file)

/-- The channel whose members may see a file. -/
def extractChannel (path : Path) : Option Text := do
  let rest ← stripPrefix "channels/".toList path
  match (stripSuffix ".thread".toList rest).or (stripSuffix ".meta.yaml".toList rest) with
  | some stem => if '/' ∈ stem then cardChannel rest else some stem
  | none => cardChannel rest
where
  cardChannel (rest : Text) : Option Text := do
    let (channel, tail) ← splitOnce '/' rest
    if "cards/".toList <+: tail then some channel else none

def replaceDoubleHyphens : Text → Text
  | [] => []
  | [c] => [c]
  | c :: d :: rest =>
    if c = '-' ∧ d = '-' then ',' :: replaceDoubleHyphens rest
    else c :: replaceDoubleHyphens (d :: rest)

def cardMetaPath (channel cardId : Text) : Path :=
  "channels/".toList ++ (channel ++ ("/cards/".toList ++ (cardId ++ "/card.meta.yaml".toList)))

end Paths

section Files
variable {Json : Type} (readers : Readers Json) (tree : FileMap)

/-- Whether a viewer is a member of a channel; a channel without members, or without readable
metadata, is open to everyone. -/
def isMember (viewer : Viewer) (channel : Text) : Bool :=
  match (tree.lookup (metaPath channel)).bind readers.channel.fromStr with
  | some info => if info.members = [] then true else viewer.user.any (· ∈ info.members)
  | none => true

/-- The cache of memberships, for the channels of the diff. -/
def channelMembership (viewer : Viewer) (diff : FileMap) : List (Text × Bool) :=
  if viewer.skipFilter then []
  else restrict ((diff.map Prod.fst).filterMap extractChannel) fun channel =>
    some (isMember readers tree viewer channel)

/-- Whether a change of a channel is shown. -/
def shown (viewer : Viewer) (diff : FileMap) (channel : Text) : Bool :=
  viewer.skipFilter || ((channelMembership readers tree viewer diff).lookup channel).getD true

/-- The entries of added lines. A parse error is only logged; a panic ends the poll. -/
def readAdded (added : Text) : Except Text (List (ThreadEntry Json)) :=
  match parseThread readers.json added with
  | .ok file => .ok file.entries
  | .error (.error _) => .ok []
  | .error (.panicParseU64 digits) => .error digits

/-- The change of a thread; lines without entries are no change. What the entries are enriched
with is read behind this check. -/
def threadChange (added channel : Text) (kind : PollKind)
    (enrich : Except Text (ThreadEntry Json → PollEntry Json)) :
    Except Text (Option (PollChange Json)) := do
  let entries ← readAdded readers added
  if entries = [] then .ok none
  else do
    let enrich ← enrich
    .ok (some ⟨channel, kind, entries.map enrich⟩)

def cardMeta (path : Path) : Option CardMeta := (tree.lookup path).bind readers.card

/-- Whether an added line sets a field of a block mapping. -/
def addsField (field added : Text) : Bool :=
  (lines added).any fun line => field.isPrefixOf (line.dropWhile isWhiteSpace)

def cardMetaEntriesForPoll (path : Path) (added : Text) : List (PollEntry Json) :=
  match cardMeta readers tree path with
  | none => []
  | some info =>
    let mentions := if addsField "title:".toList added then extractMentions info.title else []
    match if addsField "assignee:".toList added then info.assignee else none with
    | some assignee =>
      [.cardEvent "card_assignment".toList
        ("card assigned to ".toList ++ (assignee ++ (": ".toList ++ info.title))) mentions assignee]
    | none =>
      if mentions = [] then []
      else [.cardEvent "card_mention".toList ("card created: ".toList ++ info.title) mentions none]

/-- The recipients of a message, unless there are none. -/
def someRecipients (recipients : List Text) : Option (List Text) :=
  if recipients = [] then none else some recipients

/-- Events have no recipients. -/
def withRecipients (recipients : Message → Option (List Text)) (e : ThreadEntry Json) :
    PollEntry Json :=
  match e with
  | .message m => .entry e (recipients m)
  | .event _ => .entry e none

/-- The recipients of channel messages, from the metadata and the whole thread. -/
def channelRecipients (channel : Text) : Except Text (Message → Option (List Text)) := do
  let entries ← readAdded readers ((tree.lookup (threadPath channel)).getD [])
  let messages := entries.filterMap fun
    | .message m => some m
    | .event _ => none
  .ok fun m => ((tree.lookup (metaPath channel)).bind readers.channel.fromStr).bind fun info =>
    someRecipients (computeRecipients m info messages)

def dmMembers (path : Path) : Option (Text × Text) := do
  let rest ← stripPrefix "dm/".toList path
  let stem ← stripSuffix ".thread".toList rest
  parseDmFilename stem

def isParticipant (viewer : Viewer) (pair : Text × Text) : Bool :=
  viewer.user.any fun me => me = pair.1 ∨ me = pair.2

def sessionMeta (archived : Bool) (sessionId : Text) : Option QuickSessionMeta :=
  ((tree.lookup ((if archived then "archive/quick-sessions/" else "quick-sessions/").toList ++
    (sessionId ++ "/session.meta.yaml".toList))).bind readers.quickSession).filter
      fun info => validateQuickSessionMeta info = .ok ()

end Files

section Branches
variable {Json : Type} (readers : Readers Json) (tree : FileMap) (viewer : Viewer)
  (visible : Text → Bool)

def quickSessionChange (archived : Bool) (sessionId file added : Text) :
    Except Text (Option (PollChange Json)) :=
  let info := sessionMeta readers tree archived sessionId
  let recipients := if archived then none else
    (info.filter (·.status ≠ .archived)).map fun info => [info.agentId]
  if file = "session.meta.yaml".toList then
    .ok (info.map fun info => ⟨sessionId, .quickSessionMeta,
      [.sessionEvent info.id info.agentId info.status info.revision recipients]⟩)
  else threadChange readers added sessionId .quickSessionThread
    (.ok (withRecipients fun _ => recipients))

def cardChange (path : Path) (channel cardId file added : Text) :
    Except Text (Option (PollChange Json)) :=
  let key := "card:".toList ++ (channel ++ '/' :: cardId)
  if visible channel = false then .ok none
  else if file = "card.meta.yaml".toList then
    .ok (some ⟨key, .cardMeta, cardMetaEntriesForPoll readers tree path added⟩)
  else if file = "discussion.thread".toList then
    threadChange readers added key .cardThread (.ok (withRecipients fun m =>
      (cardMeta readers tree (cardMetaPath channel cardId)).bind fun info =>
        someRecipients (computeCardThreadRecipients m info)))
  else .ok none

/-- A file right below `channels/`. -/
def channelChange (name added : Text) : Except Text (Option (PollChange Json)) :=
  if '/' ∈ name then .ok none
  else match stripSuffix ".thread".toList name with
    | some channel =>
      if visible channel = false then .ok none
      else threadChange readers added channel .channel
        ((channelRecipients readers tree channel).map withRecipients)
    | none =>
      .ok ((stripSuffix ".meta.yaml".toList name).bind fun channel =>
        if visible channel = false then none else some ⟨channel, .channelMeta, []⟩)

/-- A file below `dm/`. A name that is no pair is not hidden from anyone. -/
def dmChange (path : Path) (name added : Text) : Except Text (Option (PollChange Json)) :=
  let key := "dm:".toList ++
    replaceDoubleHyphens ((stripSuffix ".thread".toList name).getD name)
  let hidden := !viewer.skipFilter && (dmMembers path).any fun pair => !isParticipant viewer pair
  if hidden then .ok none
  else threadChange readers added key .dm (.ok (withRecipients fun _ =>
    (dmMembers path).map fun pair => [pair.1, pair.2].insertionSort fun a b => a ≤ b))

def archivedChannelChange (name : Text) : Option (PollChange Json) :=
  if '/' ∈ name then none
  else ((stripSuffix ".thread".toList name).or (stripSuffix ".meta.yaml".toList name)).map
    fun channel => ⟨channel, .channelMeta, []⟩

def archivedDmChange (name : Text) : Option (PollChange Json) := do
  if '/' ∈ name then none
  else do
    let stem ← stripSuffix ".thread".toList name
    let pair ← parseDmFilename stem
    if viewer.skipFilter || isParticipant viewer pair then
      some ⟨"dm:".toList ++ (pair.1 ++ ',' :: pair.2), .dmArchived, []⟩
    else none

/-- The firing of a cron is for its target alone, whoever else may see everything. -/
def cronChange (path : Path) (added : Text) : Except Text (Option (PollChange Json)) :=
  match (stripPrefix "crons/".toList path).bind (splitOnce '/') with
  | none => .ok none
  | some (cronName, _) =>
    match (tree.lookup ("crons/".toList ++ (cronName ++ "/spec.yaml".toList))).bind
        readers.cronTarget with
    | none => .ok none
    | some target =>
      if target = [] ∨ viewer.user ≠ some target then .ok none
      else threadChange readers added ("cron:".toList ++ cronName) .cronThread
        (.ok (withRecipients fun _ => none))

def archivedUserChange (name : Text) : Option (PollChange Json) :=
  if '/' ∈ name then none
  else (stripSuffix ".meta.yaml".toList name).map fun handler => ⟨handler, .userArchived, []⟩

/-- The change a file of the diff stands for. -/
def pathChange (path : Path) (added : Text) : Except Text (Option (PollChange Json)) :=
  if (boardHandlerFromPath path).isSome then .ok none
  else match quickSessionPath path with
  | some (archived, sessionId, file) =>
    quickSessionChange readers tree archived sessionId file added
  | none => match cardPath path with
  | some (channel, cardId, file) =>
    cardChange readers tree visible path channel cardId file added
  | none => match stripPrefix "channels/".toList path with
  | some name => channelChange readers tree visible name added
  | none => match stripPrefix "dm/".toList path with
  | some name => dmChange readers viewer path name added
  | none => match stripPrefix "archive/channels/".toList path with
  | some name => .ok (archivedChannelChange name)
  | none => match stripPrefix "archive/dm/".toList path with
  | some name => .ok (archivedDmChange viewer name)
  | none =>
    if "crons/".toList <+: path ∧ ".thread".toList <:+ path then
      cronChange readers tree viewer path added
    else .ok ((stripPrefix "archive/users/".toList path).bind archivedUserChange)

def boardChanges (changedFiles : List Path) : List (PollChange Json) :=
  (changedFiles.filterMap boardHandlerFromPath).eraseDups.map fun handler => ⟨handler, .board, []⟩

/-- `handle_poll` behind the two calls of `git diff`. -/
def handlePoll (diff : FileMap) (changedFiles : List Path) :
    Except PollFault (List (PollChange Json)) := do
  refuse (viewer.user.any (fun me => fileExists tree (departedPath me)) = true)
    (.response "agent self-departed via burn-self".toList "self_departed".toList)
  let changes ← diff.mapM fun file =>
    (pathChange readers tree viewer (shown readers tree viewer diff) file.1 file.2).mapError
      .panicParseU64
  .ok (boardChanges changedFiles ++ changes.filterMap id)

end Branches

section Visibility
variable {Json : Type} {readers : Readers Json} {tree : FileMap} {viewer : Viewer}
  {visible : Text → Bool}

theorem threadChange_some {added channel : Text} {kind : PollKind}
    {enrich : Except Text (ThreadEntry Json → PollEntry Json)} {c : PollChange Json}
    (h : threadChange readers added channel kind enrich = .ok (some c)) :
    c.channel = channel ∧ c.kind = kind := by
  obtain ⟨entries, -, h⟩ := bind_eq_ok_iff.mp h
  split at h
  · cases h
  · obtain ⟨f, -, h⟩ := bind_eq_ok_iff.mp h
    cases h
    exact ⟨rfl, rfl⟩

/-- The kind of a change that a thread gives. -/
theorem threadChange_kind {added channel : Text} {kind : PollKind}
    {enrich : Except Text (ThreadEntry Json → PollEntry Json)} {c : PollChange Json}
    (h : threadChange readers added channel kind enrich = .ok (some c)) (hkind : kind ≠ .channel) :
    c.kind ≠ .channel := by
  rw [(threadChange_some h).2]
  exact hkind

theorem quickSessionChange_kind {archived : Bool} {sessionId file added : Text}
    {c : PollChange Json}
    (h : quickSessionChange readers tree archived sessionId file added = .ok (some c)) :
    c.kind ≠ .channel := by
  simp only [quickSessionChange] at h
  split at h
  · obtain ⟨info, -, rfl⟩ := Option.map_eq_some_iff.mp (Except.ok.inj h)
    simp
  · exact threadChange_kind h (by simp)

theorem cardChange_kind {path : Path} {channel cardId file added : Text} {c : PollChange Json}
    (h : cardChange readers tree visible path channel cardId file added = .ok (some c)) :
    c.kind ≠ .channel := by
  simp only [cardChange] at h
  split at h
  · cases h
  · split at h
    · cases h
      simp
    · split at h
      · exact threadChange_kind h (by simp)
      · cases h

theorem dmChange_kind {path : Path} {name added : Text} {c : PollChange Json}
    (h : dmChange readers viewer path name added = .ok (some c)) : c.kind ≠ .channel := by
  simp only [dmChange] at h
  split at h
  · cases h
  · exact threadChange_kind h (by simp)

theorem archivedChannelChange_kind {name : Text} {c : PollChange Json}
    (h : archivedChannelChange name = some c) : c.kind ≠ .channel := by
  rw [archivedChannelChange] at h
  split at h
  · cases h
  · obtain ⟨channel, -, rfl⟩ := Option.map_eq_some_iff.mp h
    simp

theorem archivedDmChange_kind {name : Text} {c : PollChange Json}
    (h : archivedDmChange viewer name = some c) : c.kind ≠ .channel := by
  rw [archivedDmChange] at h
  split at h
  · cases h
  · obtain ⟨stem, -, h⟩ := Option.bind_eq_some_iff.mp h
    obtain ⟨pair, -, h⟩ := Option.bind_eq_some_iff.mp h
    split at h
    · cases h
      simp
    · cases h

theorem cronChange_kind {path : Path} {added : Text} {c : PollChange Json}
    (h : cronChange readers tree viewer path added = .ok (some c)) : c.kind ≠ .channel := by
  rw [cronChange] at h
  split at h
  · cases h
  · split at h
    · cases h
    · split at h
      · cases h
      · exact threadChange_kind h (by simp)

theorem archivedUserChange_kind {name : Text} {c : PollChange Json}
    (h : archivedUserChange name = some c) : c.kind ≠ .channel := by
  rw [archivedUserChange] at h
  split at h
  · cases h
  · obtain ⟨handler, -, rfl⟩ := Option.map_eq_some_iff.mp h
    simp

/-- Only a visible thread below `channels/` gives a change of the kind `channel`. -/
theorem channelChange_channel {name added : Text} {c : PollChange Json}
    (h : channelChange readers tree visible name added = .ok (some c)) (hkind : c.kind = .channel) :
    name = c.channel ++ ".thread".toList ∧ '/' ∉ name ∧ visible c.channel = true := by
  rw [channelChange] at h
  split at h
  · cases h
  · rename_i hslash
    split at h
    · rename_i channel hchannel
      split at h
      · cases h
      · rename_i hvisible
        rw [(threadChange_some h).1]
        exact ⟨stripSuffix_eq_some_iff.mp hchannel, hslash, by simpa using hvisible⟩
    · obtain ⟨channel, -, h⟩ := Option.bind_eq_some_iff.mp (Except.ok.inj h)
      split at h
      · cases h
      · cases h
        cases hkind

theorem pathChange_channel {path : Path} {added : Text} {c : PollChange Json}
    (h : pathChange readers tree viewer visible path added = .ok (some c))
    (hkind : c.kind = .channel) :
    path = threadPath c.channel ∧ '/' ∉ c.channel ∧ visible c.channel = true := by
  rw [pathChange] at h
  split at h
  · cases h
  split at h
  · exact absurd hkind (quickSessionChange_kind h)
  split at h
  · exact absurd hkind (cardChange_kind h)
  split at h
  · rename_i name hname
    obtain ⟨hpath, hslash, hvisible⟩ := channelChange_channel h hkind
    rw [stripPrefix_eq_some_iff.mp hname, hpath]
    rw [hpath, List.mem_append, not_or] at hslash
    exact ⟨rfl, hslash.1, hvisible⟩
  split at h
  · exact absurd hkind (dmChange_kind h)
  split at h
  · exact absurd hkind (archivedChannelChange_kind (Except.ok.inj h))
  split at h
  · exact absurd hkind (archivedDmChange_kind (Except.ok.inj h))
  split at h
  · exact absurd hkind (cronChange_kind h)
  · obtain ⟨name, -, h⟩ := Option.bind_eq_some_iff.mp (Except.ok.inj h)
    exact absurd hkind (archivedUserChange_kind h)

theorem extractChannel_threadPath {channel : Text} (h : '/' ∉ channel) :
    extractChannel (threadPath channel) = some channel := by
  have hrest : stripPrefix "channels/".toList (threadPath channel) =
      some (channel ++ ".thread".toList) := stripPrefix_eq_some_iff.mpr rfl
  have hstem : stripSuffix ".thread".toList (channel ++ ".thread".toList) = some channel :=
    stripSuffix_eq_some_iff.mpr rfl
  simp only [extractChannel, hrest, hstem, Option.bind_eq_bind, Option.bind_some, Option.some_or,
    if_neg h]

/-- A viewer that is no member of a channel is shown no entry of its thread. -/
theorem hidden_of_not_member {diff : FileMap} {changedFiles : List Path}
    {changes : List (PollChange Json)} {channel : Text} (hfilter : viewer.skipFilter = false)
    (hmember : isMember readers tree viewer channel = false)
    (hpoll : handlePoll readers tree viewer diff changedFiles = .ok changes) :
    ∀ c ∈ changes, ¬ (c.kind = .channel ∧ c.channel = channel) := by
  rintro c hc ⟨hkind, rfl⟩
  obtain ⟨u, -, hpoll⟩ := bind_eq_ok_iff.mp hpoll
  obtain ⟨parts, hparts, hpoll⟩ := bind_eq_ok_iff.mp hpoll
  cases hpoll
  rcases List.mem_append.mp hc with hboard | hc
  · obtain ⟨handler, -, rfl⟩ := List.mem_map.mp hboard
    cases hkind
  · obtain ⟨part, hpart, hsome⟩ := List.mem_filterMap.mp hc
    obtain ⟨file, hfile, hchange⟩ := exists_of_mapM_ok hparts hpart
    rw [mapError_eq_ok_iff] at hchange
    cases hsome
    obtain ⟨hpath, hslash, hshown⟩ := pathChange_channel hchange hkind
    have hcached : c.channel ∈ (diff.map Prod.fst).filterMap extractChannel :=
      List.mem_filterMap.mpr ⟨file.1, List.mem_map.mpr ⟨file, hfile, rfl⟩,
        hpath ▸ extractChannel_threadPath hslash⟩
    rw [shown, channelMembership, hfilter, if_neg Bool.false_ne_true, lookup_restrict,
      if_pos hcached, Option.getD_some, hmember] at hshown
    cases hshown

end Visibility

end Poll
