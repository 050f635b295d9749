import GitIM.Cards
import GitIM.Runs

/-!
# Calls that commit, side by side

Six handlers of one daemon that write files and commit them, in any interleaving of their
file and git steps. Sending to a thread and to a card holds the commit lock from the
first read to the commit; creating, updating and archiving a card and creating a channel
hold no lock. All of them share one index, and a commit records the whole of it. What
the clock, the file system, git and the network answer is part of the action.
-/

namespace CommitCalls

open TextLines TextScan FileTree Checked Runs ThreadFormat ThreadValidation ConflictReplay
  DmThreads Channels GitIndex Cards

section Jobs

inductive FileWrite where
  /-- The last text is what an error message calls the file. -/
  | replace (path : Path) (content : Text) (what : Text)
  | append (path : Path) (text : Text)
  deriving DecidableEq

def FileWrite.path : FileWrite → Path
  | replace path _ _ => path
  | append path _ => path

/-- A write as the file system carries it out, and the error if not all of it arrived. -/
def FileWrite.perform (tree : FileMap) (result : WriteResult) :
    FileWrite → FileMap × Except Text Unit
  | replace path content what =>
    match replaceFile tree path content result with
    | (after, true) => (after, .ok ())
    | (after, false) => (after, .error ("failed to write ".toList ++ what))
  | append path text => appendFile tree path text result

/-- What a call does behind its checks: its writes, then for an archived card the move of its
directory, then one commit. -/
structure Job where
  /-- The name of the operation in error messages. -/
  op : Text
  writes : List FileWrite
  /-- The channel and the name of the card that is moved to the archive. -/
  move : Option (Text × Text)
  /-- A message is acknowledged even when it is only on disk. -/
  message : Bool
  deriving DecidableEq

namespace Job
variable (job : Job)

/-- Where a path of the job ends up. -/
def place (p : Path) : Path :=
  match job.move with
  | none => p
  | some (channel, cardId) => relocate (cardDir channel cardId) (archivedCardDir channel cardId) p

/-- The paths handed to `git add`. -/
def adds : List Path :=
  job.writes.map (fun w => job.place w.path) ++
    match job.move with
    | none => []
    | some (channel, cardId) => [threadIn (archivedCardDir channel cardId)]

/-- The files that belong to the call. -/
def Owns (p : Path) : Prop :=
  p ∈ job.writes.map FileWrite.path ∨ ∃ m ∈ job.move,
    Under (cardDir m.1 m.2) p ∨ Under (archivedCardDir m.1 m.2) p

instance decidableOwns (p : Path) : Decidable (job.Owns p) :=
  inferInstanceAs (Decidable (p ∈ job.writes.map FileWrite.path ∨ ∃ m ∈ job.move, _))

/-- What a write of the job left is in a tree: the whole file, or its last lines. -/
def WriteIn (tree : FileMap) : FileWrite → Prop
  | .replace path content _ => tree.lookup (job.place path) = some content
  | .append path text => ∃ content ∈ tree.lookup (job.place path), text <:+ content

instance decidableWriteIn (tree : FileMap) : DecidablePred (job.WriteIn tree)
  | .replace path content _ =>
    inferInstanceAs (Decidable (tree.lookup (job.place path) = some content))
  | .append path text =>
    inferInstanceAs (Decidable (∃ content ∈ tree.lookup (job.place path), text <:+ content))

def WritesIn (tree : FileMap) : Prop := ∀ w ∈ job.writes, job.WriteIn tree w

instance decidableWritesIn (tree : FileMap) : Decidable (job.WritesIn tree) :=
  inferInstanceAs (Decidable (∀ w ∈ job.writes, job.WriteIn tree w))

end Job

end Jobs

section Requests

inductive Request where
  | send (author channel body : Text) (replyTo : Option Nat)
  | sendCardMessage (author channel cardId body : Text) (replyTo : Option Nat)
  | createCard (author channel title : Text) (labels : Option (List Text))
      (assignee status : Option Text)
  | updateCard (req : UpdateRequest)
  | archiveCard (author channel cardId : Text)
  | createChannel (author name : Text) (displayName introduction : Option Text)
      (invitees : List Text)
  deriving DecidableEq

/-- A message behind its checks, waiting for the commit lock. -/
structure Message where
  author : Handler
  thread : Path
  body : Text
  replyTo : Option Nat
  /-- The channel as the request names it; a message to a card has none. -/
  channel : Option Text

/-- A card behind the checks of its call; its metadata is not read yet. -/
inductive CardTask where
  | update (req : UpdateRequest)
  | archive (author channel cardId : Text)
  deriving DecidableEq

/-- What the clock, the random source, the file system, git and the network answer in one step. -/
structure Env where
  now : Text
  cardId : Text
  write : WriteResult
  dirCreated : Bool
  done : Bool

variable {Json : Type} (json : EventJson Json) (yaml : MetaCodec) (cards : CardCodec)
  (users : List Text) (tree : FileMap) (env : Env)

/-- The thread that a request to send names; an archived direct message is refused first. -/
def resolveSend (author channel : Text) : Except Text Path :=
  match stripPrefix "dm:".toList channel with
  | some pair => do
    let stem ← resolveDm tree author pair
    .ok (dmPath stem)
  | none => do
    checkChannelName channel
    .ok (threadPath channel)

def sendersOf (channel : Text) : Except Text (List Text) :=
  match stripPrefix "dm:".toList channel with
  | some pair => do
    let _ ← (pair.splitOn ',').mapM fun p => refuse (p ∉ users)
      ("DM participant '@".toList ++ (p ++ "' is not a registered user".toList))
    .ok (pair.splitOn ',')
  | none => do
    let info ← readMeta yaml tree channel
    .ok info.members

/-- The text that is appended for a message. Only messages to channels and pairs are checked. -/
def composeMessage (m : Message) : Except Text Text := do
  let existing := (tree.lookup m.thread).getD []
  let file ← (parseThread json.toJsonCodec existing).mapError
    fun _ => "failed to parse thread".toList
  let text := formatMessage (nextLine (lastLineNumber file.entries)) (m.replyTo.getD 0) m.author
    env.now m.body
  match m.channel with
  | none => .ok text
  | some channel => do
    let senders ← sendersOf yaml users tree channel
    (validateAppend json.toJsonCodec json.isObject users senders existing text).mapError
      fun _ => "compliance check failed".toList
    .ok text

def messageJob (m : Message) (text : Text) : Job :=
  ⟨"send".toList, [.append m.thread text], none, true⟩

/-- `handle_create_card` up to its first write. -/
def prepareCard (author channel title : Text) (labels : Option (List Text))
    (assignee status : Option Text) : Except Text Job := do
  checkAuthor users tree author
  checkChannelName channel
  refuse (fileExists tree (threadPath channel) = false)
    ("channel '".toList ++ (channel ++ "' does not exist".toList))
  refuse (trim title = []) "title cannot be empty".toList
  checkLabels (labels.getD [])
  let status ← statusOr .todo status
  checkAssignee users assignee
  let info : CardMeta := ⟨title, channel, status, labels.getD [], assignee, author, env.now,
    env.now, none⟩
  .ok ⟨"create_card".toList,
    [.replace (metaIn (cardDir channel env.cardId)) (cards.toStr info) "card meta".toList,
      .replace (threadIn (cardDir channel env.cardId)) [] "card thread".toList], none, false⟩

/-- `handle_create_channel` up to its first write. -/
def prepareChannel (author name : Text) (displayName introduction : Option Text)
    (invitees : List Text) : Except Text Job := do
  let handler ← checkHandler author "invalid author".toList
  ensureAuthorNotDeparted tree author
  ensureRegistered users author
  let _ ← invitees.mapM fun invitee => do
    refuse (handlerError invitee ≠ none) ("invalid invitee handle: ".toList ++ invitee)
    refuse (invitee ∉ users) ("invitee '".toList ++ (invitee ++ "' is not registered".toList))
  checkChannelName name
  refuse (fileExists tree (metaPath name) = true)
    ("channel '".toList ++ (name ++ "' already exists".toList))
  refuse (fileExists tree (archivedMetaPath name) = true)
    ("channel '".toList ++ (name ++ "' exists in archive".toList))
  let members := addMissing [author] invitees
  let info : ChannelMeta := ⟨displayName.getD name, author, env.now, introduction.getD [], members,
    none⟩
  .ok ⟨"create_channel".toList,
    [.replace (metaPath name) (yaml.toStr info) "channel meta".toList,
      .replace (threadPath name) (formatEvent json.toJsonCodec 1 handler env.now
        EventKind.join.name (eventMeta json (members.drop 1))) "channel thread".toList],
    none, false⟩

/-- `handle_archive_card` up to the place where it reads the metadata. -/
def findForArchive (author channel cardId : Text) : Except Text Path := do
  checkAuthor users tree author
  checkChannelName channel
  validateCardId cardId
  match locateCard tree channel cardId with
  | none => .error (cardNotFound channel cardId)
  | some located => do
    refuse (located.isArchived = true)
      ("card '".toList ++ (cardId ++ "' is already archived".toList))
    .ok located.relPath

/-- The metadata read and edited: the job of an update, or of an archived card with its stamp. -/
def prepareTask (task : CardTask) (dir : Path) : Except Text Job :=
  match task with
  | .update req => do
    let info ← readCard cards tree dir req.channel req.cardId
    let edited ← editCard users req env.now info
    .ok ⟨"update_card".toList, [.replace (metaIn dir) (cards.toStr edited) "card meta".toList],
      none, false⟩
  | .archive author channel cardId => do
    let info ← readCard cards tree dir channel cardId
    refuse (info.createdBy ≠ author ∧ info.assignee ≠ some author)
      "only creator or assignee can archive".toList
    .ok ⟨"archive_card".toList, [.replace (metaIn dir)
        (cards.toStr { info with archivedVia := some .manual }) "card meta".toList],
      some (channel, cardId), false⟩

end Requests

section System

inductive Outcome where
  | error (message : Text)
  | committed (job : Job)
  | written (job : Job)
  | done (job : Job)
  deriving DecidableEq

/-- The job of an answer that reports success. -/
def Outcome.success? : Outcome → Option Job
  | error _ => none
  | committed job => some job
  | written job => some job
  | done job => some job

/-- Where a call stands: the next step is the one that the name says. -/
inductive Phase where
  | checking (req : Request)
  | locking (m : Message)
  | reading (task : CardTask) (dir : Path)
  | writing (job : Job) (w : FileWrite) (rest : List FileWrite)
  | moving (job : Job) (card : Text × Text)
  | adding (job : Job)
  | committing (job : Job)
  | movingBack (card : Text × Text) (message : Text)
  | resetting (card : Text × Text) (message : Text)
  | checkingOut (card : Text × Text) (message : Text)
  | pushing (job : Job)
  | answered (outcome : Outcome)

structure Commit where
  call : Nat
  job : Job
  before : FileMap
  after : FileMap

structure World where
  repo : Repo
  lock : Option Nat
  calls : List Phase
  commits : List Commit

inductive Action where
  | start (req : Request)
  | next (call : Nat) (env : Env)

/-- The call goes on with the next phase. -/
def World.goto (w : World) (c : Nat) (phase : Phase) : World :=
  { w with calls := w.calls.set c phase }

def World.answer (w : World) (c : Nat) (outcome : Outcome) : World := w.goto c (.answered outcome)

/-- The phase behind the last write. -/
def afterWrites (job : Job) : Phase :=
  match job.move with
  | none => .adding job
  | some card => .moving job card

/-- The phase while the given writes are left. -/
def writesLeft (job : Job) : List FileWrite → Phase
  | [] => afterWrites job
  | w :: rest => .writing job w rest

def startWrites (job : Job) : Phase := writesLeft job job.writes

def fromOption (done : Bool) (result : Option Repo) : Option Repo :=
  if done then result else none

theorem fromOption_eq_some {done : Bool} {result : Option Repo} {repo : Repo}
    (h : fromOption done result = some repo) : result = some repo := by
  rw [fromOption] at h
  split at h
  · exact h
  · cases h

theorem fromOption_eq_none {done : Bool} {result : Option Repo} (hdone : done = true)
    (h : fromOption done result = none) : result = none := by
  rw [fromOption, if_pos hdone] at h
  exact h

/-- A failed `git add` or `git commit`: a message stays on disk and is acknowledged, a moved card
is moved back, and the other calls report the error. -/
def commitFailed (w : World) (c : Nat) (job : Job) : World :=
  if job.message then { w with lock := none }.answer c (.written job)
  else match job.move with
    | some card => w.goto c (.movingBack card
        (job.op ++ " commit failed; rolled back git mv".toList))
    | none => w.answer c (.error (job.op ++ " commit failed".toList))

variable {Json : Type} (json : EventJson Json) (yaml : MetaCodec) (cards : CardCodec)
  (users : List Text)

def check (tree : FileMap) (env : Env) : Request → Except Text Phase
  | .send author channel body replyTo => do
    let handler ← checkHandler author "invalid author".toList
    checkAuthor users tree author
    let thread ← resolveSend tree author channel
    .ok (.locking ⟨handler, thread, body, replyTo, some channel⟩)
  | .sendCardMessage author channel cardId body replyTo => do
    let handler ← checkHandler author "invalid author".toList
    checkAuthor users tree author
    checkChannelName channel
    validateCardId cardId
    match locateCard tree channel cardId with
    | none => .error (cardNotFound channel cardId)
    | some located => do
      refuse (located.isArchived = true) ("cannot send to archived card '".toList ++
        (cardId ++ ("' in channel '".toList ++ (channel ++ "'".toList))))
      .ok (.locking ⟨handler, threadIn located.relPath, body, replyTo, none⟩)
  | .createCard author channel title labels assignee status => do
    let job ← prepareCard cards users tree env author channel title labels assignee status
    .ok (startWrites job)
  | .updateCard req => do
    let dir ← findForUpdate users tree req
    .ok (.reading (.update req) dir)
  | .archiveCard author channel cardId => do
    let dir ← findForArchive users tree author channel cardId
    .ok (.reading (.archive author channel cardId) dir)
  | .createChannel author name displayName introduction invitees => do
    let job ← prepareChannel json yaml users tree env author name displayName introduction invitees
    .ok (startWrites job)

/-- The next step of one call. -/
def advance (w : World) (c : Nat) (env : Env) : Phase → Option World
  | .checking req =>
    match check json yaml cards users w.repo.worktree env req with
    | .error e => some (w.answer c (.error e))
    | .ok phase => some (w.goto c phase)
  | .locking m =>
    if w.lock = none then
      match composeMessage json yaml users w.repo.worktree env m with
      | .error e => some (w.answer c (.error e))
      | .ok text => some ({ w with lock := some c }.goto c (startWrites (messageJob m text)))
    else none
  | .reading task dir =>
    match prepareTask cards users w.repo.worktree env task dir with
    | .error e => some (w.answer c (.error e))
    | .ok job => some (w.goto c (startWrites job))
  | .writing job write rest =>
    match write.perform w.repo.worktree env.write with
    | (tree, .ok ()) => some ({ w with repo := { w.repo with worktree := tree } }.goto c
        (writesLeft job rest))
    | (tree, .error e) => some ({ w with
        repo := { w.repo with worktree := tree }
        lock := if job.message then none else w.lock }.answer c (.error e))
  | .moving job card =>
    if env.dirCreated then
      match fromOption env.done (mvDir w.repo (cardDir card.1 card.2)
          (archivedCardDir card.1 card.2)) with
      | some repo => some ({ w with repo := repo }.goto c (.adding job))
      | none => some (w.goto c (.resetting card "git mv failed".toList))
    else some (w.goto c (.resetting card "failed to create archive dir".toList))
  | .adding job =>
    match fromOption env.done (add w.repo job.adds) with
    | some repo => some ({ w with repo := repo }.goto c (.committing job))
    | none => some (commitFailed w c job)
  | .committing job =>
    match fromOption env.done (commit w.repo) with
    | some repo =>
      if job.message then
        some ({ w with
          repo := repo
          lock := none
          commits := ⟨c, job, w.repo.head, repo.head⟩ :: w.commits }.answer c (.committed job))
      else
        some ({ w with
          repo := repo
          commits := ⟨c, job, w.repo.head, repo.head⟩ :: w.commits }.goto c (.pushing job))
    | none => some (commitFailed w c job)
  | .movingBack card message =>
    -- a failed move back is only logged
    match fromOption env.done (mvDir w.repo (archivedCardDir card.1 card.2)
        (cardDir card.1 card.2)) with
    | some repo => some ({ w with repo := repo }.goto c (.resetting card message))
    | none => some (w.goto c (.resetting card message))
  | .resetting card message =>
    some ({ w with
      repo := if env.done then resetPath w.repo (metaIn (cardDir card.1 card.2))
        else w.repo }.goto c (.checkingOut card message))
  | .checkingOut card message =>
    match fromOption env.done (checkoutPath w.repo (metaIn (cardDir card.1 card.2))) with
    | some repo => some ({ w with repo := repo }.answer c (.error message))
    | none => some (w.answer c (.error message))
  | .pushing job =>
    if env.done then some (w.answer c (.done job))
    else some (w.answer c (.error (job.op ++ " push failed".toList)))
  | .answered _ => none

def step (w : World) : Action → Option World
  | .start req => some { w with calls := w.calls ++ [.checking req] }
  | .next c env => (w.calls[c]?).bind (advance json yaml cards users w c env)

variable {json yaml cards users}

/-- A step of a call changes the phase of that call only. -/
theorem calls_of_advance {w w' : World} {c : Nat} {env : Env} {phase : Phase}
    (h : advance json yaml cards users w c env phase = some w') :
    ∃ phase', w'.calls = w.calls.set c phase' := by
  have hfailed : ∀ job, ∃ phase', (commitFailed w c job).calls = w.calls.set c phase' := by
    intro job
    rw [commitFailed]
    split
    · exact ⟨_, rfl⟩
    · split <;> exact ⟨_, rfl⟩
  cases phase with
  | answered outcome => cases h
  | resetting card message =>
    cases h
    exact ⟨_, rfl⟩
  | _ =>
    simp only [advance] at h
    split at h <;> (try split at h) <;> cases h <;> first | exact ⟨_, rfl⟩ | exact hfailed _

/-- The daemon before the first call. -/
def initial (repo : Repo) : World := ⟨repo, none, [], []⟩

end System

end CommitCalls
