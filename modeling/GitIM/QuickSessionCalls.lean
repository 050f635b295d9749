import GitIM.GitIndex
import GitIM.QuickSessionCreate
import GitIM.QuickSessionLife
import GitIM.Runs

/-!
# The calls on quick sessions

Every call of the daemon on a stored session: messages, claims, titles, summaries, failures, and the
moves into the archive and back. A call reads the metadata and the thread under the commit lock,
applies one transition, writes, and commits; what has been written is taken back when a later step
fails. The two files of a session stay together and agree with each other in every run.
-/

namespace QuickSessionCalls

open Checked TextLines TextScan FileTree GitIndex ThreadFormat ThreadGrammar ThreadValidation
  ThreadReading ThreadMerge DmThreads QuickSession QuickSessionLife QuickSessionCreate WebSends Runs

/-- What a rollback gets done: the files that are written over with their old text, the directory that is
moved back, and the files that are removed with a new directory. What fails is logged. -/
structure Rollback where
  rewrites : Path → Bool
  movesBack : Bool
  removes : Path → Bool

/-- What a call meets beside the repository: the registered users, the time, and what the disk and
git refuse to do, with the words of git where it refuses by itself. -/
structure Scene where
  users : List Text
  now : Text
  stamp : TimestampShape now
  writeError : Option Text
  parentError : Option Text
  moveError : Option Text
  commitError : Option Text
  gitWords : Text
  rollback : Rollback

def Scene.world (scene : Scene) (tree : FileMap) : World :=
  ⟨tree, scene.users, scene.now, scene.stamp, scene.writeError, scene.commitError,
    scene.rollback.removes⟩

structure SendRequest where
  sessionId : Text
  body : Text
  replyTo : Option Nat
  requestId : Option Text
  attemptId : Option Text
  author : Text
  replyBound : ∀ line, replyTo = some line → line < u64Bound

/-- The fields that the answers share. -/
structure Receipt where
  sessionId : Text
  status : QuickSessionStatus
  revision : Nat
  deriving DecidableEq

structure SendResponse extends Receipt where
  lineNumber : Nat
  reference : Text
  deriving DecidableEq

structure ClaimResponse extends Receipt where
  inputLine : Nat
  attemptId : Text
  deriving DecidableEq

structure TextResponse extends Receipt where
  text : Text
  deriving DecidableEq

/-- An answer, and the repository behind it. -/
abbrev Answer (α : Type) := Except Refusal α × FileMap

/-- A call that is refused before it has written anything. -/
def settle {α : Type} (tree : FileMap) : Except Refusal (Answer α) → Answer α
  | .ok answer => answer
  | .error refusal => (.error refusal, tree)

def Answer.map {α β : Type} (f : α → β) (answer : Answer α) : Answer β :=
  (answer.1.map f, answer.2)

section Model
variable {Json : Type} (lib : Library Json)

def refString (info : QuickSessionMeta) : Text := "session:".toList ++ info.id

def notFound : Refusal := .error "quick session not found".toList none

/-- A session that is neither missing nor archived. -/
def locateActive (tree : FileMap) (sessionId : Text) : Except Refusal Located := do
  match ← locateSession tree sessionId with
  | some located =>
    if located.archived then .error (errorResponse .invalidState) else .ok located
  | none => .error notFound

def writeFiles (tree : FileMap) (files : List (Path × Text)) : FileMap :=
  files.foldl (fun tree file => writeFile tree file.1 file.2) tree

/-- `restore_files`. -/
def Scene.restore (scene : Scene) (tree : FileMap) (files : List (Path × Text)) : FileMap :=
  writeFiles tree (files.filter fun f => scene.rollback.rewrites f.1)

/-- Every step of a rollback succeeds. -/
structure Scene.RollsBack (scene : Scene) : Prop where
  rewrites : ∀ p, scene.rollback.rewrites p = true
  movesBack : scene.rollback.movesBack = true
  removes : ∀ p, scene.rollback.removes p = true

theorem Scene.RollsBack.restore_eq {scene : Scene} (h : scene.RollsBack) (tree : FileMap)
    (files : List (Path × Text)) : scene.restore tree files = writeFiles tree files := by
  rw [Scene.restore, List.filter_eq_self.mpr fun f _ => h.rewrites f.1]

/-- The test `is_none_or(str::is_empty)`. -/
def isMissing (value : Option Text) : Bool := value.getD [] = []

/-- An attempt that has been answered already. -/
def completedRetry (info : QuickSessionMeta) (request : SendRequest) : Bool :=
  request.author = info.agentId ∧ request.attemptId = info.lastCompletedAttemptId ∧
    request.replyTo = info.lastCompletedInputLine

def checkAttempt (info : QuickSessionMeta) (request : SendRequest) : Except Refusal Unit :=
  if request.author = info.agentId ∧ completedRetry info request = false ∧ info.status = .running then do
    (validateQuickSessionAttemptId (request.attemptId.getD [])).mapError errorResponse
    refuse (info.attemptId ≠ some (request.attemptId.getD [])) (errorResponse .staleAttempt)
  else .ok ()

def checkSender (info : QuickSessionMeta) (request : SendRequest) : Except Refusal Unit := do
  refuse (request.author ≠ info.createdBy ∧ request.author ≠ info.agentId)
    (errorResponse .unauthorizedActor)
  refuse (request.author = info.createdBy ∧ isMissing request.requestId = true)
    (.error "creator messages require request_id".toList (some "invalid_quick_session_message".toList))
  refuse (request.author = info.agentId ∧ isMissing request.attemptId = true)
    (.error "agent messages require attempt_id".toList (some "quick_session_stale_attempt".toList))
  checkAttempt info request
  refuse (request.author = info.agentId ∧ completedRetry info request = false ∧
    request.replyTo ≠ info.processingInputLine) (errorResponse .inputLineMismatch)

/-- The creator asks; anyone else who may speak answers. -/
def sendTransition (info : QuickSessionMeta) (request : SendRequest) (line : Nat) (now : Text) :
    QuickSessionTransition :=
  if request.author = info.createdBy then
    .humanMessage request.author line request.requestId request.body now
  else
    .agentReply request.author (request.replyTo.getD 0) (request.attemptId.getD []) line request.body
      now

def compliance : ComplianceError → Refusal
  | .parse (.panicParseU64 _) => .panicked
  | e => .error ("invalid quick session message: ".toList ++ complianceErrorText e) none

def sendResponse (info : QuickSessionMeta) (sessionId : Text) (line : Nat) : SendResponse :=
  { sessionId, status := info.status, revision := info.revision, lineNumber := line
    reference := refString info }

/-- The two files of a session, written and committed; both are to be put back if either fails. -/
def storeMessage (scene : Scene) (tree : FileMap) (dir : Path) (oldInfo newInfo oldThread newThread : Text) :
    Answer Unit :=
  let before := [(infoPath dir, oldInfo), (discussionPath dir, oldThread)]
  match scene.writeError with
  | some e =>
    (.error (.error ("failed to write quick session message: ".toList ++ e) none),
      scene.restore (writeFile tree (infoPath dir) newInfo) before)
  | none =>
    let written := writeFiles tree [(infoPath dir, newInfo), (discussionPath dir, newThread)]
    match scene.commitError with
    | some e => (.error (.error ("send quick session message commit failed: ".toList ++
        (e ++ "; rolled back".toList)) none), scene.restore written before)
    | none => (.ok (), written)

def readFile (tree : FileMap) (path : Path) (what : Text) : Except Refusal Text :=
  match tree.lookup path with
  | none => .error (.error ("failed to read quick session ".toList ++ what) none)
  | some content => .ok content

def sendMessage (scene : Scene) (tree : FileMap) (request : SendRequest) :
    Except Refusal (Answer SendResponse) := do
  validateBody request.body
  let handler ← ensureActiveUser tree request.author "author".toList
  ensureAuthorNotDeparted tree request.author
  let located ← locateActive tree request.sessionId
  let info ← loadMeta lib tree located
  let oldThread ← readFile tree (discussionPath located.relDir) "thread".toList
  let entries ← loadThread lib tree located
  checkSender info request
  let line := nextLine (lastLineNumber entries)
  let (outcome, next) ← (applyQuickSessionTransition info
    (sendTransition info request line scene.now)).mapError errorResponse
  match outcome with
  | .duplicate known =>
    .ok (.ok (sendResponse next request.sessionId (known.getD line)), tree)
  | .applied => do
    let message := formatMessage line (request.replyTo.getD 0) handler scene.now request.body
    (validateAppend lib.json lib.isObject scene.users [next.createdBy, next.agentId] oldThread
      message).mapError compliance
    let oldInfo ← readFile tree (infoPath located.relDir) "metadata".toList
    .ok ((storeMessage scene tree located.relDir oldInfo (lib.yaml.toStr next) oldThread
      (oldThread ++ message)).map fun _ => sendResponse next request.sessionId line)

def handleSendQuickSessionMessage (scene : Scene) (tree : FileMap) (request : SendRequest) :
    Answer SendResponse :=
  settle tree (sendMessage lib scene tree request)

/-- Metadata written and committed; the second component says whether anything was. -/
def storeMeta (scene : Scene) (tree : FileMap) (dir : Path) (operation oldInfo newInfo : Text) :
    Answer Unit :=
  match scene.writeError with
  | some e => (.error (.error ("failed to write quick session metadata: ".toList ++ e) none), tree)
  | none =>
    let written := writeFile tree (infoPath dir) newInfo
    match scene.commitError with
    | some e => (.error (.error (operation ++ (" commit failed: ".toList ++
        (e ++ "; rolled back".toList))) none), scene.restore written [(infoPath dir, oldInfo)])
    | none => (.ok (), written)

def applyMetaTransition (scene : Scene) (tree : FileMap) (sessionId operation : Text)
    (transition : QuickSessionTransition) : Except Refusal (Answer QuickSessionMeta) := do
  let located ← locateActive tree sessionId
  let info ← loadMeta lib tree located
  let oldInfo ← readFile tree (infoPath located.relDir) "metadata".toList
  let (outcome, next) ← (applyQuickSessionTransition info transition).mapError errorResponse
  match outcome with
  | .duplicate _ => .ok (.ok next, tree)
  | .applied =>
    .ok ((storeMeta scene tree located.relDir operation oldInfo (lib.yaml.toStr next)).map
      fun _ => next)

/-- The newest line of the creator. -/
def newestCreatorLine (entries : List (ThreadEntry Json)) (creator : Text) : Option Nat :=
  (entries.filterMap fun entry => match entry with
    | .message m => if m.author.name = creator then some m.lineNumber else none
    | .event _ => none).max?

def receipt (sessionId : Text) (info : QuickSessionMeta) : Receipt :=
  ⟨sessionId, info.status, info.revision⟩

def claimTurn (scene : Scene) (tree : FileMap) (sessionId : Text) (inputLine : Nat)
    (attemptId author : Text) : Except Refusal (Answer ClaimResponse) := do
  let _ ← ensureActiveUser tree author "author".toList
  let located ← locateActive tree sessionId
  let info ← loadMeta lib tree located
  refuse (info.agentId ≠ author) (errorResponse .unauthorizedActor)
  let entries ← loadThread lib tree located
  refuse (¬ (info.status = .running ∧ info.processingInputLine = some inputLine ∧
      info.attemptId = some attemptId) ∧
    newestCreatorLine entries info.createdBy ≠ some inputLine) (errorResponse .inputLineMismatch)
  let answer ← applyMetaTransition lib scene tree sessionId "claim quick session".toList
    (.claim author inputLine attemptId scene.now)
  .ok (answer.map fun next => { receipt sessionId next with inputLine, attemptId })

def handleClaimQuickSessionTurn (scene : Scene) (tree : FileMap) (sessionId : Text) (inputLine : Nat)
    (attemptId author : Text) : Answer ClaimResponse :=
  settle tree (claimTurn lib scene tree sessionId inputLine attemptId author)

def mutateAgentMeta (scene : Scene) (tree : FileMap) (sessionId author operation : Text)
    (transition : QuickSessionTransition) : Except Refusal (Answer QuickSessionMeta) := do
  let _ ← ensureActiveUser tree author "author".toList
  applyMetaTransition lib scene tree sessionId operation transition

def handleSetQuickSessionTitle (scene : Scene) (tree : FileMap) (sessionId title attemptId author : Text) :
    Answer TextResponse :=
  (settle tree (mutateAgentMeta lib scene tree sessionId author "set quick session title".toList
    (.setTitle author attemptId title scene.now))).map fun info =>
      { receipt info.id info with text := info.title.getD [] }

def handleSetQuickSessionSummary (scene : Scene) (tree : FileMap)
    (sessionId summary attemptId author : Text) : Answer TextResponse :=
  (settle tree (mutateAgentMeta lib scene tree sessionId author "set quick session summary".toList
    (.setSummary author attemptId summary scene.now))).map fun info =>
      { receipt info.id info with text := info.summary.getD [] }

def handleMarkQuickSessionError (scene : Scene) (tree : FileMap)
    (sessionId attemptId diagnostic author : Text) : Answer Receipt :=
  (settle tree (mutateAgentMeta lib scene tree sessionId author "mark quick session error".toList
    (.markError author attemptId diagnostic scene.now))).map fun info => receipt info.id info

/-- `git mv` of a directory of committed files. -/
def gitMvDir (refusal : Text) (tree : FileMap) (source target : Path) : Except Text FileMap :=
  if hasDir tree source = true ∧ hasDir tree (mvTarget tree source target) = false then
    .ok (moveDir tree source (mvTarget tree source target))
  else .error refusal

/-- What `git add` and `git commit` of some paths answer. -/
def commitFault (scene : Scene) (tree : FileMap) (paths : List Path) : Option Text :=
  if ∀ p ∈ paths, fileExists tree p = true then scene.commitError else some scene.gitWords

/-- The metadata written, the directory moved and both files committed; what has been done is to be
undone if a later step fails. Where the way back fails, there is no directory to restore the metadata
in. -/
def moveFiles (scene : Scene) (tree : FileMap) (verb : Text) (source target : Path) (oldInfo newInfo : Text) :
    Answer Unit :=
  match scene.writeError with
  | some e => (.error (.error ("failed to write quick session metadata: ".toList ++ e) none), tree)
  | none =>
    let written := writeFile tree (infoPath source) newInfo
    match scene.parentError with
    | some e => (.error (.error ("failed to create quick session archive directory: ".toList ++ e)
        none), scene.restore written [(infoPath source, oldInfo)])
    | none =>
      match scene.moveError.elim (gitMvDir scene.gitWords written source target) .error with
      | .error e => (.error (.error ("failed to move quick session: ".toList ++ e) none),
          scene.restore written [(infoPath source, oldInfo)])
      | .ok moved =>
        match commitFault scene moved [infoPath target, discussionPath target] with
        | some e =>
          (.error (.error (verb ++ (" quick session commit failed: ".toList ++
            (e ++ "; rolled back".toList))) none),
            if scene.rollback.movesBack then
              scene.restore ((gitMvDir scene.gitWords moved target source).toOption.getD moved)
                [(infoPath source, oldInfo)]
            else moved)
        | none => (.ok (), moved)

def relDir (sessionId : Text) (archived : Bool) : Path :=
  if archived then archivedDir sessionId else activeDir sessionId

def moveSession (scene : Scene) (tree : FileMap) (sessionId author : Text) (archive : Bool) :
    Except Refusal (Answer QuickSessionMeta) := do
  let _ ← ensureActiveUser tree author "creator".toList
  match ← locateSession tree sessionId with
  | none => .error notFound
  | some located => do
    refuse (located.archived = archive) (errorResponse .invalidState)
    let info ← loadMeta lib tree located
    let oldInfo ← readFile tree (infoPath located.relDir) "metadata".toList
    let (_, next) ← (applyQuickSessionTransition info (if archive then .archive author scene.now
      else .unarchive author scene.now)).mapError errorResponse
    let target ← sessionRelDir sessionId archive
    .ok ((moveFiles scene tree (if archive then "archive".toList else "unarchive".toList)
      located.relDir target oldInfo (lib.yaml.toStr next)).map fun _ => next)

def handleArchiveQuickSession (scene : Scene) (tree : FileMap) (sessionId author : Text) :
    Answer TextResponse :=
  (settle tree (moveSession lib scene tree sessionId author true)).map fun info =>
    { receipt sessionId info with text := info.archivedAt.getD [] }

def handleUnarchiveQuickSession (scene : Scene) (tree : FileMap) (sessionId author : Text) :
    Answer Receipt :=
  (settle tree (moveSession lib scene tree sessionId author false)).map (receipt sessionId)

inductive Call where
  | create (request : QuickSessionCreate.Request)
  | send (request : SendRequest)
  | claim (sessionId : Text) (inputLine : Nat) (attemptId author : Text)
  | setTitle (sessionId title attemptId author : Text)
  | setSummary (sessionId summary attemptId author : Text)
  | markError (sessionId attemptId diagnostic author : Text)
  | archive (sessionId author : Text)
  | unarchive (sessionId author : Text)

def Call.answer (scene : Scene) (tree : FileMap) : Call → Answer Unit
  | .create request =>
    match handleCreateQuickSession lib (scene.world tree) request with
    | (.refused refusal, after) => (.error refusal, after)
    | (.existing _, after) => (.ok (), after)
    | (.created _, after) => (.ok (), after)
  | .send request => (handleSendQuickSessionMessage lib scene tree request).map fun _ => ()
  | .claim sessionId inputLine attemptId author =>
    (handleClaimQuickSessionTurn lib scene tree sessionId inputLine attemptId author).map fun _ => ()
  | .setTitle sessionId title attemptId author =>
    (handleSetQuickSessionTitle lib scene tree sessionId title attemptId author).map fun _ => ()
  | .setSummary sessionId summary attemptId author =>
    (handleSetQuickSessionSummary lib scene tree sessionId summary attemptId author).map fun _ => ()
  | .markError sessionId attemptId diagnostic author =>
    (handleMarkQuickSessionError lib scene tree sessionId attemptId diagnostic author).map fun _ => ()
  | .archive sessionId author =>
    (handleArchiveQuickSession lib scene tree sessionId author).map fun _ => ()
  | .unarchive sessionId author =>
    (handleUnarchiveQuickSession lib scene tree sessionId author).map fun _ => ()

/-- The calls hold the commit lock, so they come one after another. What else happens in the
repository happens outside the directories of the sessions. -/
inductive Action where
  | call (call : Call) (scene : Scene)
  | elsewhere (path : Path) (content : Option Text)

def inSessions (path : Path) : Bool :=
  "quick-sessions/".toList <+: path || "archive/quick-sessions/".toList <+: path

def step (tree : FileMap) : Action → Option FileMap
  | .call call scene => some (call.answer lib scene tree).2
  | .elsewhere path content => if inSessions path then none else some (setEntry tree path content)

end Model

section Specification
variable {Json : Type} (lib : Library Json)

structure Session where
  info : QuickSessionMeta
  thread : Text
  messages : List Message
  archived : Bool

/-- What the metadata say of the thread. -/
structure Conversation (info : QuickSessionMeta) (messages : List Message) : Prop where
  numbered : messages.map (·.lineNumber) = List.range' 1 messages.length
  parties : ∀ m ∈ messages, m.author.name = info.createdBy ∨ m.author.name = info.agentId
  asked : info.lastHumanLine ≠ none
  newest : ∀ line, info.lastHumanLine = some line ↔
    (∃ m ∈ messages, m.author.name = info.createdBy ∧ m.lineNumber = line) ∧
      ∀ m ∈ messages, m.author.name = info.createdBy → m.lineNumber ≤ line
  answered : ∀ input output, info.lastCompletedInputLine = some input →
    info.lastCompletedLine = some output →
      ∃ m ∈ messages, m.lineNumber = output ∧ m.pointTo = input ∧ m.author.name = info.agentId
  counted : messages.length < info.revision

/-- The metadata have come about by transitions, from those of a new session. -/
def Born (info : QuickSessionMeta) : Prop :=
  ∃ past, run perform (QuickSessionMeta.new info.id info.agentId info.createdBy info.createdAt) past =
    some info

/-- The session lies in one of its two directories: two files there, and nothing in the other. -/
structure Stores (tree : FileMap) (sessionId : Text) (s : Session) : Prop where
  info : ∃ text, tree.lookup (infoPath (relDir sessionId s.archived)) = some text ∧
    lib.yaml.fromStr text = .ok s.info
  thread : tree.lookup (discussionPath (relDir sessionId s.archived)) = some s.thread
  parsed : parseThread lib.json s.thread = .ok ⟨s.messages.map .message⟩
  ended : EndsInLf s.thread
  id : s.info.id = sessionId
  valid : ValidMeta s.info
  born : Born s.info
  place : s.archived = true ↔ s.info.status = .archived
  conversation : Conversation s.info s.messages
  only : ∀ p, Under (relDir sessionId s.archived) p → p ≠ infoPath (relDir sessionId s.archived) →
    p ≠ discussionPath (relDir sessionId s.archived) → tree.lookup p = none
  free : ∀ p, Under (relDir sessionId !s.archived) p → tree.lookup p = none

def Absent (tree : FileMap) (id : Text) : Prop :=
  ∀ archived p, Under (relDir id archived) p → tree.lookup p = none

/-- Of every valid id there is either nothing or one session, in one place. -/
def Kept (tree : FileMap) : Prop :=
  ∀ id, validateQuickSessionId id = .ok () → Absent tree id ∨ ∃ s, Stores lib tree id s

/-- A later state of the same session. -/
structure Evolves (s later : Session) : Prop where
  lived : ∃ between, run perform s.info between = some later.info
  thread : s.thread <+: later.thread
  messages : s.messages <+: later.messages

end Specification

section Places

variable {id other : Text} {a b : Bool} {p : Path}

theorem infoPath_eq (dir : Path) : infoPath dir = inDir dir "session.meta.yaml".toList := by
  simp [infoPath, inDir]

theorem discussionPath_eq (dir : Path) : discussionPath dir = inDir dir "discussion.thread".toList := by
  simp [discussionPath, inDir]

theorem under_infoPath (dir : Path) : Under dir (infoPath dir) := infoPath_eq dir ▸ under_inDir dir _

theorem under_discussionPath (dir : Path) : Under dir (discussionPath dir) :=
  discussionPath_eq dir ▸ under_inDir dir _

theorem head_of_under (h : Under (relDir id a) p) : p.head? = some (if a then 'a' else 'q') := by
  obtain ⟨rest, rfl⟩ := h
  cases a <;> rfl

/-- The first letters tell the archive from the sessions in use. -/
theorem relDir_place (h : Under (relDir id a) p) (h' : Under (relDir other b) p) : a = b := by
  have hhead := (head_of_under h).symm.trans (head_of_under h')
  cases a <;> cases b <;> first | rfl | exact absurd hhead (by decide)

theorem relDir_apart (h : a ≠ b) : Apart (relDir id a) (relDir other b) :=
  fun _ hp hp' => h (relDir_place hp hp')

/-- The directory of all sessions, with its slash. -/
def rootOf (archived : Bool) : Text :=
  if archived then "archive/quick-sessions/".toList else "quick-sessions/".toList

theorem relDir_eq (id : Text) (a : Bool) : relDir id a = rootOf a ++ id := by
  cases a <;> rfl

theorem inSessions_iff (p : Path) : inSessions p = true ↔ ∃ a, rootOf a <+: p := by
  rw [inSessions, Bool.or_eq_true, decide_eq_true_iff, decide_eq_true_iff]
  constructor
  · rintro (h | h)
    · exact ⟨false, h⟩
    · exact ⟨true, h⟩
  · rintro ⟨a, h⟩
    cases a with
    | false => exact .inl h
    | true => exact .inr h

theorem length_of_valid (h : validateQuickSessionId id = .ok ()) : id.length = 29 := by
  rw [validateQuickSessionId, refuse_eq_ok_iff, Bool.not_eq_false, validateOpaqueId] at h
  split at h
  · rename_i value hvalue
    rw [stripPrefix_eq_some_iff.mp hvalue, List.length_append]
    rw [Bool.and_eq_true, beq_iff_eq] at h
    rw [h.1]
    rfl
  · cases h

/-- Ids are equally long, so no path lies below the directories of two sessions. -/
theorem relDir_id (hid : validateQuickSessionId id = .ok ()) (hother : validateQuickSessionId other = .ok ())
    (h : Under (relDir id a) p) (h' : Under (relDir other b) p) : id = other := by
  obtain rfl := relDir_place h h'
  obtain ⟨rest, hrest⟩ := h
  obtain ⟨rest', hrest'⟩ := h'
  have hlength : id.length = other.length := (length_of_valid hid).trans (length_of_valid hother).symm
  have hsame := hrest.trans hrest'.symm
  rw [relDir_eq, relDir_eq, List.append_assoc, List.append_assoc, List.append_assoc,
    List.append_assoc] at hsame
  exact (List.append_inj (List.append_cancel_left hsame) hlength).1

theorem inSessions_of_under (h : Under (relDir id a) p) : inSessions p = true := by
  obtain ⟨rest, rfl⟩ := h
  refine (inSessions_iff _).mpr ⟨a, ?_⟩
  rw [relDir_eq, List.append_assoc, List.append_assoc]
  exact List.prefix_append _ _

end Places

section Conversations

variable {info next : QuickSessionMeta} {messages : List Message} {m : Message}

theorem lastLineNumber_numbered {Json : Type} {n : Nat}
    (h : messages.map (·.lineNumber) = List.range' 1 n) :
    lastLineNumber (messages.map (@ThreadEntry.message Json)) = n := by
  have hlast : (messages.map (·.lineNumber)).getLast?.getD 0 = n := by
    rw [h, List.getLast?_range']
    split <;> simp_all
  rw [lastLineNumber, List.getLast?_map, Option.map_map]
  rw [List.getLast?_map] at hlast
  exact hlast

theorem Conversation.line_le (h : Conversation info messages) (hm : m ∈ messages) :
    1 ≤ m.lineNumber ∧ m.lineNumber ≤ messages.length := by
  have hmem : m.lineNumber ∈ messages.map (·.lineNumber) := List.mem_map_of_mem hm
  rw [h.numbered, List.mem_range'_1] at hmem
  omega

theorem numbered_append (h : Conversation info messages) (hline : m.lineNumber = messages.length + 1) :
    (messages ++ [m]).map (·.lineNumber) = List.range' 1 (messages ++ [m]).length := by
  rw [List.map_append, h.numbered, List.length_append, List.map_singleton, List.length_singleton,
    List.range'_concat, hline, Nat.one_mul, Nat.add_comm 1]

/-- The creator asks. -/
theorem Conversation.ask (h : Conversation info messages) (hnext : Continues info next)
    (hline : m.lineNumber = messages.length + 1) (hauthor : m.author.name = info.createdBy)
    (hhuman : next.lastHumanLine = some m.lineNumber)
    (hinput : next.lastCompletedInputLine = info.lastCompletedInputLine)
    (houtput : next.lastCompletedLine = info.lastCompletedLine) :
    Conversation next (messages ++ [m]) where
  numbered := numbered_append h hline
  parties := by
    rw [hnext.createdBy, hnext.agentId]
    exact List.forall_mem_append.mpr ⟨h.parties, List.forall_mem_singleton.mpr (.inl hauthor)⟩
  asked := by simp [hhuman]
  newest := by
    intro line
    rw [hnext.createdBy, hhuman, Option.some.injEq]
    constructor
    · rintro rfl
      refine ⟨⟨m, by simp, hauthor, rfl⟩, fun k hk _ => ?_⟩
      rcases List.mem_append.mp hk with hold | hnew
      · have := (h.line_le hold).2
        omega
      · rw [List.mem_singleton.mp hnew]
    · rintro ⟨⟨k, hk, -, rfl⟩, hmax⟩
      have hm := hmax m (by simp) hauthor
      rcases List.mem_append.mp hk with hold | hnew
      · have := (h.line_le hold).2
        omega
      · rw [List.mem_singleton.mp hnew]
  answered := by
    intro input output hin hout
    obtain ⟨k, hk, hrest⟩ := h.answered input output (hinput ▸ hin) (houtput ▸ hout)
    exact ⟨k, List.mem_append_left _ hk, by rwa [hnext.agentId]⟩
  counted := by
    have := h.counted
    rw [List.length_append, List.length_singleton, hnext.revision]
    omega

/-- The agent answers the line that the message points to. -/
theorem Conversation.reply (h : Conversation info messages) (hnext : Continues info next)
    (hline : m.lineNumber = messages.length + 1) (hauthor : m.author.name = info.agentId)
    (hother : info.agentId ≠ info.createdBy) (hhuman : next.lastHumanLine = info.lastHumanLine)
    (hinput : next.lastCompletedInputLine = some m.pointTo)
    (houtput : next.lastCompletedLine = some m.lineNumber) :
    Conversation next (messages ++ [m]) where
  numbered := numbered_append h hline
  parties := by
    rw [hnext.createdBy, hnext.agentId]
    exact List.forall_mem_append.mpr ⟨h.parties, List.forall_mem_singleton.mpr (.inr hauthor)⟩
  asked := by simpa [hhuman] using h.asked
  newest := by
    intro line
    have hne : m.author.name ≠ info.createdBy := by rwa [hauthor]
    rw [hnext.createdBy, hhuman, h.newest]
    simp only [List.mem_append, List.mem_singleton, or_and_right, exists_or, exists_eq_left, hne,
      false_and, or_false, or_imp, forall_and, forall_eq, false_imp_iff, and_true]
  answered := by
    intro input output hin hout
    rw [hinput] at hin
    rw [houtput] at hout
    cases hin
    cases hout
    exact ⟨m, by simp, rfl, rfl, by rw [hnext.agentId, hauthor]⟩
  counted := by
    have := h.counted
    rw [List.length_append, List.length_singleton, hnext.revision]
    omega

/-- Nobody says anything. -/
theorem Conversation.silent (h : Conversation info messages) (hnext : Continues info next)
    (hhuman : next.lastHumanLine = info.lastHumanLine)
    (hinput : next.lastCompletedInputLine = info.lastCompletedInputLine)
    (houtput : next.lastCompletedLine = info.lastCompletedLine) : Conversation next messages where
  numbered := h.numbered
  parties := by
    rw [hnext.createdBy, hnext.agentId]
    exact h.parties
  asked := by
    rw [hhuman]
    exact h.asked
  newest := by
    rw [hnext.createdBy, hhuman]
    exact h.newest
  answered := by
    rw [hinput, houtput, hnext.agentId]
    exact h.answered
  counted := by
    have := h.counted
    rw [hnext.revision]
    omega

/-- The transitions that say nothing. -/
def Silent : QuickSessionTransition → Prop
  | .humanMessage .. => False
  | .agentReply .. => False
  | _ => True

theorem silent_applied {t : QuickSessionTransition} (hsilent : Silent t)
    (happly : applyTransition info t = .ok (.applied, next)) :
    next.lastHumanLine = info.lastHumanLine ∧
      next.lastCompletedInputLine = info.lastCompletedInputLine ∧
      next.lastCompletedLine = info.lastCompletedLine := by
  cases t with
  | humanMessage => exact hsilent.elim
  | agentReply => exact hsilent.elim
  | claim =>
    obtain ⟨-, -, -, -, -, -, -, rfl⟩ := applyClaim_applied happly
    exact ⟨rfl, rfl, rfl⟩
  | setTitle =>
    obtain ⟨-, -, -, -, -, rfl⟩ := applySetTitle_applied happly
    exact ⟨rfl, rfl, rfl⟩
  | setSummary =>
    obtain ⟨-, -, -, -, -, rfl⟩ := applySetSummary_applied happly
    exact ⟨rfl, rfl, rfl⟩
  | markError =>
    obtain ⟨-, -, -, -, -, -, claimed, -, rfl⟩ := applyMarkError_applied happly
    exact ⟨rfl, rfl, rfl⟩
  | archive =>
    obtain ⟨-, -, -, rfl⟩ := applyArchive_applied happly
    exact ⟨rfl, rfl, rfl⟩
  | unarchive =>
    obtain ⟨-, -, -, rfl⟩ := applyUnarchive_applied happly
    exact ⟨rfl, rfl, rfl⟩

theorem titleDerivedStatus_ne_archived (m : QuickSessionMeta) : titleDerivedStatus m ≠ .archived := by
  rw [titleDerivedStatus]
  split <;> decide

/-- Only an archive transition leads to the archived status. -/
theorem archived_applied {t : QuickSessionTransition} (hvalid : ValidMeta info)
    (happly : applyTransition info t = .ok (.applied, next)) :
    next.status = .archived ↔ ∃ actor now, t = .archive actor now := by
  cases t with
  | humanMessage =>
    obtain ⟨-, harch, -, -, -, rfl⟩ := applyHumanMessage_applied happly
    have hstatus : (leaveError info).status ≠ .archived := by
      rw [leaveError]
      split
      · exact titleDerivedStatus_ne_archived info
      · exact harch
    simpa using hstatus
  | claim =>
    obtain ⟨-, -, -, -, -, -, -, rfl⟩ := applyClaim_applied happly
    simp
  | setTitle =>
    obtain ⟨-, hrunning, -, -, -, rfl⟩ := applySetTitle_applied happly
    simp [hrunning]
  | setSummary =>
    obtain ⟨-, hrunning, -, -, -, rfl⟩ := applySetSummary_applied happly
    simp [hrunning]
  | agentReply =>
    obtain ⟨-, -, -, -, -, -, -, -, rfl⟩ := applyAgentReply_applied happly
    simp
  | markError =>
    obtain ⟨-, -, -, -, -, -, claimed, -, rfl⟩ := applyMarkError_applied happly
    have hne := titleDerivedStatus_ne_archived info
    by_cases hqueued : hasQueuedInput info claimed = true <;> simp [hqueued, hne]
  | archive =>
    obtain ⟨-, -, -, rfl⟩ := applyArchive_applied happly
    simp
  | unarchive =>
    obtain ⟨-, harch, -, rfl⟩ := applyUnarchive_applied happly
    have hstatus : info.archivedFrom.getD (titleDerivedStatus info) ≠ .archived := by
      rcases (hvalid.archived harch).2 with ⟨hfrom, -⟩ | ⟨hfrom, -⟩ | hfrom <;> simp [hfrom]
    simpa using hstatus

theorem perform_of_applied {t : QuickSessionTransition} (hvalid : ValidMeta info)
    (happly : applyTransition info t = .ok (.applied, next)) : perform info t = some next := by
  have hchecked : applyQuickSessionTransition info t = .ok (.applied, next) := by
    rw [applyQuickSessionTransition, then_eq_ok_iff, validate_ok_iff, bind_eq_ok_iff]
    refine ⟨hvalid, _, happly, ?_⟩
    simp only [if_true, then_eq_ok_iff, validate_ok_iff]
    exact ⟨validMeta_applied hvalid happly, trivial⟩
  rw [perform, inPlace, hchecked]

theorem Born.applied {t : QuickSessionTransition} (h : Born info) (hvalid : ValidMeta info)
    (happly : applyTransition info t = .ok (.applied, next)) : Born next := by
  obtain ⟨past, hpast⟩ := h
  have hnext := continues_applied happly
  refine ⟨past ++ [t], ?_⟩
  rw [hnext.id, hnext.agentId, hnext.createdBy, hnext.createdAt]
  exact run_concat hpast (perform_of_applied hvalid happly)

end Conversations

section Trees

variable {Json : Type} {lib : Library Json} {tree after : FileMap} {id : Text} {s : Session}

theorem Stores.congr (h : Stores lib tree id s)
    (hsame : ∀ a p, Under (relDir id a) p → after.lookup p = tree.lookup p) : Stores lib after id s :=
  { h with
    info := by
      rw [hsame _ _ (under_infoPath _)]
      exact h.info
    thread := by
      rw [hsame _ _ (under_discussionPath _)]
      exact h.thread
    only := fun p hp hinfo hthread => (hsame _ p hp).trans (h.only p hp hinfo hthread)
    free := fun p hp => (hsame _ p hp).trans (h.free p hp) }

theorem Absent.congr (h : Absent tree id)
    (hsame : ∀ a p, Under (relDir id a) p → after.lookup p = tree.lookup p) : Absent after id :=
  fun a p hp => (hsame a p hp).trans (h a p hp)

theorem sessionRelDir_ok_iff {archived : Bool} {dir : Path} :
    sessionRelDir id archived = .ok dir ↔ validateQuickSessionId id = .ok () ∧ dir = relDir id archived := by
  rw [sessionRelDir, then_eq_ok_iff, mapError_eq_ok_iff, relDir]
  exact and_congr_right fun _ => ⟨fun h => (Except.ok.inj h).symm, fun h => by rw [h]⟩

theorem locateSession_eq (hid : validateQuickSessionId id = .ok ()) :
    locateSession tree id =
      .ok (if fileExists tree (infoPath (relDir id false)) then some ⟨relDir id false, false⟩
        else if fileExists tree (infoPath (relDir id true)) then some ⟨relDir id true, true⟩
        else none) :=
  bind_eq_ok_iff.mpr ⟨_, sessionRelDir_ok_iff.mpr ⟨hid, rfl⟩,
    bind_eq_ok_iff.mpr ⟨_, sessionRelDir_ok_iff.mpr ⟨hid, rfl⟩, rfl⟩⟩

theorem valid_of_locate {place : Option Located} (h : locateSession tree id = .ok place) :
    validateQuickSessionId id = .ok () := by
  obtain ⟨active, hactive, -⟩ := bind_eq_ok_iff.mp h
  exact (sessionRelDir_ok_iff.mp hactive).1

theorem Stores.locate (h : Stores lib tree id s) (hid : validateQuickSessionId id = .ok ()) :
    locateSession tree id = .ok (some ⟨relDir id s.archived, s.archived⟩) := by
  obtain ⟨text, htext, -⟩ := h.info
  have hfree := h.free _ (under_infoPath _)
  rw [locateSession_eq hid, fileExists, fileExists]
  cases hplace : s.archived with
  | false =>
    rw [hplace] at htext
    rw [htext]
    rfl
  | true =>
    rw [hplace] at htext hfree
    rw [htext, show (infoPath (relDir id false)) = infoPath (relDir id !true) from rfl, hfree]
    rfl

theorem Absent.locate (h : Absent tree id) (hid : validateQuickSessionId id = .ok ()) :
    locateSession tree id = .ok none := by
  rw [locateSession_eq hid, fileExists, fileExists, h _ _ (under_infoPath _), h _ _ (under_infoPath _)]
  rfl

theorem Stores.present (h : Stores lib tree id s) : ¬ Absent tree id := by
  intro habsent
  have hthread := habsent _ _ (under_discussionPath (relDir id s.archived))
  rw [h.thread] at hthread
  cases hthread

/-- The store holds one session under an id. -/
theorem Stores.unique {other : Session} (h : Stores lib tree id s) (h' : Stores lib tree id other) :
    s = other := by
  have hplace : s.archived = other.archived := by
    by_contra hne
    have hnot : other.archived = !s.archived := Bool.eq_not.mpr (Ne.symm hne)
    have hthread := h'.thread
    rw [hnot, h.free _ (under_discussionPath _)] at hthread
    cases hthread
  obtain ⟨text, htext, hinfo⟩ := h.info
  obtain ⟨text', htext', hinfo'⟩ := h'.info
  have hthread := h.thread
  rw [hplace] at htext hthread
  rw [htext] at htext'
  rw [h'.thread] at hthread
  cases htext'
  have hparsed := h.parsed
  rw [← Option.some.inj hthread, h'.parsed] at hparsed
  have hmessages := ThreadFile.mk.inj (Except.ok.inj hparsed)
  have hinjective : Function.Injective (@ThreadEntry.message Json) :=
    fun _ _ heq => ThreadEntry.message.inj heq
  cases s
  cases other
  simp only [Session.mk.injEq]
  exact ⟨Except.ok.inj (hinfo.symm.trans hinfo'), (Option.some.inj hthread).symm,
    (hinjective.list_map hmessages).symm, hplace⟩

theorem Stores.loadMeta (h : Stores lib tree id s) :
    loadMeta lib tree ⟨relDir id s.archived, s.archived⟩ = .ok s.info := by
  obtain ⟨text, htext, hinfo⟩ := h.info
  simp only [QuickSessionCreate.loadMeta, htext]
  refine bind_eq_ok_iff.mpr ⟨s.info, mapError_eq_ok_iff.mpr hinfo, ?_⟩
  exact then_eq_ok_iff.mpr ⟨mapError_eq_ok_iff.mpr (validate_ok_iff.mpr h.valid), rfl⟩

theorem Stores.loadThread (h : Stores lib tree id s) :
    loadThread lib tree ⟨relDir id s.archived, s.archived⟩ = .ok (s.messages.map .message) := by
  simp only [QuickSessionCreate.loadThread, h.thread, h.parsed]

/-- What a located session is. -/
theorem stores_of_locate (hkept : Kept lib tree) {located : Located}
    (h : locateSession tree id = .ok (some located)) :
    validateQuickSessionId id = .ok () ∧
      ∃ s, Stores lib tree id s ∧ located = ⟨relDir id s.archived, s.archived⟩ := by
  have hid := valid_of_locate h
  rcases hkept id hid with habsent | ⟨s, hs⟩
  · rw [habsent.locate hid] at h
    cases h
  · rw [hs.locate hid] at h
    exact ⟨hid, s, hs, (Option.some.inj (Except.ok.inj h)).symm⟩

theorem absent_of_locate (hkept : Kept lib tree) (h : locateSession tree id = .ok none) :
    validateQuickSessionId id = .ok () ∧ Absent tree id := by
  have hid := valid_of_locate h
  rcases hkept id hid with habsent | ⟨s, hs⟩
  · exact ⟨hid, habsent⟩
  · rw [hs.locate hid] at h
    cases h

theorem stores_of_locateActive (hkept : Kept lib tree) {located : Located}
    (h : locateActive tree id = .ok located) : validateQuickSessionId id = .ok () ∧
      ∃ s, Stores lib tree id s ∧ s.archived = false ∧ located = ⟨relDir id s.archived, s.archived⟩ := by
  obtain ⟨place, hplace, h⟩ := bind_eq_ok_iff.mp h
  cases place with
  | none => cases h
  | some found =>
    simp only at h
    split at h
    · cases h
    · rename_i hactive
      cases h
      obtain ⟨hid, s, hs, rfl⟩ := stores_of_locate hkept hplace
      exact ⟨hid, s, hs, by simpa using hactive, rfl⟩

theorem Evolves.refl (s : Session) : Evolves s s :=
  ⟨⟨[], rfl⟩, List.prefix_refl _, List.prefix_refl _⟩

variable (lib) in
/-- What a call can do to the repository: nothing, or bring one session further. -/
inductive Effect (tree after : FileMap) : Prop
  | same (h : Agree after tree)
  | session {id : Text} {s : Session} (valid : validateQuickSessionId id = .ok ())
      (frame : ∀ p, (∀ a, ¬ Under (relDir id a) p) → after.lookup p = tree.lookup p)
      (stores : Stores lib after id s)
      (before : Absent tree id ∨ ∃ earlier, Stores lib tree id earlier ∧ Evolves earlier s)

theorem untouched {other : Text} (hid : validateQuickSessionId id = .ok ())
    (hother : validateQuickSessionId other = .ok ()) (hne : other ≠ id)
    (frame : ∀ p, (∀ a, ¬ Under (relDir id a) p) → after.lookup p = tree.lookup p) (a : Bool) (p : Path)
    (hp : Under (relDir other a) p) : after.lookup p = tree.lookup p :=
  frame p fun _ hunder => hne (relDir_id hother hid hp hunder)

theorem Effect.kept (h : Effect lib tree after) (hkept : Kept lib tree) : Kept lib after := by
  intro other hother
  cases h with
  | same hsame =>
    rcases hkept other hother with habsent | ⟨s, hs⟩
    · exact .inl (habsent.congr fun _ p _ => hsame p)
    · exact .inr ⟨s, hs.congr fun _ p _ => hsame p⟩
  | @session id s hid frame stores before =>
    by_cases hne : other = id
    · exact .inr ⟨s, hne ▸ stores⟩
    · have hsame := untouched hid hother hne frame
      rcases hkept other hother with habsent | ⟨s, hs⟩
      · exact .inl (habsent.congr hsame)
      · exact .inr ⟨s, hs.congr hsame⟩

theorem Effect.evolves (h : Effect lib tree after) (hid : validateQuickSessionId id = .ok ())
    (hs : Stores lib tree id s) : ∃ later, Stores lib after id later ∧ Evolves s later := by
  cases h with
  | same hsame => exact ⟨s, hs.congr fun _ p _ => hsame p, Evolves.refl s⟩
  | @session other s' hother frame stores before =>
    by_cases hne : id = other
    · subst hne
      rcases before with habsent | ⟨earlier, hearlier, hevolves⟩
      · exact absurd habsent hs.present
      · obtain rfl := hs.unique hearlier
        exact ⟨s', stores, hevolves⟩
    · exact ⟨s, hs.congr (untouched hother hid hne frame), Evolves.refl s⟩

end Trees

section Calls

variable {Json : Type} {lib : Library Json} {tree after : FileMap} {id : Text} {s : Session}
  {scene : Scene} {α β : Type}

variable (lib) in
/-- A call has an effect, and none if it fails. -/
structure Safe (tree : FileMap) (answer : Answer α) : Prop where
  effect : Effect lib tree answer.2
  failed : ∀ refusal, answer.1 = .error refusal → Agree answer.2 tree

theorem Safe.unchanged (result : Except Refusal α) : Safe lib tree (result, tree) :=
  ⟨.same (agree_refl tree), fun _ _ => agree_refl tree⟩

theorem Safe.rolledBack {refusal : Refusal} (h : Agree after tree) :
    Safe lib tree ((.error refusal, after) : Answer α) :=
  ⟨.same h, fun _ _ => h⟩

theorem Safe.done {a : α} (h : Effect lib tree after) : Safe lib tree ((.ok a, after) : Answer α) :=
  ⟨h, fun _ hfailed => by cases hfailed⟩

theorem Safe.map {answer : Answer α} (h : Safe lib tree answer) (f : α → β) :
    Safe lib tree (answer.map f) := by
  refine ⟨h.effect, fun refusal hfailed => ?_⟩
  obtain ⟨result, after⟩ := answer
  cases result with
  | error e => exact h.failed e rfl
  | ok a => cases hfailed

theorem safe_settle {checked : Except Refusal (Answer α)}
    (h : ∀ answer, checked = .ok answer → Safe lib tree answer) : Safe lib tree (settle tree checked) := by
  cases checked with
  | error refusal => exact .unchanged (.error refusal)
  | ok answer => exact h answer rfl

/-- A file written over and put back is as it was. -/
theorem agree_restored {path : Path} {old : Text} (hold : tree.lookup path = some old)
    (hother : ∀ q, q ≠ path → after.lookup q = tree.lookup q) : Agree (writeFile after path old) tree := by
  intro q
  rw [lookup_writeFile]
  split
  · rename_i hq
    rw [hq, hold]
  · rename_i hq
    exact hother q hq

theorem ne_of_under {dir path p : Path} (hpath : Under dir path) (hp : ¬ Under dir p) : p ≠ path := by
  rintro rfl
  exact hp hpath

theorem frame_of_under {path p : Path} {a : Bool} (hpath : Under (relDir id a) path)
    (hp : ∀ a, ¬ Under (relDir id a) p) : p ≠ path := ne_of_under hpath (hp a)

/-- New metadata over the same thread. -/
theorem effect_rewrite (hback : ∀ info, lib.yaml.fromStr (lib.yaml.toStr info) = .ok info)
    (hid : validateQuickSessionId id = .ok ()) (hs : Stores lib tree id s)
    {t : QuickSessionTransition} {next : QuickSessionMeta} (hsilent : Silent t)
    (happly : applyTransition s.info t = .ok (.applied, next))
    (hplace : s.archived = true ↔ next.status = .archived) :
    Effect lib tree (writeFile tree (infoPath (relDir id s.archived)) (lib.yaml.toStr next)) := by
  obtain ⟨hhuman, hinput, houtput⟩ := silent_applied hsilent happly
  have hnext := continues_applied happly
  have hother : ∀ p, p ≠ infoPath (relDir id s.archived) →
      (writeFile tree (infoPath (relDir id s.archived)) (lib.yaml.toStr next)).lookup p =
        tree.lookup p := fun p hp => by rw [lookup_writeFile, if_neg hp]
  refine .session (s := { s with info := next }) hid
    (fun p hp => hother p (frame_of_under (under_infoPath _) hp)) ?_
    (.inr ⟨s, hs, ⟨[t], run_cons_eq_some.mpr ⟨next, perform_of_applied hs.valid happly, rfl⟩⟩,
      List.prefix_refl _, List.prefix_refl _⟩)
  exact
    { info := ⟨_, by rw [lookup_writeFile, if_pos rfl], hback next⟩
      thread := (hother _ (infoPath_ne _).symm).trans hs.thread
      parsed := hs.parsed
      ended := hs.ended
      id := hnext.id.trans hs.id
      valid := validMeta_applied hs.valid happly
      born := hs.born.applied hs.valid happly
      place := hplace
      conversation := hs.conversation.silent hnext hhuman hinput houtput
      only := fun p hp hinfo hthread => (hother p hinfo).trans (hs.only p hp hinfo hthread)
      free := fun p hp => (hother p fun heq =>
        absurd (relDir_place hp (heq ▸ under_infoPath (relDir id s.archived))) (by simp)).trans
          (hs.free p hp) }

theorem readFile_ok_iff {path : Path} {what content : Text} :
    readFile tree path what = .ok content ↔ tree.lookup path = some content := by
  rw [readFile]
  split
  · rename_i hnone
    simp [hnone]
  · rename_i found hfound
    simp [hfound]

theorem restoreOne_eq (hrolls : scene.RollsBack) (tree : FileMap) (p : Path) (content : Text) :
    scene.restore tree [(p, content)] = writeFile tree p content := hrolls.restore_eq tree _

theorem storeMeta_safe (hrolls : scene.RollsBack) {operation oldInfo newInfo : Text} {dir : Path}
    (hold : tree.lookup (infoPath dir) = some oldInfo)
    (heffect : Effect lib tree (writeFile tree (infoPath dir) newInfo)) :
    Safe lib tree (storeMeta scene tree dir operation oldInfo newInfo) := by
  rw [storeMeta]
  split
  · exact .unchanged _
  · simp only
    split
    · rw [restoreOne_eq hrolls]
      exact .rolledBack (agree_restored hold fun q hq => by rw [lookup_writeFile, if_neg hq])
    · exact .done heffect

/-- Outside the archive only the status of an archived session is out of place. -/
theorem active_applied {t : QuickSessionTransition} {next : QuickSessionMeta} (hs : Stores lib tree id s)
    (hactive : s.archived = false) (happly : applyTransition s.info t = .ok (.applied, next))
    (ht : ∀ actor now, t ≠ .archive actor now) : s.archived = true ↔ next.status = .archived := by
  rw [archived_applied hs.valid happly, hactive]
  constructor
  · intro h
    cases h
  · rintro ⟨actor, now, rfl⟩
    exact absurd rfl (ht actor now)

theorem applyMetaTransition_safe (hback : ∀ info, lib.yaml.fromStr (lib.yaml.toStr info) = .ok info)
    (hrolls : scene.RollsBack) (hkept : Kept lib tree) {operation : Text} {t : QuickSessionTransition}
    (hsilent : Silent t)
    (ht : ∀ actor now, t ≠ .archive actor now) {answer : Answer QuickSessionMeta}
    (h : applyMetaTransition lib scene tree id operation t = .ok answer) : Safe lib tree answer := by
  obtain ⟨located, hlocated, h⟩ := bind_eq_ok_iff.mp h
  obtain ⟨hid, s, hs, hactive, rfl⟩ := stores_of_locateActive hkept hlocated
  obtain ⟨info, hinfo, h⟩ := bind_eq_ok_iff.mp h
  rw [hs.loadMeta] at hinfo
  cases hinfo
  obtain ⟨oldInfo, hold, h⟩ := bind_eq_ok_iff.mp h
  rw [readFile_ok_iff] at hold
  obtain ⟨⟨outcome, next⟩, happlied, h⟩ := bind_eq_ok_iff.mp h
  rw [mapError_eq_ok_iff] at happlied
  cases outcome with
  | duplicate line =>
    cases h
    exact .unchanged _
  | applied =>
    cases h
    obtain ⟨-, happly, -⟩ := applyQuickSessionTransition_applied happlied
    exact (storeMeta_safe hrolls hold (effect_rewrite hback hid hs hsilent happly
      (active_applied hs hactive happly ht))).map _

theorem claimTurn_safe (hback : ∀ info, lib.yaml.fromStr (lib.yaml.toStr info) = .ok info)
    (hrolls : scene.RollsBack) (hkept : Kept lib tree) {inputLine : Nat} {attemptId author : Text}
    {answer : Answer ClaimResponse}
    (h : claimTurn lib scene tree id inputLine attemptId author = .ok answer) : Safe lib tree answer := by
  obtain ⟨handler, -, h⟩ := bind_eq_ok_iff.mp h
  obtain ⟨located, -, h⟩ := bind_eq_ok_iff.mp h
  obtain ⟨info, -, h⟩ := bind_eq_ok_iff.mp h
  obtain ⟨-, h⟩ := then_eq_ok_iff.mp h
  obtain ⟨entries, -, h⟩ := bind_eq_ok_iff.mp h
  obtain ⟨-, h⟩ := then_eq_ok_iff.mp h
  obtain ⟨stored, hstored, h⟩ := bind_eq_ok_iff.mp h
  cases h
  exact (applyMetaTransition_safe hback hrolls hkept (t := .claim ..) trivial (fun _ _ => by simp) hstored).map _

theorem mutateAgentMeta_safe (hback : ∀ info, lib.yaml.fromStr (lib.yaml.toStr info) = .ok info)
    (hrolls : scene.RollsBack) (hkept : Kept lib tree) {operation author : Text}
    {t : QuickSessionTransition} (hsilent : Silent t)
    (ht : ∀ actor now, t ≠ .archive actor now) :
    Safe lib tree (settle tree (mutateAgentMeta lib scene tree id author operation t)) := by
  refine safe_settle fun answer h => ?_
  obtain ⟨handler, -, h⟩ := bind_eq_ok_iff.mp h
  exact applyMetaTransition_safe hback hrolls hkept hsilent ht h

variable {request : SendRequest} {info next : QuickSessionMeta}

theorem leaveError_completed (m : QuickSessionMeta) :
    (leaveError m).lastCompletedInputLine = m.lastCompletedInputLine ∧
      (leaveError m).lastCompletedLine = m.lastCompletedLine := by
  rw [leaveError]
  split <;> exact ⟨rfl, rfl⟩

theorem sendTransition_ne_archive (line : Nat) (now actor at_ : Text) :
    sendTransition info request line now ≠ .archive actor at_ := by
  rw [sendTransition]
  split <;> simp

/-- A message that is sent continues the conversation. -/
theorem Conversation.send {messages : List Message} {m : Message} {now : Text}
    (h : Conversation info messages) (hline : m.lineNumber = messages.length + 1)
    (hauthor : m.author.name = request.author) (hpoint : m.pointTo = request.replyTo.getD 0)
    (happly : applyTransition info (sendTransition info request m.lineNumber now) = .ok (.applied, next)) :
    Conversation next (messages ++ [m]) := by
  have hnext := continues_applied happly
  rw [sendTransition] at happly
  split at happly
  · rename_i hcreator
    obtain ⟨-, -, -, -, -, heq⟩ := applyHumanMessage_applied happly
    obtain ⟨hinput, houtput⟩ := leaveError_completed info
    exact h.ask hnext hline (hauthor.trans hcreator) (by rw [heq]) (by rw [heq]; exact hinput)
      (by rw [heq]; exact houtput)
  · rename_i hcreator
    obtain ⟨hagent, -, -, -, -, -, -, -, heq⟩ := applyAgentReply_applied happly
    exact h.reply hnext hline (hauthor.trans hagent) (hagent ▸ hcreator) (by rw [heq]; rfl)
      (by rw [heq, hpoint]) (by rw [heq])

theorem revision_lt_applied {t : QuickSessionTransition}
    (happly : applyTransition info t = .ok (.applied, next)) : info.revision + 1 < u64Bound := by
  cases t with
  | humanMessage => exact (applyHumanMessage_applied happly).2.2.2.2.1
  | claim => exact (applyClaim_applied happly).2.2.2.2.2.2.1
  | setTitle => exact (applySetTitle_applied happly).2.2.2.2.1
  | setSummary => exact (applySetSummary_applied happly).2.2.2.2.1
  | agentReply => exact (applyAgentReply_applied happly).2.2.2.2.2.2.2.1
  | markError => exact (applyMarkError_applied happly).2.2.2.2.2.1
  | archive => exact (applyArchive_applied happly).2.2.1
  | unarchive => exact (applyUnarchive_applied happly).2.2.1

/-- As many lines as revisions at most: the number of the next line does not wrap. -/
theorem Conversation.nextLine_eq {messages : List Message} (h : Conversation info messages)
    (hroom : info.revision + 1 < u64Bound) :
    nextLine (lastLineNumber (messages.map (@ThreadEntry.message Json))) =
      messages.length + 1 := by
  have hcounted := h.counted
  rw [lastLineNumber_numbered h.numbered, nextLine, Nat.mod_eq_of_lt (by omega)]

theorem lookup_writeFiles_pair (p q : Path) (a b : Text) (x : Path) :
    (writeFiles tree [(p, a), (q, b)]).lookup x =
      if x = q then some b else if x = p then some a else tree.lookup x := by
  rw [writeFiles, List.foldl_cons, List.foldl_cons, List.foldl_nil, lookup_writeFile, lookup_writeFile]

/-- Both files written over and put back are as they were. -/
theorem agree_restored_pair {p q : Path} {a b : Text} (hp : tree.lookup p = some a)
    (hq : tree.lookup q = some b) (hother : ∀ x, x ≠ p → x ≠ q → after.lookup x = tree.lookup x) :
    Agree (writeFiles after [(p, a), (q, b)]) tree := by
  intro x
  rw [lookup_writeFiles_pair]
  split
  · rename_i hx
    rw [hx, hq]
  · rename_i hxq
    split
    · rename_i hx
      rw [hx, hp]
    · rename_i hxp
      exact hother x hxp hxq

theorem storeMessage_safe (hrolls : scene.RollsBack) {dir : Path} {oldInfo newInfo oldThread newThread : Text}
    (hinfo : tree.lookup (infoPath dir) = some oldInfo)
    (hthread : tree.lookup (discussionPath dir) = some oldThread)
    (heffect : Effect lib tree
      (writeFiles tree [(infoPath dir, newInfo), (discussionPath dir, newThread)])) :
    Safe lib tree (storeMessage scene tree dir oldInfo newInfo oldThread newThread) := by
  simp only [storeMessage, hrolls.restore_eq]
  split
  · exact .rolledBack (agree_restored_pair hinfo hthread fun x hx _ => by
      rw [lookup_writeFile, if_neg hx])
  · split
    · exact .rolledBack (agree_restored_pair hinfo hthread fun x hx hx' => by
        rw [lookup_writeFiles_pair, if_neg hx', if_neg hx])
    · exact .done heffect

/-- A message behind the thread, and the metadata that know of it. -/
theorem effect_send (hback : ∀ info, lib.yaml.fromStr (lib.yaml.toStr info) = .ok info)
    (hid : validateQuickSessionId id = .ok ()) (hs : Stores lib tree id s) (hactive : s.archived = false)
    {handler : Handler} (hauthor : handler.name = request.author) {line : Nat}
    (hline : line = s.messages.length + 1)
    (happly : applyTransition s.info (sendTransition s.info request line scene.now) = .ok (.applied, next))
    {own : ThreadFile Json} (hown : parseThread lib.json
      (formatMessage line (request.replyTo.getD 0) handler scene.now request.body) = .ok own) :
    Effect lib tree (writeFiles tree
      [(infoPath (relDir id s.archived), lib.yaml.toStr next), (discussionPath (relDir id s.archived),
        s.thread ++ formatMessage line (request.replyTo.getD 0) handler scene.now request.body)]) := by
  have hroom := revision_lt_applied happly
  have hcounted := hs.conversation.counted
  have hpoint : request.replyTo.getD 0 < u64Bound := by
    cases hreply : request.replyTo with
    | none => decide
    | some target => exact request.replyBound target hreply
  obtain ⟨text, hparsed⟩ := formatMessage_appends_one lib.json s.thread _ own line
    (request.replyTo.getD 0) handler scene.now request.body hs.parsed (.inr hs.ended) (by omega) hpoint
    scene.stamp hown
  have hother : ∀ p, p ≠ infoPath (relDir id s.archived) → p ≠ discussionPath (relDir id s.archived) →
      (writeFiles tree [(infoPath (relDir id s.archived), lib.yaml.toStr next),
        (discussionPath (relDir id s.archived), s.thread ++
          formatMessage line (request.replyTo.getD 0) handler scene.now request.body)]).lookup p =
        tree.lookup p := fun p hp hp' => by rw [lookup_writeFiles_pair, if_neg hp', if_neg hp]
  have hnext := continues_applied happly
  have hplace : s.archived = true ↔ next.status = .archived :=
    active_applied hs hactive happly fun actor now => sendTransition_ne_archive _ _ actor now
  let message : Message := ⟨line, request.replyTo.getD 0, handler, scene.now, text⟩
  refine .session (s := ⟨next, s.thread ++
      formatMessage line (request.replyTo.getD 0) handler scene.now request.body,
      s.messages ++ [message], s.archived⟩) hid
    (fun p hp => hother p (frame_of_under (under_infoPath _) hp)
      (frame_of_under (under_discussionPath _) hp)) ?_
    (.inr ⟨s, hs, ⟨[_], run_cons_eq_some.mpr ⟨next, perform_of_applied hs.valid happly, rfl⟩⟩,
      List.prefix_append _ _, List.prefix_append _ _⟩)
  exact
    { info := ⟨_, by rw [lookup_writeFiles_pair, if_neg (infoPath_ne _), if_pos rfl], hback next⟩
      thread := by rw [lookup_writeFiles_pair, if_pos rfl]
      parsed := by
        rw [hparsed, List.map_append]
        rfl
      ended := by
        have hend : (formatMessage line (request.replyTo.getD 0) handler scene.now
            request.body).getLast? = some '\n' := formatMessage_terminated ..
        simp [EndsInLf, List.getLast?_append, hend]
      id := hnext.id.trans hs.id
      valid := validMeta_applied hs.valid happly
      born := hs.born.applied hs.valid happly
      place := hplace
      conversation := hs.conversation.send hline hauthor rfl happly
      only := fun p hp hinfo hthread => (hother p hinfo hthread).trans (hs.only p hp hinfo hthread)
      free := fun p hp => (hother p
        (fun heq => absurd (relDir_place hp (heq ▸ under_infoPath (relDir id s.archived))) (by simp))
        (fun heq => absurd (relDir_place hp (heq ▸ under_discussionPath (relDir id s.archived)))
          (by simp))).trans (hs.free p hp) }

theorem sendMessage_safe (hback : ∀ info, lib.yaml.fromStr (lib.yaml.toStr info) = .ok info)
    (hrolls : scene.RollsBack) (hkept : Kept lib tree) {answer : Answer SendResponse}
    (h : sendMessage lib scene tree request = .ok answer) : Safe lib tree answer := by
  obtain ⟨-, h⟩ := then_eq_ok_iff.mp h
  obtain ⟨handler, hhandler, h⟩ := bind_eq_ok_iff.mp h
  obtain ⟨-, h⟩ := then_eq_ok_iff.mp h
  obtain ⟨located, hlocated, h⟩ := bind_eq_ok_iff.mp h
  obtain ⟨hid, s, hs, hactive, rfl⟩ := stores_of_locateActive hkept hlocated
  obtain ⟨info, hinfo, h⟩ := bind_eq_ok_iff.mp h
  rw [hs.loadMeta] at hinfo
  cases hinfo
  obtain ⟨oldThread, holdThread, h⟩ := bind_eq_ok_iff.mp h
  rw [readFile_ok_iff, hs.thread] at holdThread
  cases holdThread
  obtain ⟨entries, hentries, h⟩ := bind_eq_ok_iff.mp h
  rw [hs.loadThread] at hentries
  cases hentries
  obtain ⟨-, h⟩ := then_eq_ok_iff.mp h
  obtain ⟨⟨outcome, next⟩, happlied, h⟩ := bind_eq_ok_iff.mp h
  rw [mapError_eq_ok_iff] at happlied
  cases outcome with
  | duplicate line =>
    cases h
    exact .unchanged _
  | applied =>
    obtain ⟨hvalidated, h⟩ := then_eq_ok_iff.mp h
    rw [mapError_eq_ok_iff] at hvalidated
    obtain ⟨oldInfo, holdInfo, h⟩ := bind_eq_ok_iff.mp h
    rw [readFile_ok_iff] at holdInfo
    cases h
    obtain ⟨-, happly, -⟩ := applyQuickSessionTransition_applied happlied
    obtain ⟨old, own, -, hown, -⟩ := validateAppend_ok_iff.mp hvalidated
    have hline : nextLine (lastLineNumber (s.messages.map (@ThreadEntry.message Json))) =
        s.messages.length + 1 := hs.conversation.nextLine_eq (revision_lt_applied happly)
    exact (storeMessage_safe hrolls holdInfo hs.thread (effect_send hback hid hs hactive
      (ensureActiveUser_name hhandler) hline happly hown)).map _

section Moves

variable {a b : Bool}

theorem gitMvDir_eq (refusal : Text) {p : Path} (hp : Under (relDir id a) p)
    (hfull : (tree.lookup p).isSome = true) (hfree : ∀ p, Under (relDir id b) p → tree.lookup p = none) :
    gitMvDir refusal tree (relDir id a) (relDir id b) =
      .ok (moveDir tree (relDir id a) (relDir id b)) := by
  have hsource : hasDir tree (relDir id a) = true := by
    obtain ⟨rest, rfl⟩ := hp.exists_rest
    exact hasDir_iff.mpr ⟨rest, hfull⟩
  have htarget : hasDir tree (relDir id b) = false := by
    rw [← Bool.not_eq_true, hasDir_iff]
    rintro ⟨rest, hrest⟩
    rw [hfree _ (under_inDir _ rest)] at hrest
    cases hrest
  rw [gitMvDir, mvTarget_of_free htarget, if_pos ⟨hsource, htarget⟩]

/-- Moved to a free place and back, a directory is as it was. -/
theorem agree_moved_back (hne : a ≠ b) (hfree : ∀ p, Under (relDir id b) p → tree.lookup p = none) :
    Agree (moveDir (moveDir tree (relDir id a) (relDir id b)) (relDir id b) (relDir id a)) tree := by
  intro p
  by_cases ha : Under (relDir id a) p
  · obtain ⟨rest, rfl⟩ := ha.exists_rest
    rw [lookup_moveDir_target (relDir_apart hne.symm), lookup_moveDir_target (relDir_apart hne)]
  · by_cases hb : Under (relDir id b) p
    · obtain ⟨rest, rfl⟩ := hb.exists_rest
      rw [lookup_moveDir_source (relDir_apart hne.symm), hfree _ hb]
    · rw [lookup_moveDir_other hb ha, lookup_moveDir_other ha hb]

theorem infoPath_moved (hne : a ≠ b) (m : FileMap) :
    (moveDir m (relDir id a) (relDir id b)).lookup (infoPath (relDir id b)) =
      m.lookup (infoPath (relDir id a)) := by
  rw [infoPath_eq, infoPath_eq, lookup_moveDir_target (relDir_apart hne)]

theorem discussionPath_moved (hne : a ≠ b) (m : FileMap) :
    (moveDir m (relDir id a) (relDir id b)).lookup (discussionPath (relDir id b)) =
      m.lookup (discussionPath (relDir id a)) := by
  rw [discussionPath_eq, discussionPath_eq, lookup_moveDir_target (relDir_apart hne)]

/-- New metadata, and both files in the other place. -/
theorem effect_move (hback : ∀ info, lib.yaml.fromStr (lib.yaml.toStr info) = .ok info)
    (hid : validateQuickSessionId id = .ok ()) (hs : Stores lib tree id s)
    {t : QuickSessionTransition} (hsilent : Silent t)
    (happly : applyTransition s.info t = .ok (.applied, next))
    (hplace : (!s.archived) = true ↔ next.status = .archived) :
    Effect lib tree (moveDir (writeFile tree (infoPath (relDir id s.archived)) (lib.yaml.toStr next))
      (relDir id s.archived) (relDir id !s.archived)) := by
  have hne : s.archived ≠ !s.archived := by simp
  have hnext := continues_applied happly
  obtain ⟨hhuman, hinput, houtput⟩ := silent_applied hsilent happly
  let written := writeFile tree (infoPath (relDir id s.archived)) (lib.yaml.toStr next)
  have hwritten : ∀ p, p ≠ infoPath (relDir id s.archived) → written.lookup p = tree.lookup p :=
    fun p hp => by rw [lookup_writeFile, if_neg hp]
  refine .session (s := ⟨next, s.thread, s.messages, !s.archived⟩) hid (fun p hp => ?_) ?_
    (.inr ⟨s, hs, ⟨[t], run_cons_eq_some.mpr ⟨next, perform_of_applied hs.valid happly, rfl⟩⟩,
      List.prefix_refl _, List.prefix_refl _⟩)
  · exact (lookup_moveDir_other (hp _) (hp _)).trans
      (hwritten p (frame_of_under (under_infoPath _) hp))
  exact
    { info := ⟨_, by rw [infoPath_moved hne, lookup_writeFile, if_pos rfl], hback next⟩
      thread := by rw [discussionPath_moved hne, hwritten _ (infoPath_ne _).symm, hs.thread]
      parsed := hs.parsed
      ended := hs.ended
      id := hnext.id.trans hs.id
      valid := validMeta_applied hs.valid happly
      born := hs.born.applied hs.valid happly
      place := hplace
      conversation := hs.conversation.silent hnext hhuman hinput houtput
      only := by
        intro p hp hinfo hthread
        obtain ⟨rest, rfl⟩ := hp.exists_rest
        rw [infoPath_eq] at hinfo
        rw [discussionPath_eq] at hthread
        have hinfo' : inDir (relDir id s.archived) rest ≠ infoPath (relDir id s.archived) := by
          rw [infoPath_eq]
          exact fun heq => hinfo (by rw [inDir_injective heq])
        have hthread' : inDir (relDir id s.archived) rest ≠ discussionPath (relDir id s.archived) := by
          rw [discussionPath_eq]
          exact fun heq => hthread (by rw [inDir_injective heq])
        rw [lookup_moveDir_target (relDir_apart hne), hwritten _ hinfo',
          hs.only _ (under_inDir _ rest) hinfo' hthread']
      free := by
        intro p hp
        rw [Bool.not_not] at hp
        obtain ⟨rest, rfl⟩ := hp.exists_rest
        exact lookup_moveDir_source (relDir_apart hne) rest }

theorem moveFiles_safe (hrolls : scene.RollsBack) {verb oldInfo newInfo : Text} (hs : Stores lib tree id s)
    (hold : tree.lookup (infoPath (relDir id s.archived)) = some oldInfo)
    (heffect : Effect lib tree
      (moveDir (writeFile tree (infoPath (relDir id s.archived)) newInfo) (relDir id s.archived)
        (relDir id !s.archived))) :
    Safe lib tree (moveFiles scene tree verb (relDir id s.archived) (relDir id !s.archived) oldInfo
      newInfo) := by
  have hne : s.archived ≠ !s.archived := by simp
  simp only [moveFiles, restoreOne_eq hrolls, hrolls.movesBack, if_true]
  have hwritten : ∀ p, p ≠ infoPath (relDir id s.archived) →
      (writeFile tree (infoPath (relDir id s.archived)) newInfo).lookup p = tree.lookup p :=
    fun p hp => by rw [lookup_writeFile, if_neg hp]
  have hinfo : (writeFile tree (infoPath (relDir id s.archived)) newInfo).lookup
      (infoPath (relDir id s.archived)) = some newInfo := by rw [lookup_writeFile, if_pos rfl]
  generalize writeFile tree (infoPath (relDir id s.archived)) newInfo = written at *
  have hthread : written.lookup (discussionPath (relDir id s.archived)) = some s.thread :=
    (hwritten _ (infoPath_ne _).symm).trans hs.thread
  have hfree : ∀ p, Under (relDir id !s.archived) p → written.lookup p = none := fun p hp =>
    (hwritten p fun heq => hne (relDir_place (heq ▸ under_infoPath _) hp)).trans (hs.free p hp)
  have hput : ∀ m : FileMap, Agree m written →
      Agree (writeFile m (infoPath (relDir id s.archived)) oldInfo) tree := fun m hm =>
    agree_restored hold fun q hq => (hm q).trans (hwritten q hq)
  have hmove := gitMvDir_eq scene.gitWords (under_infoPath _) (by rw [hinfo]; rfl) hfree
  have hmovedInfo := (infoPath_moved hne written).trans hinfo
  have hmovedThread := (discussionPath_moved hne written).trans hthread
  have hback := agree_moved_back hne hfree
  have hemptied : ∀ p, Under (relDir id s.archived) p →
      (moveDir written (relDir id s.archived) (relDir id !s.archived)).lookup p = none := by
    intro p hp
    obtain ⟨rest, rfl⟩ := hp.exists_rest
    exact lookup_moveDir_source (relDir_apart hne) rest
  generalize moveDir written (relDir id s.archived) (relDir id !s.archived) = moved at *
  have hreturn := gitMvDir_eq scene.gitWords (under_infoPath _) (by rw [hmovedInfo]; rfl) hemptied
  have hcommit : commitFault scene moved
      [infoPath (relDir id !s.archived), discussionPath (relDir id !s.archived)] = scene.commitError := by
    rw [commitFault, if_pos]
    intro p hp
    rcases List.mem_pair.mp hp with rfl | rfl
    · rw [fileExists, hmovedInfo]
      rfl
    · rw [fileExists, hmovedThread]
      rfl
  split
  · exact .unchanged _
  · split
    · exact .rolledBack (hput written (agree_refl _))
    · cases hrefused : scene.moveError with
      | some e => exact .rolledBack (hput written (agree_refl _))
      | none =>
        simp only [Option.elim_none, hmove, hcommit]
        split
        · simp only [hreturn, Except.toOption, Option.getD_some]
          exact .rolledBack (hput _ hback)
        · exact .done heffect

theorem move_transition_applied {actor now : Text} {archive : Bool} {outcome : TransitionOutcome}
    (h : applyQuickSessionTransition info (if archive then .archive actor now
      else .unarchive actor now) = .ok (outcome, next)) : outcome = .applied := by
  rw [applyQuickSessionTransition, then_eq_ok_iff] at h
  obtain ⟨-, h⟩ := h
  obtain ⟨⟨first, result⟩, happly, h⟩ := bind_eq_ok_iff.mp h
  have hfirst : first = .applied := by
    cases archive with
    | true =>
      simp only [if_true, applyTransition, applyArchive, then_eq_ok_iff, finish_eq_ok_iff] at happly
      exact happly.2.2.2.1
    | false =>
      simp only [Bool.false_eq_true, if_false, applyTransition, applyUnarchive, then_eq_ok_iff,
        finish_eq_ok_iff] at happly
      exact happly.2.2.2.1
  subst hfirst
  simp only [if_true, then_eq_ok_iff] at h
  exact (Prod.mk.inj (Except.ok.inj h.2)).1.symm

theorem moveSession_safe (hback : ∀ info, lib.yaml.fromStr (lib.yaml.toStr info) = .ok info)
    (hrolls : scene.RollsBack) (hkept : Kept lib tree) {author : Text} {archive : Bool}
    {answer : Answer QuickSessionMeta}
    (h : moveSession lib scene tree id author archive = .ok answer) : Safe lib tree answer := by
  obtain ⟨handler, -, h⟩ := bind_eq_ok_iff.mp h
  obtain ⟨place, hplace, h⟩ := bind_eq_ok_iff.mp h
  cases place with
  | none => cases h
  | some located =>
    obtain ⟨hid, s, hs, rfl⟩ := stores_of_locate hkept hplace
    obtain ⟨hother, h⟩ := then_eq_ok_iff.mp h
    rw [refuse_eq_ok_iff] at hother
    obtain ⟨info, hinfo, h⟩ := bind_eq_ok_iff.mp h
    rw [hs.loadMeta] at hinfo
    cases hinfo
    obtain ⟨oldInfo, hold, h⟩ := bind_eq_ok_iff.mp h
    rw [readFile_ok_iff] at hold
    obtain ⟨⟨outcome, next⟩, happlied, h⟩ := bind_eq_ok_iff.mp h
    rw [mapError_eq_ok_iff] at happlied
    obtain ⟨target, htarget, h⟩ := bind_eq_ok_iff.mp h
    obtain ⟨-, rfl⟩ := sessionRelDir_ok_iff.mp htarget
    cases h
    have harchive : archive = !s.archived := Bool.eq_not.mpr (Ne.symm hother)
    subst harchive
    obtain rfl := move_transition_applied happlied
    obtain ⟨-, happly, -⟩ := applyQuickSessionTransition_applied happlied
    refine (moveFiles_safe hrolls hs hold (effect_move hback hid hs ?_ happly ?_)).map _
    · split <;> trivial
    · rw [archived_applied hs.valid happly]
      cases s.archived <;> simp

end Moves

section Creation

variable {creation : QuickSessionCreate.Request} {thread : Text}

theorem removeDirAll_absent {removes : Path → Bool} (hremoves : ∀ p, removes p = true)
    (habsent : Absent tree id) (hother : ∀ p, ¬ Under (relDir id false) p → after.lookup p = tree.lookup p) :
    Agree (removeDirAll removes after (relDir id false)) tree := by
  intro p
  simp only [removeDirAll, hremoves, and_true]
  rw [lookup_filter_key (fun p => ¬ (relDir id false ++ ['/']) <+: p)]
  split
  · rename_i hp
    exact hother p hp
  · rename_i hp
    exact (habsent false p (not_not.mp hp)).symm

/-- A new session is a fresh one that has heard its first question. -/
theorem newSession_started {world : World} {creator : Handler} {firstMessage : Text}
    (h : newSession lib world creation creator firstMessage = .ok (info, thread)) :
    ValidMeta (QuickSessionMeta.new creation.sessionId creation.agentId creation.author world.now) ∧
      applyTransition (QuickSessionMeta.new creation.sessionId creation.agentId creation.author world.now)
        (.humanMessage creation.author 1 none firstMessage world.now) = .ok (.applied, info) := by
  rw [newSession] at h
  obtain ⟨⟨outcome, next⟩, happlied, h⟩ := bind_eq_ok_iff.mp h
  rw [mapError_eq_ok_iff] at happlied
  have houtcome : outcome = .applied := by
    rw [applyQuickSessionTransition, then_eq_ok_iff] at happlied
    obtain ⟨-, hrest⟩ := happlied
    obtain ⟨⟨first, result⟩, happly, hrest⟩ := bind_eq_ok_iff.mp hrest
    rw [applyTransition, applyHumanMessage] at happly
    simp only [Option.isSome_none, Bool.false_eq_true, false_and, if_false, then_eq_ok_iff,
      finish_eq_ok_iff] at happly
    obtain ⟨-, -, -, -, -, rfl, -⟩ := happly
    simp only [if_true, then_eq_ok_iff] at hrest
    exact (Prod.mk.inj (Except.ok.inj hrest.2)).1.symm
  subst houtcome
  have hinfo : next = info := by
    simp only at h
    split at h
    · cases h
    · cases h
    · cases h
      rfl
  subst hinfo
  obtain ⟨hvalid, happly, -⟩ := applyQuickSessionTransition_applied happlied
  exact ⟨hvalid, happly⟩

theorem effect_create (hback : ∀ info, lib.yaml.fromStr (lib.yaml.toStr info) = .ok info)
    (hid : validateQuickSessionId creation.sessionId = .ok ()) (habsent : Absent tree creation.sessionId)
    {creator : Handler} {firstMessage : Text} (hcreator : creator.name = creation.author)
    (h : newSession lib (scene.world tree) creation creator firstMessage = .ok (info, thread)) :
    Effect lib tree (writeFile (writeFile tree (infoPath (relDir creation.sessionId false))
      (lib.yaml.toStr info)) (discussionPath (relDir creation.sessionId false)) thread) := by
  obtain ⟨rfl, opens, hvalid, hsession, hagent, hauthor⟩ := newSession_ok h
  obtain ⟨hfresh, happly⟩ := newSession_started h
  obtain ⟨-, -, -, -, -, hinfo⟩ := applyHumanMessage_applied happly
  have hparsed : parseThread lib.json (formatMessage 1 0 creator scene.now firstMessage) =
      .ok ⟨[.message ⟨1, 0, creator, scene.now, readBody firstMessage⟩]⟩ :=
    (parseThread_formatMessage_iff lib.json creator (by decide) (by decide) scene.stamp).mpr
      ⟨opens, rfl⟩
  have hlookup : ∀ p, (writeFile (writeFile tree (infoPath (relDir creation.sessionId false))
      (lib.yaml.toStr info)) (discussionPath (relDir creation.sessionId false))
        (formatMessage 1 0 creator scene.now firstMessage)).lookup p =
      if p = discussionPath (relDir creation.sessionId false) then
        some (formatMessage 1 0 creator scene.now firstMessage)
      else if p = infoPath (relDir creation.sessionId false) then some (lib.yaml.toStr info)
      else tree.lookup p := fun p => by rw [lookup_writeFile, lookup_writeFile]
  let message : Message := ⟨1, 0, creator, scene.now, readBody firstMessage⟩
  refine .session (s := ⟨info, formatMessage 1 0 creator scene.now firstMessage, [message], false⟩) hid
    (fun p hp => ?_) ?_ (.inl habsent)
  · refine (hlookup p).trans ?_
    rw [if_neg (frame_of_under (under_discussionPath _) hp), if_neg (frame_of_under (under_infoPath _) hp)]
  have hcontinues := continues_applied happly
  exact
    { info := ⟨_, (hlookup _).trans (by rw [if_neg (infoPath_ne _), if_pos rfl]), hback info⟩
      thread := (hlookup _).trans (by rw [if_pos rfl])
      parsed := hparsed
      ended := formatMessage_terminated ..
      id := hsession
      valid := validate_ok_iff.mp hvalid
      born := ⟨[_], run_cons_eq_some.mpr ⟨info, by
        rw [hsession, hagent, hauthor, hcontinues.createdAt]
        exact perform_of_applied hfresh happly, rfl⟩⟩
      place := by
        rw [archived_applied hfresh happly]
        simp
      conversation :=
        { numbered := rfl
          parties := List.forall_mem_singleton.mpr (.inl (hcreator.trans hauthor.symm))
          asked := by simp [hinfo]
          newest := fun line => by
            have hname : creator.name = info.createdBy := hcreator.trans hauthor.symm
            have hline : info.lastHumanLine = some 1 := by rw [hinfo]
            simp only [hline, Option.some.injEq, message, List.mem_singleton, exists_eq_left,
              forall_eq, hname, true_and, forall_const]
            omega
          answered := fun input output hinput _ => by
            rw [hinfo] at hinput
            cases hinput
          counted := by
            have hrevision : info.revision = 2 := by rw [hinfo]; rfl
            rw [hrevision]
            exact Nat.lt_succ_self 1 }
      only := fun p hp hp' hp'' => (hlookup p).trans (by
        rw [if_neg hp'', if_neg hp']
        exact habsent false p hp)
      free := fun p hp => (hlookup p).trans (by
        rw [if_neg fun heq => absurd (relDir_place hp
            (heq ▸ under_discussionPath (relDir creation.sessionId false))) (by simp),
          if_neg fun heq => absurd (relDir_place hp
            (heq ▸ under_infoPath (relDir creation.sessionId false))) (by simp)]
        exact habsent true p hp) }

theorem createSession_safe (hback : ∀ info, lib.yaml.fromStr (lib.yaml.toStr info) = .ok info)
    (hrolls : scene.RollsBack) (hkept : Kept lib tree) :
    Safe lib tree (Call.answer lib scene tree (.create creation)) := by
  rw [Call.answer, handleCreateQuickSession]
  cases hcreate : createSession lib (scene.world tree) creation with
  | error refusal => exact .unchanged (.error refusal)
  | ok answer =>
    obtain ⟨-, hcreate⟩ := then_eq_ok_iff.mp hcreate
    obtain ⟨-, hcreate⟩ := then_eq_ok_iff.mp hcreate
    obtain ⟨creator, hcreator, hcreate⟩ := bind_eq_ok_iff.mp hcreate
    obtain ⟨-, hcreate⟩ := then_eq_ok_iff.mp hcreate
    obtain ⟨agent, -, hcreate⟩ := bind_eq_ok_iff.mp hcreate
    obtain ⟨firstMessage, -, hcreate⟩ := bind_eq_ok_iff.mp hcreate
    obtain ⟨place, hplace, hcreate⟩ := bind_eq_ok_iff.mp hcreate
    cases place with
    | some located =>
      obtain ⟨existing, -, hcreate⟩ := bind_eq_ok_iff.mp hcreate
      cases hcreate
      exact .unchanged (.ok ())
    | none =>
      obtain ⟨⟨info, thread⟩, hnew, hcreate⟩ := bind_eq_ok_iff.mp hcreate
      obtain ⟨dir, hdir, hcreate⟩ := bind_eq_ok_iff.mp hcreate
      obtain ⟨hid, rfl⟩ := sessionRelDir_ok_iff.mp hdir
      have habsent := (absent_of_locate hkept hplace).2
      cases hcreate
      rw [writeSession]
      cases hwrite : (scene.world tree).writeError with
      | some e =>
        refine .rolledBack (removeDirAll_absent hrolls.removes habsent fun p hp => ?_)
        rw [lookup_writeFile, if_neg (ne_of_under (under_infoPath _) hp)]
        rfl
      | none =>
        cases hcommit : (scene.world tree).commitError with
        | some e =>
          refine .rolledBack (removeDirAll_absent hrolls.removes habsent fun p hp => ?_)
          rw [lookup_writeFile, lookup_writeFile, if_neg (ne_of_under (under_discussionPath _) hp),
            if_neg (ne_of_under (under_infoPath _) hp)]
          rfl
        | none =>
          exact .done (effect_create hback hid habsent (ensureActiveUser_name hcreator) hnew)

end Creation

/-- What every call does, if its rollback goes through: it brings one session further, or it leaves all
as it is; a call that fails leaves all as it is. -/
theorem call_safe (hback : ∀ info, lib.yaml.fromStr (lib.yaml.toStr info) = .ok info)
    (hrolls : scene.RollsBack) (hkept : Kept lib tree) (call : Call) :
    Safe lib tree (call.answer lib scene tree) := by
  cases call with
  | create creation => exact createSession_safe hback hrolls hkept
  | send request => exact (safe_settle fun _ h => sendMessage_safe hback hrolls hkept h).map _
  | claim id line attempt author => exact (safe_settle fun _ h => claimTurn_safe hback hrolls hkept h).map _
  | setTitle id title attempt author =>
    exact ((mutateAgentMeta_safe hback hrolls hkept (t := .setTitle ..) trivial (by simp)).map _).map _
  | setSummary id summary attempt author =>
    exact ((mutateAgentMeta_safe hback hrolls hkept (t := .setSummary ..) trivial (by simp)).map _).map _
  | markError id attempt diagnostic author =>
    exact ((mutateAgentMeta_safe hback hrolls hkept (t := .markError ..) trivial (by simp)).map _).map _
  | archive id author => exact ((safe_settle fun _ h => moveSession_safe hback hrolls hkept h).map _).map _
  | unarchive id author => exact ((safe_settle fun _ h => moveSession_safe hback hrolls hkept h).map _).map _

end Calls

section InRuns

variable {Json : Type} {lib : Library Json} {tree before after : FileMap} {id : Text} {s later : Session}
  {actions past : List Action}

theorem Evolves.trans {a b c : Session} (h : Evolves a b) (h' : Evolves b c) : Evolves a c := by
  obtain ⟨first, hfirst⟩ := h.lived
  obtain ⟨second, hsecond⟩ := h'.lived
  exact ⟨⟨first ++ second, run_append hfirst hsecond⟩, h.thread.trans h'.thread,
    h.messages.trans h'.messages⟩

/-- Nothing lies where sessions lie. -/
def NoSessions (tree : FileMap) : Prop := ∀ p, inSessions p = true → tree.lookup p = none

theorem kept_of_noSessions (h : NoSessions tree) : Kept lib tree :=
  fun _ _ => .inl fun _ p hp => h p (inSessions_of_under hp)

/-- If the action is a call, its rollback goes through. -/
def Action.RollsBack : Action → Prop
  | .call _ scene => scene.RollsBack
  | .elsewhere _ _ => True

theorem step_effect (hback : ∀ info, lib.yaml.fromStr (lib.yaml.toStr info) = .ok info)
    (hkept : Kept lib tree) {a : Action} (hrolls : a.RollsBack) (hstep : step lib tree a = some after) :
    Kept lib after ∧ ∀ id s, validateQuickSessionId id = .ok () → Stores lib tree id s →
      ∃ later, Stores lib after id later ∧ Evolves s later := by
  cases a with
  | call call scene =>
    cases hstep
    have heffect : Effect lib tree (call.answer lib scene tree).2 :=
      (call_safe hback hrolls hkept call).effect
    exact ⟨heffect.kept hkept, fun id s hid hs => heffect.evolves hid hs⟩
  | elsewhere path content =>
    rw [step] at hstep
    split at hstep
    · cases hstep
    · rename_i hout
      cases hstep
      have hsame : ∀ id a p, Under (relDir id a) p → (setEntry tree path content).lookup p = tree.lookup p := by
        intro id a p hp
        rw [lookup_setEntry, if_neg]
        rintro rfl
        exact hout (inSessions_of_under hp)
      refine ⟨fun id hid => ?_, fun id s _ hs => ⟨s, hs.congr (hsame id), Evolves.refl s⟩⟩
      rcases hkept id hid with habsent | ⟨s, hs⟩
      · exact .inl (habsent.congr (hsame id))
      · exact .inr ⟨s, hs.congr (hsame id)⟩

theorem run_kept (hback : ∀ info, lib.yaml.fromStr (lib.yaml.toStr info) = .ok info)
    (hkept : Kept lib tree) (hrolls : ∀ a ∈ actions, a.RollsBack)
    (hrun : run (step lib) tree actions = some after) : Kept lib after :=
  @run_invariant _ _ _ (fun _ a => a.RollsBack) (Kept lib)
    (fun _ _ _ hkept hrolls hstep => (step_effect hback hkept hrolls hstep).1) _ _ _ hrun
    (along_of_forall (fun a ha _ => hrolls a ha) tree) hkept

theorem run_evolves (hback : ∀ info, lib.yaml.fromStr (lib.yaml.toStr info) = .ok info)
    (hkept : Kept lib tree) (hrolls : ∀ a ∈ actions, a.RollsBack)
    (hrun : run (step lib) tree actions = some after) (hid : validateQuickSessionId id = .ok ())
    (hs : Stores lib tree id s) :
    ∃ later, Stores lib after id later ∧ Evolves s later := by
  induction actions generalizing tree s with
  | nil =>
    cases hrun
    exact ⟨s, hs, Evolves.refl s⟩
  | cons a actions ih =>
    obtain ⟨next, hstep, hrest⟩ := run_cons_eq_some.mp hrun
    rw [List.forall_mem_cons] at hrolls
    obtain ⟨hnext, hevolves⟩ := step_effect hback hkept hrolls.1 hstep
    obtain ⟨middle, hmiddle, hfirst⟩ := hevolves id s hid hs
    obtain ⟨later, hlater, hsecond⟩ := ih hnext hrolls.2 hrest hmiddle
    exact ⟨later, hlater, hfirst.trans hsecond⟩

/-- In every run of calls whose rollbacks go through, an id has nothing or one whole session in one
place, its metadata valid, come about by transitions and true of its thread; and a call that fails has
changed nothing. -/
theorem sessions_kept_whole (hback : ∀ info, lib.yaml.fromStr (lib.yaml.toStr info) = .ok info)
    (hempty : NoSessions tree) (hrolls : ∀ a ∈ actions, a.RollsBack)
    (hrun : run (step lib) tree actions = some after) :
    (∀ id, validateQuickSessionId id = .ok () → Absent after id ∨ ∃ s, Stores lib after id s) ∧
      ∀ (call : Call) (scene : Scene) (refusal : Refusal), scene.RollsBack →
        (call.answer lib scene after).1 = .error refusal → Agree (call.answer lib scene after).2 after := by
  have hkept := run_kept hback (kept_of_noSessions hempty) hrolls hrun
  exact ⟨hkept, fun call scene refusal hrolls => (call_safe hback hrolls hkept call).failed refusal⟩

/-- What transitions leave as it is, and what they only move forward. -/
theorem run_perform_continues {m next : QuickSessionMeta} {between : List QuickSessionTransition}
    (hrun : run perform m between = some next) : next.agentId = m.agentId ∧ next.createdBy = m.createdBy ∧
      next.createdAt = m.createdAt ∧ m.revision ≤ next.revision ∧
        NotBelow m.lastHumanLine next.lastHumanLine := by
  refine run_related (R := fun m next => next.agentId = m.agentId ∧ next.createdBy = m.createdBy ∧
    next.createdAt = m.createdAt ∧ m.revision ≤ next.revision ∧
      NotBelow m.lastHumanLine next.lastHumanLine) ?_ ?_ ?_ hrun
  · exact fun m => ⟨rfl, rfl, rfl, Nat.le_refl _, NotBelow.refl _⟩
  · rintro a b c ⟨hagent, hcreator, hat, hrevision, hhuman⟩ ⟨hagent', hcreator', hat', hrevision', hhuman'⟩
    refine ⟨hagent'.trans hagent, hcreator'.trans hcreator, hat'.trans hat, hrevision.trans hrevision',
      fun x hx => ?_⟩
    obtain ⟨y, hy, hxy⟩ := hhuman x hx
    obtain ⟨z, hz, hyz⟩ := hhuman' y hy
    exact ⟨z, hz, hxy.trans hyz⟩
  · intro m t next hstep
    rcases perform_cases hstep with ⟨-, happly, -⟩ | rfl
    · have hnext := continues_applied happly
      exact ⟨hnext.agentId, hnext.createdBy, hnext.createdAt, by rw [hnext.revision]; omega, hnext.human⟩
    · exact ⟨rfl, rfl, rfl, Nat.le_refl _, NotBelow.refl _⟩

/-- A session is never lost, and what has been said in it stays said: archived or not, its thread only
grows at the end, and its metadata move on by transitions between the same two parties. -/
theorem sessions_only_grow (hback : ∀ info, lib.yaml.fromStr (lib.yaml.toStr info) = .ok info)
    (hempty : NoSessions tree) (hearlier : ∀ a ∈ past, a.RollsBack)
    (hpast : run (step lib) tree past = some before) (hrolls : ∀ a ∈ actions, a.RollsBack)
    (hrun : run (step lib) before actions = some after) (hid : validateQuickSessionId id = .ok ())
    (hs : Stores lib before id s) :
    ∃ later, Stores lib after id later ∧ s.thread <+: later.thread ∧ s.messages <+: later.messages ∧
      (∃ between, run perform s.info between = some later.info) ∧
        later.info.agentId = s.info.agentId ∧ later.info.createdBy = s.info.createdBy ∧
          later.info.createdAt = s.info.createdAt ∧ s.info.revision ≤ later.info.revision := by
  have hkept := run_kept hback (kept_of_noSessions hempty) hearlier hpast
  obtain ⟨later, hlater, hevolves⟩ := run_evolves hback hkept hrolls hrun hid hs
  obtain ⟨between, hbetween⟩ := hevolves.lived
  obtain ⟨hagent, hcreator, hat, hrevision, -⟩ := run_perform_continues hbetween
  exact ⟨later, hlater, hevolves.thread, hevolves.messages, ⟨between, hbetween⟩, hagent, hcreator, hat,
    hrevision⟩

end InRuns

section Samples

def archivedInfo : QuickSessionMeta :=
  { sampleInfo "hello".toList with
    status := .archived
    archivedFrom := some .needsTitle
    archivedAt := some newYear
    revision := 3 }

def callTable : List (QuickSessionMeta × Text) :=
  [(sampleInfo "hello".toList, sampleYaml "needs_title" [] "hello" "2"),
    (archivedInfo, sampleYaml "archived"
      ["archived_at: 20260101T000000Z".toList, "archived_from: needs_title".toList] "hello" "3")]

def callLibrary : Library SmallJson :=
  { sampleLibrary with
    yaml :=
      { fromStr := fun t =>
          (TableCodec.tableValue callTable t).elim (.error "no session".toList) .ok
        toStr := TableCodec.tableText callTable } }

theorem callLibrary_back (info : QuickSessionMeta) :
    callLibrary.yaml.fromStr (callLibrary.yaml.toStr info) = .ok info := by
  have hdistinct : TableCodec.Distinct callTable := by decide +kernel
  simp only [callLibrary, TableCodec.tableValue_tableText hdistinct, Option.elim_some]

def sampleScene : Scene where
  users := ["alice".toList, "bob".toList]
  now := newYear
  stamp := newYear_shape
  writeError := none
  parentError := none
  moveError := none
  commitError := none
  gitWords := "fatal: bad source".toList
  rollback := ⟨fun _ => true, true, fun _ => true⟩

theorem sampleScene_rollsBack : sampleScene.RollsBack := ⟨fun _ => rfl, rfl, fun _ => rfl⟩

def sampleTree : FileMap := [(userPath "alice".toList, []), (userPath "bob".toList, [])]

theorem sampleTree_noSessions : NoSessions sampleTree := by
  intro p hp
  have hkeys : ∀ e ∈ sampleTree, inSessions e.1 = false := by decide +kernel
  cases hfound : sampleTree.lookup p with
  | none => rfl
  | some content => exact absurd hp (by simp [hkeys _ (mem_of_lookup hfound)])

def beginSession : Action := .call (.create (sampleRequest "hello".toList)) sampleScene

def archiveSession : Action :=
  .call (.archive QuickSessionCreate.sampleSession "alice".toList) sampleScene

theorem beginSession_rollsBack : ∀ a ∈ [beginSession], a.RollsBack :=
  List.forall_mem_singleton.mpr sampleScene_rollsBack

theorem archiveSession_rollsBack : ∀ a ∈ [archiveSession], a.RollsBack :=
  List.forall_mem_singleton.mpr sampleScene_rollsBack

theorem sampleSession_valid : validateQuickSessionId QuickSessionCreate.sampleSession = .ok () := by
  decide +kernel

theorem sessions_kept_whole_archived :
    ∃ after, run (step callLibrary) sampleTree [beginSession, archiveSession] = some after ∧
      fileExists after (infoPath (relDir QuickSessionCreate.sampleSession true)) = true ∧
      (∀ id, validateQuickSessionId id = .ok () →
        Absent after id ∨ ∃ s, Stores callLibrary after id s) ∧
      ∀ (call : Call) (scene : Scene) (refusal : Refusal), scene.RollsBack →
        (call.answer callLibrary scene after).1 = .error refusal →
          Agree (call.answer callLibrary scene after).2 after := by
  have hrun : run (step callLibrary) sampleTree [beginSession, archiveSession] =
      some ((run (step callLibrary) sampleTree [beginSession, archiveSession]).getD []) := rfl
  exact ⟨_, hrun, by decide +kernel,
    sessions_kept_whole callLibrary_back sampleTree_noSessions
      (List.forall_mem_cons.mpr
        ⟨beginSession_rollsBack _ (List.mem_singleton_self _), archiveSession_rollsBack⟩) hrun⟩

theorem sessions_only_grow_archived :
    ∃ before after s, run (step callLibrary) sampleTree [beginSession] = some before ∧
      run (step callLibrary) before [archiveSession] = some after ∧
      Stores callLibrary before QuickSessionCreate.sampleSession s ∧
      ∃ later, Stores callLibrary after QuickSessionCreate.sampleSession later ∧
        s.thread <+: later.thread ∧ s.messages <+: later.messages ∧
        (∃ between, run perform s.info between = some later.info) ∧
        later.info.agentId = s.info.agentId ∧ later.info.createdBy = s.info.createdBy ∧
        later.info.createdAt = s.info.createdAt ∧ s.info.revision ≤ later.info.revision := by
  have hbegun : run (step callLibrary) sampleTree [beginSession] =
      some ((run (step callLibrary) sampleTree [beginSession]).getD []) := rfl
  have hmoved : run (step callLibrary) ((run (step callLibrary) sampleTree [beginSession]).getD [])
      [archiveSession] = some ((run (step callLibrary) ((run (step callLibrary) sampleTree
        [beginSession]).getD []) [archiveSession]).getD []) := rfl
  have hkept := run_kept callLibrary_back (kept_of_noSessions sampleTree_noSessions)
    beginSession_rollsBack hbegun
  rcases hkept _ sampleSession_valid with habsent | ⟨s, hs⟩
  · have hthread := habsent false _ (under_discussionPath _)
    exact absurd hthread (by decide +kernel)
  · exact ⟨_, _, s, hbegun, hmoved, hs,
      sessions_only_grow callLibrary_back sampleTree_noSessions beginSession_rollsBack hbegun
        archiveSession_rollsBack hmoved sampleSession_valid hs⟩

end Samples

end QuickSessionCalls
