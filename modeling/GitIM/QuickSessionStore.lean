import GitIM.QuickSession
import GitIM.FileTree
import GitIM.Runs

/-!
# The quick sessions of the browser

The store holds the details of sessions that the browser has read, an overlay with the
activity of each, and the activity that came before the detail it belongs to. Requests
are on their way in any number and are answered in any order; activity events come in
between, and the workspace may be switched at any time.
-/

namespace QuickSessionStore

open TextLines FileTree Runs QuickSession

section Sessions

inductive EventType where
  | toolUse
  | stream
  | status
  | thinking
  | done
  | error
  | usage
  | burned
  | steering
  | steered
  | retrying
  deriving DecidableEq

structure AgentActivityEvent where
  workspaceId : Option Text
  eventType : EventType
  detail : Text
  inQuickSession : Bool
  sessionId : Option Text
  attemptId : Option Text
  contextGeneration : Option Nat
  sessionRevision : Option Nat
  deriving DecidableEq

/-- An event with all that makes it one of a quick session. -/
structure Activity where
  event : AgentActivityEvent
  sessionId : Text
  attemptId : Text
  contextGeneration : Nat
  sessionRevision : Nat
  deriving DecidableEq

def isScopedQuickSessionActivity (event : AgentActivityEvent) : Option Activity :=
  match event.sessionId, event.attemptId, event.contextGeneration, event.sessionRevision with
  | some sessionId, some attemptId, some contextGeneration, some sessionRevision =>
    if event.inQuickSession = true ∧ sessionId ≠ [] ∧ attemptId ≠ [] then
      some ⟨event, sessionId, attemptId, contextGeneration, sessionRevision⟩
    else none
  | _, _, _, _ => none

structure Detail where
  sessionMeta : QuickSessionMeta
  archived : Bool
  deriving DecidableEq

inductive OverlayStatus where
  | session (status : QuickSessionStatus)
  | event (eventType : EventType)
  | queued
  deriving DecidableEq

structure Overlay where
  status : OverlayStatus
  revision : Nat
  attemptId : Option Text
  contextGeneration : Option Nat
  latestEvent : Option Activity
  queuedInputLine : Option Nat
  deriving DecidableEq

/-- The sessions of a workspace, with the events received since it became the active one. -/
structure Sessions where
  detailById : Text → Option Detail
  runtimeById : Text → Option Overlay
  pendingActivityById : List (Text × Activity)
  events : List Activity

def maxPendingActivities : Nat := 64

def detailOwnsActivity (d : Detail) (e : Activity) : Bool :=
  let m := d.sessionMeta
  let ownsActiveAttempt := decide (m.status = .running ∧ m.attemptId = some e.attemptId)
  let ownsCompletedAttempt := decide (m.status ≠ .running ∧ m.status ≠ .archived ∧
    (e.event.eventType = .usage ∨ e.event.eventType = .done) ∧
    m.lastCompletedAttemptId = some e.attemptId)
  let ownsFailedAttempt := decide (m.status ≠ .running ∧ m.status ≠ .archived ∧
    e.event.eventType = .error ∧ m.lastFailedAttemptId = some e.attemptId)
  ownsActiveAttempt || ownsCompletedAttempt || ownsFailedAttempt

def activityMatchesRuntimeGeneration (runtime : Option Overlay) (e : Activity) : Bool :=
  match runtime with
  | none => true
  | some r => ¬(r.attemptId = some e.attemptId ∧ r.contextGeneration.isSome = true ∧
      r.contextGeneration ≠ some e.contextGeneration)

def activityCanUpdateRuntime (runtime : Option Overlay) (e : Activity)
    (allowAttemptReplacement : Bool) : Bool :=
  (allowAttemptReplacement || match runtime with
    | none => true
    | some r => decide (r.attemptId = none ∨ r.attemptId = some e.attemptId)) &&
    activityMatchesRuntimeGeneration runtime e

/-- The line of a message that is still queued; `none` if there is none. -/
def queuedInput (d : Detail) (runtime : Option Overlay) : Option Nat :=
  match runtime.bind Overlay.queuedInputLine with
  | none => none
  | some line =>
    if d.archived = true ∨ d.sessionMeta.status = .archived ∨ d.sessionMeta.status = .error then none
    else if d.sessionMeta.processingInputLine.getD 0 < line ∧
        d.sessionMeta.lastCompletedInputLine.getD 0 < line then some line
    else none

def runtimeFromActivity (d : Detail) (current : Option Overlay) (e : Activity) : Overlay where
  status := if queuedInput d current = none then .event e.event.eventType else .queued
  revision := max d.sessionMeta.revision
    (max ((current.map Overlay.revision).getD 0) e.sessionRevision)
  attemptId := some e.attemptId
  contextGeneration := some e.contextGeneration
  latestEvent := some e
  queuedInputLine := queuedInput d current

def withoutPendingActivity (pending : List (Text × Activity)) (id : Text) :
    List (Text × Activity) :=
  pending.filter fun entry => entry.1 ≠ id

def archivedDetailFromResponse (d : Detail) (revision : Nat) (archivedAt : Text) : Detail :=
  let m := d.sessionMeta
  let archivedFrom : QuickSessionStatus :=
    if m.status = .running then (if m.title.getD [] = [] then .needsTitle else .active) else m.status
  { archived := true
    sessionMeta := { m with
      status := .archived
      revision := max m.revision revision
      updatedAt := archivedAt
      archivedAt := some archivedAt
      archivedFrom := some archivedFrom
      processingInputLine := none
      processingStartedAt := none
      attemptId := none } }

/-- The buffer with an event; `none` if the event is older than what is buffered. -/
def withPendingActivity (pending : List (Text × Activity)) (e : Activity) :
    Option (List (Text × Activity)) :=
  match pending.lookup e.sessionId with
  | some current =>
    if e.sessionRevision < current.sessionRevision then none
    else if e.attemptId = current.attemptId ∧ e.contextGeneration ≠ current.contextGeneration then
      none
    else if e.sessionRevision = current.sessionRevision ∧ e.attemptId ≠ current.attemptId then none
    else some (upsert (fun _ => e) e.sessionId pending)
  | none =>
    let next := if maxPendingActivities ≤ pending.length then pending.drop 1 else pending
    some (upsert (fun _ => e) e.sessionId next)

def pendingAfterAppliedActivity (pending : List (Text × Activity)) (d : Detail) (e : Activity) :
    List (Text × Activity) :=
  match pending.lookup e.sessionId with
  | none => pending
  | some current =>
    if current.sessionRevision ≤ d.sessionMeta.revision ∨
        (current.attemptId = e.attemptId ∧ current.contextGeneration = e.contextGeneration ∧
          current.sessionRevision ≤ e.sessionRevision) then
      withoutPendingActivity pending e.sessionId
    else pending

def runtimeWithQueuedInput (current : Option Overlay) (detail : Option Detail)
    (inputLine revision : Nat) : Overlay :=
  let alreadyOwns := fun (d : Detail) => decide (revision ≤ d.sessionMeta.revision ∧
    (inputLine ≤ d.sessionMeta.processingInputLine.getD 0 ∨
      inputLine ≤ d.sessionMeta.lastCompletedInputLine.getD 0 ∨ d.archived = true ∨
      d.sessionMeta.status = .archived))
  match detail.filter alreadyOwns with
  | some d =>
    current.getD ⟨.session d.sessionMeta.status, max d.sessionMeta.revision revision, none, none,
      none, none⟩
  | none =>
    let preservesEarlierAttempt := detail.any fun d => decide (d.sessionMeta.status = .running ∧
      d.sessionMeta.processingInputLine.getD 0 < inputLine)
    let kept := if preservesEarlierAttempt then current else none
    { status := .queued
      revision := max ((current.map Overlay.revision).getD 0) revision
      attemptId := kept.bind Overlay.attemptId
      contextGeneration := kept.bind Overlay.contextGeneration
      latestEvent := kept.bind Overlay.latestEvent
      queuedInputLine := some inputLine }

/-- A buffered event that a detail makes due. -/
def replayedActivity (t : Sessions) (d : Detail) : Option Activity :=
  (t.pendingActivityById.lookup d.sessionMeta.id).filter fun e =>
    decide (e.sessionRevision ≤ d.sessionMeta.revision) && detailOwnsActivity d e &&
      activityCanUpdateRuntime (t.runtimeById d.sessionMeta.id) e true

def preservesPreviousAttempt (d : Detail) (r : Overlay) : Bool :=
  match r.attemptId with
  | none => false
  | some attempt =>
    match d.sessionMeta.attemptId with
    | some running => running = attempt
    | none => d.sessionMeta.lastCompletedAttemptId = some attempt ∨
        d.sessionMeta.lastFailedAttemptId = some attempt

/-- The overlay of a detail that replaces the stored one. -/
def runtimeFromDetail (t : Sessions) (d : Detail) : Overlay :=
  let previous := t.runtimeById d.sessionMeta.id
  let fresh : Overlay := ⟨.session d.sessionMeta.status, d.sessionMeta.revision,
    d.sessionMeta.attemptId.filter fun attempt => attempt ≠ [], none, none, none⟩
  match replayedActivity t d with
  | some e => runtimeFromActivity d previous e
  | none =>
    match previous with
    | none => fresh
    | some r =>
      if (queuedInput d previous).isSome then
        { r with revision := max r.revision d.sessionMeta.revision }
      else if preservesPreviousAttempt d r then
        { r with
          status := .session d.sessionMeta.status
          revision := d.sessionMeta.revision }
      else fresh

/-- The stored detail is newer. -/
def isOutdated (t : Sessions) (d : Detail) : Bool :=
  (t.detailById d.sessionMeta.id).any fun current =>
    decide (d.sessionMeta.revision < current.sessionMeta.revision)

def Sessions.applyDetail (t : Sessions) (d : Detail) : Sessions :=
  let id := d.sessionMeta.id
  let resolved := (t.pendingActivityById.lookup id).any fun e =>
    (replayedActivity t d).isSome || d.archived || decide (e.sessionRevision ≤ d.sessionMeta.revision)
  { t with
    detailById := Function.update t.detailById id (some d)
    runtimeById := Function.update t.runtimeById id (some (runtimeFromDetail t d))
    pendingActivityById :=
      if resolved then withoutPendingActivity t.pendingActivityById id else t.pendingActivityById }

def Sessions.queueInput (t : Sessions) (id : Text) (inputLine revision : Nat) : Sessions :=
  let queued := runtimeWithQueuedInput (t.runtimeById id) (t.detailById id) inputLine revision
  { t with runtimeById := Function.update t.runtimeById id (some queued) }

def Sessions.archive (t : Sessions) (id : Text) (revision : Nat) (archivedAt : Text) : Sessions :=
  let archived := (t.detailById id).map fun d => archivedDetailFromResponse d revision archivedAt
  { t with
    detailById := Function.update t.detailById id archived
    runtimeById := Function.update t.runtimeById id none
    pendingActivityById := withoutPendingActivity t.pendingActivityById id }

def Sessions.bufferActivity (t : Sessions) (e : Activity) : Sessions :=
  match withPendingActivity t.pendingActivityById e with
  | none => t
  | some pending => { t with pendingActivityById := pending }

/-- An event that belongs to the active workspace, if there is one. -/
def Sessions.applyActivity (t : Sessions) (active : Bool) (e : Activity) : Sessions :=
  match t.detailById e.sessionId with
  | none => if active = false then t else t.bufferActivity e
  | some d =>
    let previous := t.runtimeById e.sessionId
    let updated := runtimeFromActivity d previous e
    if detailOwnsActivity d e = false then
      if d.archived = false ∧ d.sessionMeta.revision < e.sessionRevision then t.bufferActivity e
      else t
    else if activityCanUpdateRuntime previous e false = false then t
    else { t with
      runtimeById := Function.update t.runtimeById e.sessionId (some updated)
      pendingActivityById := pendingAfterAppliedActivity t.pendingActivityById d e }

/-- An event is received, whether it is applied or not. -/
def Sessions.receive (t : Sessions) (active : Bool) (e : Activity) : Sessions :=
  let applied := t.applyActivity active e
  { applied with events := applied.events ++ [e] }

end Sessions

section Store

inductive Operation where
  | list
  | detail
  | create
  | send
  | archive
  deriving DecidableEq

structure Request where
  generation : Nat
  sequence : Nat
  deriving DecidableEq

structure PendingCreate where
  slug : Text
  agentId : Text
  firstMessage : Text
  sessionId : Text
  deriving DecidableEq

structure PendingSend where
  slug : Text
  sessionId : Text
  body : Text
  requestId : Text
  deriving DecidableEq

structure ListItem where
  id : Text
  title : Option Text
  agentId : Text
  createdBy : Text
  status : QuickSessionStatus
  updatedAt : Text
  lastMessagePreview : Text
  revision : Nat
  archived : Bool
  deriving DecidableEq

/-- What an operation awaits. -/
inductive Task where
  | list (slug : Text)
  | detail (slug id : Text)
  | create (slug : Text) (pending : PendingCreate)
  | send (slug id : Text) (pending : PendingSend)
  | sendRead (slug id : Text)
  | archive (slug id : Text)
  | unarchive (slug : Text)
  | finishArchive (slug : Text)
  deriving DecidableEq

def Task.operation : Task → Operation
  | .list _ => .list
  | .detail _ _ => .detail
  | .create _ _ => .create
  | .send _ _ _ | .sendRead _ _ => .send
  | .archive _ _ | .unarchive _ | .finishArchive _ => .archive

def Task.slug : Task → Text
  | .list slug | .detail slug _ | .create slug _ | .send slug _ _ | .sendRead slug _
  | .archive slug _ | .unarchive slug | .finishArchive slug => slug

/-- An operation on its way. It is late if the workspace has been switched or an operation of its
kind has begun since. -/
structure Flight where
  task : Task
  request : Request
  late : Bool

structure State where
  workspaceGeneration : Nat
  operationSequence : Operation → Nat
  activeSlug : Option Text
  items : List ListItem
  selectedId : Option Text
  sessions : Sessions
  showArchived : Bool
  loading : Operation → Bool
  errors : Operation → Option Text
  pendingCreate : Option PendingCreate
  pendingSend : Option PendingSend
  flights : List Flight

/-- How a request ends; a rejection may have a message. -/
inductive Response where
  | thrown (message : Option Text)
  | failed (error : Option Text)
  | sessions (items : List ListItem)
  | session (d : Detail)
  | created (d : Detail) (lineNumber : Nat)
  | acknowledged (lineNumber revision : Nat)
  | archived (revision : Nat) (archivedAt : Text)
  | unarchived
  | resumed

variable (localeCompare : Text → Text → Ordering)

def markLate (late : Flight → Bool) (flights : List Flight) : List Flight :=
  flights.map fun f => { f with late := f.late || late f }

def resetForWorkspaceSwitch (s : State) : State where
  workspaceGeneration := s.workspaceGeneration + 1
  operationSequence := fun operation => s.operationSequence operation + 1
  activeSlug := none
  items := []
  selectedId := none
  sessions := ⟨fun _ => none, fun _ => none, [], []⟩
  showArchived := false
  loading := fun _ => false
  errors := fun _ => none
  pendingCreate := none
  pendingSend := none
  flights := markLate (fun _ => true) s.flights

def activateSlug (s : State) (slug : Text) : State :=
  if s.activeSlug = some slug then s
  else
    { (if s.activeSlug.isSome then resetForWorkspaceSwitch s else s) with activeSlug := some slug }

def setOperation (s : State) (operation : Operation) (loading : Bool) (error : Option Text) : State :=
  { s with
    loading := Function.update s.loading operation loading
    errors := Function.update s.errors operation error }

/-- Begin an operation and await what its first request is answered. -/
def beginOperation (s : State) (task : Task) : State :=
  let operation := task.operation
  let sequence := s.operationSequence operation + 1
  { s with
    operationSequence := Function.update s.operationSequence operation sequence
    flights := markLate (fun f => f.task.operation = operation) s.flights ++
      [⟨task, ⟨s.workspaceGeneration, sequence⟩, false⟩] }

def operationIsCurrent (s : State) (f : Flight) : Bool :=
  f.request.generation = s.workspaceGeneration ∧
    f.request.sequence = s.operationSequence f.task.operation ∧ s.activeSlug = some f.task.slug

def State.await (s : State) (f : Flight) (task : Task) : State :=
  { s with flights := s.flights ++ [{ f with task := task }] }

def itemFromDetail (d : Detail) : ListItem :=
  let m := d.sessionMeta
  ⟨m.id, m.title, m.agentId, m.createdBy, m.status, m.updatedAt, m.lastMessagePreview, m.revision,
    d.archived⟩

def sortQuickSessionItems (items : List ListItem) : List ListItem :=
  items.mergeSort fun a b =>
    ((localeCompare b.updatedAt a.updatedAt).then (localeCompare a.id b.id)).isLE

/-- The store after a detail; `none` if the id of its session is not valid. -/
def applyDetail (s : State) (d : Detail) : Option State :=
  if isOutdated s.sessions d then some s
  else if validateOpaqueId d.sessionMeta.id "qs-".toList = false then none
  else
    let without := s.items.filter fun item => item.id ≠ d.sessionMeta.id
    some { s with
      items := sortQuickSessionItems localeCompare
        (if d.archived = s.showArchived then without ++ [itemFromDetail d] else without)
      sessions := s.sessions.applyDetail d }

def invalidQuickSessionId : Text := "Invalid Quick Session id".toList

def refreshList (s : State) (slug : Text) : State :=
  setOperation (beginOperation (activateSlug s slug) (.list slug)) .list true none

def openSession (s : State) (slug id : Text) : State :=
  let begun := beginOperation (activateSlug s slug) (.detail slug id)
  setOperation { begun with selectedId := some id } .detail true none

/-- A create with the payload of the pending one uses its id again. -/
def pendingCreateFor (pending : Option PendingCreate) (slug agentId firstMessage newId : Text) :
    PendingCreate :=
  (pending.filter fun p => p.slug = slug ∧ p.agentId = agentId ∧ p.firstMessage = firstMessage).getD
    ⟨slug, agentId, firstMessage, newId⟩

def pendingSendFor (pending : Option PendingSend) (slug id body newId : Text) : PendingSend :=
  (pending.filter fun p => p.slug = slug ∧ p.sessionId = id ∧ p.body = body).getD
    ⟨slug, id, body, newId⟩

def create (s : State) (slug agentId firstMessage newId : Text) : State :=
  let active := activateSlug s slug
  let pending := pendingCreateFor active.pendingCreate slug agentId firstMessage newId
  { setOperation (beginOperation active (.create slug pending)) .create true none with
    pendingCreate := some pending }

def send (s : State) (slug id body newId : Text) : State :=
  let active := activateSlug s slug
  let pending := pendingSendFor active.pendingSend slug id body newId
  { setOperation (beginOperation active (.send slug id pending)) .send true none with
    pendingSend := some pending }

def archive (s : State) (slug id : Text) : State :=
  setOperation (beginOperation (activateSlug s slug) (.archive slug id)) .archive true none

def unarchive (s : State) (slug : Text) : State :=
  setOperation (beginOperation (activateSlug s slug) (.unarchive slug)) .archive true none

def fallback : Task → Text
  | .list _ => "Failed to list Quick Sessions".toList
  | .detail _ _ | .sendRead _ _ => "Failed to read Quick Session".toList
  | .create _ _ => "Failed to create Quick Session".toList
  | .send _ _ _ => "Failed to send Quick Session message".toList
  | .archive _ _ => "Failed to archive Quick Session".toList
  | .unarchive _ | .finishArchive _ => "Failed to unarchive Quick Session".toList

/-- The end of the second part of a send. -/
def finishSend (s : State) (id : Text) (detailError : Option Text) : State :=
  let shown := if s.selectedId = some id then
    { s with errors := Function.update s.errors .detail detailError } else s
  setOperation shown .send false none

/-- An operation that is current goes on with the answer to its request. -/
def proceed (s : State) (f : Flight) : Response → Option State
  | .thrown message | .failed message =>
    let error := message.getD (fallback f.task)
    match f.task with
    | .sendRead _ id => some (finishSend s id (some error))
    | .finishArchive _ => none
    | task => some (setOperation s task.operation false (some error))
  | .sessions incoming =>
    match f.task with
    | .list _ =>
      let items := incoming.map fun item =>
        ((s.items.reverse.find? fun current => current.id = item.id).filter
          fun current => decide (item.revision < current.revision)).getD item
      some (setOperation { s with items := sortQuickSessionItems localeCompare items }
        .list false none)
    | _ => none
  | .session d =>
    match f.task with
    | .detail _ _ =>
      match applyDetail localeCompare s d with
      | none => some (setOperation s .detail false (some invalidQuickSessionId))
      | some applied => some (setOperation applied .detail false none)
    | .sendRead _ id =>
      match applyDetail localeCompare s d with
      | none => some (finishSend s id (some invalidQuickSessionId))
      | some applied => some (finishSend applied id none)
    | _ => none
  | .created d lineNumber =>
    match f.task with
    | .create _ pending =>
      match applyDetail localeCompare s d with
      | none => some (setOperation s .create false (some invalidQuickSessionId))
      | some applied => some (setOperation { applied with
        selectedId := some d.sessionMeta.id
        sessions := applied.sessions.queueInput d.sessionMeta.id lineNumber d.sessionMeta.revision
        pendingCreate := applied.pendingCreate.filter fun p => p.sessionId ≠ pending.sessionId }
        .create false none)
    | _ => none
  | .acknowledged lineNumber revision =>
    match f.task with
    | .send slug id pending => some ({ s with
      sessions := s.sessions.queueInput id lineNumber revision
      pendingSend := s.pendingSend.filter fun p => p.requestId ≠ pending.requestId }.await f
        (.sendRead slug id))
    | _ => none
  | .archived revision archivedAt =>
    match f.task with
    | .archive slug id =>
      let archived := { s with sessions := s.sessions.archive id revision archivedAt }
      some ((refreshList archived slug).await f (.finishArchive slug))
    | _ => none
  | .unarchived =>
    match f.task with
    | .unarchive slug => some ((refreshList s slug).await f (.finishArchive slug))
    | _ => none
  | .resumed =>
    match f.task with
    | .finishArchive _ => some (setOperation s .archive false none)
    | _ => none

def applyActivityEvent (s : State) (event : AgentActivityEvent) : State :=
  match isScopedQuickSessionActivity event with
  | none => s
  | some e =>
    if event.workspaceId.isSome = true ∧ event.workspaceId ≠ s.activeSlug then s
    else
      { s with sessions := s.sessions.receive s.activeSlug.isSome e }

inductive Action where
  | refreshList (slug : Text)
  | openSession (slug id : Text)
  | create (slug agentId firstMessage newId : Text)
  | send (slug id body newId : Text)
  | archive (slug id : Text)
  | unarchive (slug : Text)
  | refreshFromPoll (slug : Text) (changed : List Text)
  | respond (n : Nat) (response : Response)
  | event (event : AgentActivityEvent)
  | switchWorkspace
  | setShowArchived (showArchived : Bool)
  | select (id : Option Text)

def refreshFromPoll (s : State) (slug : Text) (changed : List Text) : State :=
  let active := activateSlug s slug
  if changed = [] then active
  else
    match active.selectedId with
    | none => refreshList active slug
    | some id =>
      if id ∈ changed then openSession (refreshList active slug) slug id
      else refreshList active slug

def step (s : State) : Action → Option State
  | .refreshList slug => some (refreshList s slug)
  | .openSession slug id => some (openSession s slug id)
  | .create slug agentId firstMessage newId => some (create s slug agentId firstMessage newId)
  | .send slug id body newId => some (send s slug id body newId)
  | .archive slug id => some (archive s slug id)
  | .unarchive slug => some (unarchive s slug)
  | .refreshFromPoll slug changed => some (refreshFromPoll s slug changed)
  | .respond n response =>
    match s.flights[n]? with
    | none => none
    | some f =>
      let landed := { s with flights := s.flights.eraseIdx n }
      if operationIsCurrent s f = false then some landed
      else proceed localeCompare landed f response
  | .event event => some (applyActivityEvent s event)
  | .switchWorkspace => some (resetForWorkspaceSwitch s)
  | .setShowArchived showArchived => some { s with showArchived := showArchived }
  | .select id => some { s with selectedId := id }

end Store

section Property
variable (localeCompare : Text → Text → Ordering)

/-- No detail goes back to an earlier revision. -/
def Forward (t t' : Sessions) : Prop :=
  ∀ id d, t.detailById id = some d →
    ∃ d', t'.detailById id = some d' ∧ d.sessionMeta.revision ≤ d'.sessionMeta.revision

/-- An event that has become the latest one of a session is owned by its detail. -/
def Owned (t t' : Sessions) : Prop :=
  ∀ id r e, t'.runtimeById id = some r → r.latestEvent = some e →
    (∃ previous, t.runtimeById id = some previous ∧ previous.latestEvent = some e) ∨
      ∃ d, t'.detailById id = some d ∧ detailOwnsActivity d e = true ∧
        d.sessionMeta.status ≠ .archived

/-- What an action may do to the store. -/
structure Sound (s : State) (a : Action) (s' : State) : Prop where
  forward : s'.workspaceGeneration = s.workspaceGeneration → Forward s.sessions s'.sessions
  ignored : ∀ n response f, a = .respond n response → s.flights[n]? = some f → f.late = true →
    s' = { s with flights := s.flights.eraseIdx n }
  bounded : s'.sessions.pendingActivityById.length ≤ maxPendingActivities
  owned : Owned s.sessions s'.sessions
  accepted : ∀ event e d, a = .event event → isScopedQuickSessionActivity event = some e →
    (event.workspaceId = none ∨ event.workspaceId = s.activeSlug) →
    s.sessions.detailById e.sessionId = some d → d.sessionMeta.status = .running →
    d.sessionMeta.attemptId = some e.attemptId →
    (∀ earlier ∈ s.sessions.events, earlier.sessionId = e.sessionId →
      earlier.attemptId = e.attemptId → earlier.contextGeneration = e.contextGeneration) →
    ∃ r, s'.sessions.runtimeById e.sessionId = some r ∧ r.latestEvent = some e

def StoreSound (s : State) (a : Action) : Prop :=
  ∀ s', step localeCompare s a = some s' → Sound s a s'

/-- A detail reports another attempt than the overlay has while the overlay is kept for a queued
message. -/
def Strays (t : Sessions) (d : Detail) : Prop :=
  isOutdated t d = false ∧ d.sessionMeta.status = .running ∧ replayedActivity t d = none ∧
    (queuedInput d (t.runtimeById d.sessionMeta.id)).isSome = true ∧
    ∃ running ∈ d.sessionMeta.attemptId,
      ∃ kept ∈ (t.runtimeById d.sessionMeta.id).bind Overlay.attemptId, kept ≠ running

def bringsDetail : Task → Response → Option Detail
  | .detail _ _, .session d | .sendRead _ _, .session d | .create _ _, .created d _ => some d
  | _, _ => none

/-- The condition: no answer that is taken brings such a detail. -/
def Steady (s : State) : Action → Prop
  | .respond n response => ∀ f ∈ s.flights[n]?, operationIsCurrent s f = true →
      ∀ d ∈ bringsDetail f.task response, ¬ Strays s.sessions d
  | _ => True

/-- Nothing has been read or received. -/
structure Initial (s : State) : Prop where
  sessions : s.sessions = ⟨fun _ => none, fun _ => none, [], []⟩
  flights : s.flights = []

end Property

section Details
variable {t : Sessions} {d : Detail} {e : Activity}

/-- What holds of the sessions between two actions. -/
structure Good (t : Sessions) : Prop where
  bounded : t.pendingActivityById.length ≤ maxPendingActivities
  buffered : ∀ entry ∈ t.pendingActivityById, entry.2.sessionId = entry.1 ∧ entry.2 ∈ t.events
  context : ∀ id r attempt generation, t.runtimeById id = some r → r.attemptId = some attempt →
    r.contextGeneration = some generation → ∃ e ∈ t.events, e.sessionId = id ∧
      e.attemptId = attempt ∧ e.contextGeneration = generation
  attempt : ∀ id d r running, t.detailById id = some d → d.sessionMeta.status = .running →
    d.sessionMeta.attemptId = some running → t.runtimeById id = some r →
      r.attemptId = none ∨ r.attemptId = some running

theorem not_archived_of_owns (h : detailOwnsActivity d e = true) :
    d.sessionMeta.status ≠ .archived := by
  rw [detailOwnsActivity, Bool.or_eq_true, Bool.or_eq_true, decide_eq_true_eq, decide_eq_true_eq,
    decide_eq_true_eq] at h
  rcases h with (⟨hrunning, -⟩ | ⟨-, hnot, -⟩) | ⟨-, hnot, -⟩
  · rw [hrunning]
    exact fun hfalse => (by cases hfalse)
  · exact hnot
  · exact hnot

/-- The attempt of a running session owns nothing but its own events. -/
theorem attempt_of_owns (h : detailOwnsActivity d e = true)
    (hrunning : d.sessionMeta.status = .running) : d.sessionMeta.attemptId = some e.attemptId := by
  rw [detailOwnsActivity, Bool.or_eq_true, Bool.or_eq_true, decide_eq_true_eq, decide_eq_true_eq,
    decide_eq_true_eq] at h
  rcases h with (⟨-, hattempt⟩ | ⟨hnot, -⟩) | ⟨hnot, -⟩
  · exact hattempt
  · exact absurd hrunning hnot
  · exact absurd hrunning hnot

theorem replayedActivity_eq_some (h : replayedActivity t d = some e) :
    t.pendingActivityById.lookup d.sessionMeta.id = some e ∧ detailOwnsActivity d e = true := by
  rw [replayedActivity, Option.filter_eq_some_iff, Bool.and_eq_true, Bool.and_eq_true] at h
  exact ⟨h.1, h.2.1.2⟩

/-- The overlay of a detail in its four cases. -/
theorem runtimeFromDetail_cases (t : Sessions) (d : Detail) :
    (∃ e, replayedActivity t d = some e ∧
      runtimeFromDetail t d = runtimeFromActivity d (t.runtimeById d.sessionMeta.id) e) ∨
    (∃ r, t.runtimeById d.sessionMeta.id = some r ∧ replayedActivity t d = none ∧
      (runtimeFromDetail t d).attemptId = r.attemptId ∧
      (runtimeFromDetail t d).contextGeneration = r.contextGeneration ∧
      (runtimeFromDetail t d).latestEvent = r.latestEvent ∧
      ((queuedInput d (some r)).isSome = true ∨ preservesPreviousAttempt d r = true)) ∨
    ((runtimeFromDetail t d).attemptId = d.sessionMeta.attemptId.filter (fun attempt => attempt ≠ []) ∧
      (runtimeFromDetail t d).contextGeneration = none ∧
      (runtimeFromDetail t d).latestEvent = none) := by
  rw [runtimeFromDetail]
  cases hreplayed : replayedActivity t d with
  | some e => exact .inl ⟨e, rfl, rfl⟩
  | none =>
    cases hprevious : t.runtimeById d.sessionMeta.id with
    | none => exact .inr (.inr ⟨rfl, rfl, rfl⟩)
    | some r =>
      dsimp only
      split
      · rename_i hqueued
        exact .inr (.inl ⟨r, rfl, rfl, rfl, rfl, rfl, .inl hqueued⟩)
      · split
        · rename_i hpreserves
          exact .inr (.inl ⟨r, rfl, rfl, rfl, rfl, rfl, .inr hpreserves⟩)
        · exact .inr (.inr ⟨rfl, rfl, rfl⟩)

theorem length_withoutPendingActivity (pending : List (Text × Activity)) (id : Text) :
    (withoutPendingActivity pending id).length ≤ pending.length :=
  List.length_filter_le _ pending

theorem pending_applyDetail (t : Sessions) (d : Detail) :
    (t.applyDetail d).pendingActivityById.Sublist t.pendingActivityById := by
  rw [Sessions.applyDetail]
  dsimp only
  split
  · exact List.filter_sublist
  · exact List.Sublist.refl _

theorem applyDetail_good (h : Good t) (hnew : isOutdated t d = false) (hsteady : ¬ Strays t d) :
    Good (t.applyDetail d) := by
  have hpending := pending_applyDetail t d
  refine ⟨Nat.le_trans hpending.length_le h.bounded, fun entry hentry => ?_,
    fun id r attempt generation hr hattempt hgeneration => ?_,
    fun id d' r running hd hstatus hattempt hr => ?_⟩
  · exact h.buffered entry (hpending.subset hentry)
  · change Function.update t.runtimeById d.sessionMeta.id (some (runtimeFromDetail t d)) id =
      some r at hr
    by_cases hid : id = d.sessionMeta.id
    · subst hid
      rw [Function.update_self] at hr
      cases hr
      rcases runtimeFromDetail_cases t d with
        ⟨e, hreplayed, heq⟩ | ⟨r, hprevious, -, hsame, hsame', -⟩ | ⟨-, hnone, -⟩
      · rw [heq] at hattempt hgeneration
        cases hattempt
        cases hgeneration
        have hmem := h.buffered _ (mem_of_lookup (replayedActivity_eq_some hreplayed).1)
        exact ⟨e, hmem.2, hmem.1, rfl, rfl⟩
      · exact h.context _ r attempt generation hprevious (hsame ▸ hattempt) (hsame' ▸ hgeneration)
      · exact (by cases hnone.symm.trans hgeneration)
    · rw [Function.update_of_ne hid] at hr
      exact h.context id r attempt generation hr hattempt hgeneration
  · change Function.update t.detailById d.sessionMeta.id (some d) id = some d' at hd
    change Function.update t.runtimeById d.sessionMeta.id (some (runtimeFromDetail t d)) id =
      some r at hr
    by_cases hid : id = d.sessionMeta.id
    · subst hid
      rw [Function.update_self] at hd hr
      cases hd
      cases hr
      rcases runtimeFromDetail_cases t d with
        ⟨e, hreplayed, heq⟩ | ⟨r, hprevious, hnone, hsame, -, -, hcase⟩ | ⟨hfresh, -, -⟩
      · right
        rw [heq]
        have howns := attempt_of_owns (replayedActivity_eq_some hreplayed).2 hstatus
        rw [hattempt] at howns
        exact congrArg some (Option.some.inj howns).symm
      · rw [hsame]
        cases hkept : r.attemptId with
        | none => exact .inl rfl
        | some kept =>
          right
          rcases hcase with hqueued | hpreserves
          · -- A queued message keeps the overlay only for the attempt that is running.
            by_contra hne
            refine hsteady ⟨hnew, hstatus, hnone, ?_, running, hattempt, kept, ?_, ?_⟩
            · rw [hprevious]
              exact hqueued
            · rw [hprevious]
              exact hkept
            · exact fun heq => hne (congrArg some heq)
          · rw [preservesPreviousAttempt, hkept, hattempt] at hpreserves
            exact congrArg some (of_decide_eq_true hpreserves).symm
      · rw [hfresh, hattempt]
        by_cases hempty : running = []
        · subst hempty
          exact .inl rfl
        · right
          rw [Option.filter_some, if_pos (decide_eq_true hempty)]
    · rw [Function.update_of_ne hid] at hd hr
      exact h.attempt id d' r running hd hstatus hattempt hr

theorem applyDetail_forward (hnew : isOutdated t d = false) : Forward t (t.applyDetail d) := by
  intro id current hcurrent
  change ∃ d', Function.update t.detailById d.sessionMeta.id (some d) id = some d' ∧ _
  by_cases hid : id = d.sessionMeta.id
  · subst hid
    rw [Function.update_self]
    refine ⟨d, rfl, ?_⟩
    rw [isOutdated, hcurrent] at hnew
    exact Nat.le_of_not_lt (of_decide_eq_false hnew)
  · rw [Function.update_of_ne hid]
    exact ⟨current, hcurrent, Nat.le_refl _⟩

theorem applyDetail_owned (t : Sessions) (d : Detail) : Owned t (t.applyDetail d) := by
  intro id r e hr hlatest
  change Function.update t.runtimeById d.sessionMeta.id (some (runtimeFromDetail t d)) id =
    some r at hr
  by_cases hid : id = d.sessionMeta.id
  · subst hid
    rw [Function.update_self] at hr
    cases hr
    rcases runtimeFromDetail_cases t d with
      ⟨e', hreplayed, heq⟩ | ⟨r, hprevious, -, -, -, hsame, -⟩ | ⟨-, -, hnone⟩
    · rw [heq] at hlatest
      cases hlatest
      have howns := (replayedActivity_eq_some hreplayed).2
      exact .inr ⟨d, Function.update_self _ _ _, howns, not_archived_of_owns howns⟩
    · exact .inl ⟨r, hprevious, hsame ▸ hlatest⟩
    · exact (by cases hnone.symm.trans hlatest)
  · rw [Function.update_of_ne hid] at hr
    exact .inl ⟨r, hr, hlatest⟩

end Details

section Events
variable {t : Sessions} {e : Activity} {id : Text}

theorem runtimeWithQueuedInput_cases (current : Option Overlay) (detail : Option Detail)
    (inputLine revision : Nat) :
    (∃ r, current = some r ∧
      (runtimeWithQueuedInput current detail inputLine revision).attemptId = r.attemptId ∧
      (runtimeWithQueuedInput current detail inputLine revision).contextGeneration =
        r.contextGeneration ∧
      (runtimeWithQueuedInput current detail inputLine revision).latestEvent = r.latestEvent) ∨
    ((runtimeWithQueuedInput current detail inputLine revision).attemptId = none ∧
      (runtimeWithQueuedInput current detail inputLine revision).contextGeneration = none ∧
      (runtimeWithQueuedInput current detail inputLine revision).latestEvent = none) := by
  rw [runtimeWithQueuedInput]
  dsimp only
  split
  · cases current with
    | none => exact .inr ⟨rfl, rfl, rfl⟩
    | some r => exact .inl ⟨r, rfl, rfl, rfl, rfl⟩
  · split
    · cases current with
      | none => exact .inr ⟨rfl, rfl, rfl⟩
      | some r => exact .inl ⟨r, rfl, rfl, rfl, rfl⟩
    · exact .inr ⟨rfl, rfl, rfl⟩

theorem queueInput_good (h : Good t) (inputLine revision : Nat) :
    Good (t.queueInput id inputLine revision) := by
  have hcases := runtimeWithQueuedInput_cases (t.runtimeById id) (t.detailById id) inputLine revision
  refine ⟨h.bounded, h.buffered, fun id' r attempt generation hr hattempt hgeneration => ?_,
    fun id' d r running hd hstatus hattempt hr => ?_⟩
  · rw [Sessions.queueInput] at hr
    dsimp only at hr
    by_cases hid : id' = id
    · subst hid
      rw [Function.update_self] at hr
      cases hr
      rcases hcases with ⟨r, hcurrent, hsame, hsame', -⟩ | ⟨hnone, -, -⟩
      · exact h.context id' r attempt generation hcurrent (hsame ▸ hattempt) (hsame' ▸ hgeneration)
      · exact (by cases hnone.symm.trans hattempt)
    · rw [Function.update_of_ne hid] at hr
      exact h.context id' r attempt generation hr hattempt hgeneration
  · rw [Sessions.queueInput] at hd hr
    dsimp only at hd hr
    by_cases hid : id' = id
    · subst hid
      rw [Function.update_self] at hr
      cases hr
      rcases hcases with ⟨r, hcurrent, hsame, -, -⟩ | ⟨hnone, -, -⟩
      · rw [hsame]
        exact h.attempt id' d r running hd hstatus hattempt hcurrent
      · exact .inl hnone
    · rw [Function.update_of_ne hid] at hr
      exact h.attempt id' d r running hd hstatus hattempt hr

theorem queueInput_latest {r : Overlay} {inputLine revision : Nat} {id' : Text}
    (hr : (t.queueInput id inputLine revision).runtimeById id' = some r)
    (hlatest : r.latestEvent = some e) :
    ∃ previous, t.runtimeById id' = some previous ∧ previous.latestEvent = some e := by
  rw [Sessions.queueInput] at hr
  dsimp only at hr
  by_cases hid : id' = id
  · subst hid
    rw [Function.update_self] at hr
    cases hr
    rcases runtimeWithQueuedInput_cases (t.runtimeById id') (t.detailById id') inputLine revision with
      ⟨r, hcurrent, -, -, hsame⟩ | ⟨-, -, hnone⟩
    · exact ⟨r, hcurrent, hsame ▸ hlatest⟩
    · exact (by cases hnone.symm.trans hlatest)
  · rw [Function.update_of_ne hid] at hr
    exact ⟨r, hr, hlatest⟩

theorem archive_good (h : Good t) (revision : Nat) (archivedAt : Text) :
    Good (t.archive id revision archivedAt) := by
  have hruntime : ∀ {id' r}, (t.archive id revision archivedAt).runtimeById id' = some r →
      id' ≠ id ∧ t.runtimeById id' = some r := by
    intro id' r hr
    rw [Sessions.archive] at hr
    dsimp only at hr
    by_cases hid : id' = id
    · rw [hid, Function.update_self] at hr
      cases hr
    · rw [Function.update_of_ne hid] at hr
      exact ⟨hid, hr⟩
  refine ⟨Nat.le_trans (length_withoutPendingActivity _ id) h.bounded,
    fun entry hentry => h.buffered entry (List.mem_filter.mp hentry).1,
    fun id' r attempt generation hr => h.context id' r attempt generation (hruntime hr).2,
    fun id' d r running hd hstatus hattempt hr => ?_⟩
  obtain ⟨hid, hr⟩ := hruntime hr
  refine h.attempt id' d r running ?_ hstatus hattempt hr
  rw [Sessions.archive] at hd
  dsimp only at hd
  rw [Function.update_of_ne hid] at hd
  exact hd

theorem archive_forward (t : Sessions) (id : Text) (revision : Nat) (archivedAt : Text) :
    Forward t (t.archive id revision archivedAt) := by
  intro id' d hd
  rw [Sessions.archive]
  dsimp only
  by_cases hid : id' = id
  · subst hid
    rw [Function.update_self, hd]
    exact ⟨_, rfl, Nat.le_max_left _ _⟩
  · rw [Function.update_of_ne hid]
    exact ⟨d, hd, Nat.le_refl _⟩

theorem archive_owned (t : Sessions) (id : Text) (revision : Nat) (archivedAt : Text) :
    Owned t (t.archive id revision archivedAt) := by
  intro id' r e hr hlatest
  rw [Sessions.archive] at hr
  dsimp only at hr
  by_cases hid : id' = id
  · rw [hid, Function.update_self] at hr
    cases hr
  · rw [Function.update_of_ne hid] at hr
    exact .inl ⟨r, hr, hlatest⟩

theorem mem_upsert_const {m : List (Text × Activity)} {entry : Text × Activity}
    (h : entry ∈ upsert (fun _ => e) id m) : entry = (id, e) ∨ entry ∈ m := by
  induction m with
  | nil => exact .inl (List.mem_singleton.mp h)
  | cons head rest ih =>
    rw [upsert] at h
    split at h
    · rename_i hid
      rcases List.mem_cons.mp h with rfl | hrest
      · exact .inl (by rw [hid])
      · exact .inr (List.mem_cons_of_mem _ hrest)
    · rcases List.mem_cons.mp h with rfl | hrest
      · exact .inr List.mem_cons_self
      · rcases ih hrest with heq | hmem
        · exact .inl heq
        · exact .inr (List.mem_cons_of_mem _ hmem)

/-- The buffer stays within its bound, and gains no event but the one that is buffered. -/
theorem withPendingActivity_spec {pending after : List (Text × Activity)}
    (h : withPendingActivity pending e = some after)
    (hbound : pending.length ≤ maxPendingActivities) :
    after.length ≤ maxPendingActivities ∧
      ∀ entry ∈ after, entry = (e.sessionId, e) ∨ entry ∈ pending := by
  rw [withPendingActivity] at h
  split at h
  · rename_i current hcurrent
    have hkey : e.sessionId ∈ pending.map Prod.fst := lookup_isSome_iff.mp ⟨current, hcurrent⟩
    have hlength : (upsert (fun _ => e) e.sessionId pending).length = pending.length := by
      have hkeys := congrArg List.length (keys_upsert (f := fun _ => e) hkey)
      rw [List.length_map, List.length_map] at hkeys
      exact hkeys
    split at h
    · cases h
    · split at h
      · cases h
      · split at h
        · cases h
        · cases h
          exact ⟨Nat.le_trans (Nat.le_of_eq hlength) hbound, fun entry => mem_upsert_const⟩
  · rename_i hnone
    have hkey : e.sessionId ∉ pending.map Prod.fst := by
      intro hmem
      obtain ⟨v, hv⟩ := lookup_isSome_iff.mpr hmem
      exact (by cases hnone.symm.trans hv)
    dsimp only at h
    split at h
    · rename_i hfull
      cases h
      have hdropped : e.sessionId ∉ (pending.drop 1).map Prod.fst := fun hmem =>
        hkey ((List.map_subset Prod.fst (List.drop_subset 1 pending)) hmem)
      constructor
      · rw [upsert_of_not_mem hdropped, List.length_append, List.length_drop, List.length_singleton]
        have hpositive : 1 ≤ maxPendingActivities := by decide
        omega
      · intro entry hentry
        rcases mem_upsert_const hentry with heq | hmem
        · exact .inl heq
        · exact .inr (List.drop_subset 1 pending hmem)
    · rename_i hfull
      cases h
      refine ⟨?_, fun entry => mem_upsert_const⟩
      rw [upsert_of_not_mem hkey, List.length_append, List.length_singleton]
      omega

/-- An event that may update the overlay, or is buffered, or is dropped. -/
theorem applyActivity_cases (t : Sessions) (active : Bool) (e : Activity) :
    t.applyActivity active e = t ∨ t.applyActivity active e = t.bufferActivity e ∨
      ∃ d, t.detailById e.sessionId = some d ∧ detailOwnsActivity d e = true ∧
        t.applyActivity active e = { t with
          runtimeById := Function.update t.runtimeById e.sessionId
            (some (runtimeFromActivity d (t.runtimeById e.sessionId) e))
          pendingActivityById := pendingAfterAppliedActivity t.pendingActivityById d e } := by
  rw [Sessions.applyActivity]
  split
  · split
    · exact .inl rfl
    · exact .inr (.inl rfl)
  · rename_i d hd
    dsimp only
    split
    · split
      · exact .inr (.inl rfl)
      · exact .inl rfl
    · rename_i howns
      split
      · exact .inl rfl
      · rw [Bool.not_eq_false] at howns
        exact .inr (.inr ⟨d, hd, howns, rfl⟩)

theorem pendingAfterAppliedActivity_sublist (pending : List (Text × Activity)) (d : Detail)
    (e : Activity) : (pendingAfterAppliedActivity pending d e).Sublist pending := by
  rw [pendingAfterAppliedActivity]
  split
  · exact List.Sublist.refl _
  · split
    · exact List.filter_sublist
    · exact List.Sublist.refl _

/-- Another event does not hurt. -/
theorem Good.record (h : Good t) : Good { t with events := t.events ++ [e] } := by
  refine ⟨h.bounded, fun entry hentry => ?_, fun id r attempt generation hr ha hg => ?_, h.attempt⟩
  · obtain ⟨hkey, hmem⟩ := h.buffered entry hentry
    exact ⟨hkey, List.mem_append_left _ hmem⟩
  · obtain ⟨earlier, hmem, hsame⟩ := h.context id r attempt generation hr ha hg
    exact ⟨earlier, List.mem_append_left _ hmem, hsame⟩

theorem receive_good (h : Good t) (active : Bool) : Good (t.receive active e) := by
  rw [Sessions.receive]
  rcases applyActivity_cases t active e with heq | heq | ⟨d, hd, howns, heq⟩
  · rw [heq]
    exact h.record
  · rw [heq, Sessions.bufferActivity]
    split
    · exact h.record
    · rename_i pending hpending
      obtain ⟨hlength, hmem⟩ := withPendingActivity_spec hpending h.bounded
      refine ⟨hlength, fun entry hentry => ?_, h.record.context, h.attempt⟩
      rcases hmem entry hentry with rfl | hold
      · exact ⟨rfl, List.mem_append_right _ List.mem_cons_self⟩
      · exact h.record.buffered entry hold
  · rw [heq]
    have hpending := pendingAfterAppliedActivity_sublist t.pendingActivityById d e
    refine ⟨Nat.le_trans hpending.length_le h.bounded,
      fun entry hentry => h.record.buffered entry (hpending.subset hentry),
      fun id r attempt generation hr hattempt hgeneration => ?_,
      fun id d' r running hd' hstatus hattempt hr => ?_⟩
    · dsimp only at hr
      by_cases hid : id = e.sessionId
      · subst hid
        rw [Function.update_self] at hr
        cases hr
        cases hattempt
        cases hgeneration
        exact ⟨e, List.mem_append_right _ List.mem_cons_self, rfl, rfl, rfl⟩
      · rw [Function.update_of_ne hid] at hr
        exact h.record.context id r attempt generation hr hattempt hgeneration
    · dsimp only at hr hd'
      by_cases hid : id = e.sessionId
      · subst hid
        rw [Function.update_self] at hr
        cases hr
        rw [hd] at hd'
        cases hd'
        right
        exact (attempt_of_owns howns hstatus).symm.trans hattempt
      · rw [Function.update_of_ne hid] at hr
        exact h.attempt id d' r running hd' hstatus hattempt hr

theorem receive_details (t : Sessions) (active : Bool) (e : Activity) :
    (t.receive active e).detailById = t.detailById := by
  rw [Sessions.receive]
  rcases applyActivity_cases t active e with heq | heq | ⟨d, -, -, heq⟩
  · rw [heq]
  · rw [heq, Sessions.bufferActivity]
    split <;> rfl
  · rw [heq]

theorem receive_owned (t : Sessions) (active : Bool) (e : Activity) :
    Owned t (t.receive active e) := by
  intro id r e' hr hlatest
  rw [receive_details]
  rw [Sessions.receive] at hr
  rcases applyActivity_cases t active e with heq | heq | ⟨d, hd, howns, heq⟩
  · rw [heq] at hr
    exact .inl ⟨r, hr, hlatest⟩
  · rw [heq, Sessions.bufferActivity] at hr
    split at hr
    · exact .inl ⟨r, hr, hlatest⟩
    · exact .inl ⟨r, hr, hlatest⟩
  · rw [heq] at hr
    dsimp only at hr
    by_cases hid : id = e.sessionId
    · subst hid
      rw [Function.update_self] at hr
      cases hr
      cases hlatest
      exact .inr ⟨d, hd, howns, not_archived_of_owns howns⟩
    · rw [Function.update_of_ne hid] at hr
      exact .inl ⟨r, hr, hlatest⟩

/-- An event of the running attempt with the generation of the earlier ones is applied. -/
theorem receive_accepted {d : Detail} (h : Good t) (active : Bool)
    (hd : t.detailById e.sessionId = some d) (hstatus : d.sessionMeta.status = .running)
    (hattempt : d.sessionMeta.attemptId = some e.attemptId)
    (hearlier : ∀ earlier ∈ t.events, earlier.sessionId = e.sessionId →
      earlier.attemptId = e.attemptId → earlier.contextGeneration = e.contextGeneration) :
    ∃ r, (t.receive active e).runtimeById e.sessionId = some r ∧ r.latestEvent = some e := by
  have howns : detailOwnsActivity d e = true := by
    rw [detailOwnsActivity, decide_eq_true ⟨hstatus, hattempt⟩]
    rfl
  have hcan : activityCanUpdateRuntime (t.runtimeById e.sessionId) e false = true := by
    unfold activityCanUpdateRuntime activityMatchesRuntimeGeneration
    rw [Bool.false_or, Bool.and_eq_true]
    cases hr : t.runtimeById e.sessionId with
    | none => exact ⟨rfl, rfl⟩
    | some r =>
      have hkept := h.attempt _ d r e.attemptId hd hstatus hattempt hr
      refine ⟨decide_eq_true hkept, decide_eq_true ?_⟩
      rintro ⟨hsame, hsome, hdiffers⟩
      obtain ⟨generation, hgeneration⟩ := Option.isSome_iff_exists.mp hsome
      obtain ⟨earlier, hmem, hid, hattempt', hgeneration'⟩ :=
        h.context _ r e.attemptId generation hr hsame hgeneration
      rw [hgeneration, ← hgeneration', hearlier earlier hmem hid hattempt'] at hdiffers
      exact hdiffers rfl
  refine ⟨runtimeFromActivity d (t.runtimeById e.sessionId) e, ?_, rfl⟩
  rw [Sessions.receive, Sessions.applyActivity, hd]
  dsimp only
  rw [if_neg (by rw [howns]; exact fun hfalse => (by cases hfalse)),
    if_neg (by rw [hcan]; exact fun hfalse => (by cases hfalse))]
  exact Function.update_self _ _ _

end Events

section Runs
variable {localeCompare : Text → Text → Ordering} {s s' : State} {f : Flight}

/-- The request of a flight is one of the store's, and an earlier one if it is late. -/
def Dated (s : State) (f : Flight) : Prop :=
  f.request.generation ≤ s.workspaceGeneration ∧
    f.request.sequence ≤ s.operationSequence f.task.operation ∧
    (f.late = true → f.request.generation < s.workspaceGeneration ∨
      f.request.sequence < s.operationSequence f.task.operation)

structure Inv (s : State) : Prop where
  good : Good s.sessions
  dated : ∀ f ∈ s.flights, Dated s f

theorem good_empty : Good ⟨fun _ => none, fun _ => none, [], []⟩ where
  bounded := Nat.zero_le _
  buffered := fun _ hentry => (by cases hentry)
  context := fun _ _ _ _ hr => (by cases hr)
  attempt := fun _ _ _ _ hd => (by cases hd)

theorem Dated.not_late (h : Dated s f) (hcurrent : operationIsCurrent s f = true) :
    f.late = false := by
  obtain ⟨hgeneration, hsequence, -⟩ := of_decide_eq_true hcurrent
  cases hlate : f.late with
  | false => rfl
  | true =>
    rcases h.2.2 hlate with hlt | hlt
    · exact absurd hgeneration (Nat.ne_of_lt hlt)
    · exact absurd hsequence (Nat.ne_of_lt hlt)

theorem mem_markLate {late : Flight → Bool} {flights : List Flight} (h : f ∈ markLate late flights) :
    ∃ g ∈ flights, f = { g with late := g.late || late g } := by
  obtain ⟨g, hg, heq⟩ := List.mem_map.mp h
  exact ⟨g, hg, heq.symm⟩

theorem resetForWorkspaceSwitch_inv (h : Inv s) : Inv (resetForWorkspaceSwitch s) := by
  refine ⟨good_empty, fun f hf => ?_⟩
  obtain ⟨g, hg, rfl⟩ := mem_markLate hf
  obtain ⟨hgeneration, hsequence, -⟩ := h.dated g hg
  exact ⟨Nat.le_succ_of_le hgeneration, Nat.le_succ_of_le hsequence,
    fun _ => .inl (Nat.lt_succ_of_le hgeneration)⟩

theorem activateSlug_inv (h : Inv s) (slug : Text) : Inv (activateSlug s slug) := by
  rw [activateSlug]
  split
  · exact h
  · split
    · have hreset := resetForWorkspaceSwitch_inv h
      exact ⟨hreset.good, hreset.dated⟩
    · exact ⟨h.good, h.dated⟩

theorem beginOperation_inv (h : Inv s) (task : Task) : Inv (beginOperation s task) := by
  have hsequence : (beginOperation s task).operationSequence task.operation =
      s.operationSequence task.operation + 1 := Function.update_self _ _ _
  refine ⟨h.good, fun f hf => ?_⟩
  rcases List.mem_append.mp hf with hold | hnew
  · obtain ⟨g, hg, rfl⟩ := mem_markLate hold
    obtain ⟨hgeneration, hle, hlate⟩ := h.dated g hg
    by_cases hoperation : g.task.operation = task.operation
    · have hlt : g.request.sequence < (beginOperation s task).operationSequence g.task.operation := by
        rw [hoperation, hsequence]
        exact Nat.lt_succ_of_le (hoperation ▸ hle)
      exact ⟨hgeneration, Nat.le_of_lt hlt, fun _ => .inr hlt⟩
    · have hsame : (beginOperation s task).operationSequence g.task.operation =
          s.operationSequence g.task.operation := Function.update_of_ne hoperation _ _
      refine ⟨hgeneration, ?_, fun hnow => ?_⟩
      · exact hsame ▸ hle
      · change (g.late || decide (g.task.operation = task.operation)) = true at hnow
        rw [decide_eq_false hoperation, Bool.or_false] at hnow
        change _ ∨ g.request.sequence < (beginOperation s task).operationSequence g.task.operation
        rw [hsame]
        exact hlate hnow
  · rw [List.mem_singleton.mp hnew]
    exact ⟨Nat.le_refl _, Nat.le_of_eq hsequence.symm, fun hfalse => (by cases hfalse)⟩

theorem await_inv (h : Inv s) (hf : Dated s f) {task : Task}
    (htask : task.operation = f.task.operation) : Inv (s.await f task) := by
  refine ⟨h.good, fun g hg => ?_⟩
  rcases List.mem_append.mp hg with hold | hnew
  · exact h.dated g hold
  · rw [List.mem_singleton.mp hnew]
    obtain ⟨hgeneration, hsequence, hlate⟩ := hf
    rw [← htask] at hsequence hlate
    exact ⟨hgeneration, hsequence, hlate⟩

theorem refreshList_inv (h : Inv s) (slug : Text) : Inv (refreshList s slug) := by
  have hbegun := beginOperation_inv (activateSlug_inv h slug) (.list slug)
  exact ⟨hbegun.good, hbegun.dated⟩

theorem openSession_inv (h : Inv s) (slug id : Text) : Inv (openSession s slug id) := by
  have hbegun := beginOperation_inv (activateSlug_inv h slug) (.detail slug id)
  exact ⟨hbegun.good, hbegun.dated⟩

/-- The sessions stay as they are, or are dropped with the workspace. -/
def Kept (s s' : State) : Prop :=
  s'.sessions = s.sessions ∧ s'.workspaceGeneration = s.workspaceGeneration ∨
    s'.sessions = ⟨fun _ => none, fun _ => none, [], []⟩ ∧
      s.workspaceGeneration < s'.workspaceGeneration

theorem Kept.trans {u : State} (h : Kept s u) (h' : Kept u s') : Kept s s' := by
  rcases h with ⟨hs, hg⟩ | ⟨hs, hg⟩
  · rcases h' with ⟨hs', hg'⟩ | ⟨hs', hg'⟩
    · exact .inl ⟨hs'.trans hs, hg'.trans hg⟩
    · exact .inr ⟨hs', hg ▸ hg'⟩
  · rcases h' with ⟨hs', hg'⟩ | ⟨hs', hg'⟩
    · exact .inr ⟨hs'.trans hs, hg'.symm ▸ hg⟩
    · exact .inr ⟨hs', Nat.lt_trans hg hg'⟩

theorem activateSlug_kept (s : State) (slug : Text) : Kept s (activateSlug s slug) := by
  rw [activateSlug]
  split
  · exact .inl ⟨rfl, rfl⟩
  · split
    · exact .inr ⟨rfl, Nat.lt_succ_self _⟩
    · exact .inl ⟨rfl, rfl⟩

theorem activateSlug_of_active {slug : Text} (h : s.activeSlug = some slug) :
    activateSlug s slug = s := by
  rw [activateSlug, if_pos h]

/-- What an action does to the sessions within a workspace. -/
structure Progress (s s' : State) : Prop where
  generation : s'.workspaceGeneration = s.workspaceGeneration
  forward : Forward s.sessions s'.sessions
  owned : Owned s.sessions s'.sessions
  inv : Inv s'

theorem forward_refl (t : Sessions) : Forward t t :=
  fun _ d hd => ⟨d, hd, Nat.le_refl _⟩

theorem owned_refl (t : Sessions) : Owned t t :=
  fun _ r _ hr hlatest => .inl ⟨r, hr, hlatest⟩

theorem Progress.of_same (h : Inv s) (hsessions : s'.sessions = s.sessions)
    (hgeneration : s'.workspaceGeneration = s.workspaceGeneration)
    (hsequence : s'.operationSequence = s.operationSequence) (hflights : s'.flights = s.flights) :
    Progress s s' := by
  refine ⟨hgeneration, ?_, ?_, ?_, fun f hf => ?_⟩
  · rw [hsessions]
    exact forward_refl _
  · rw [hsessions]
    exact owned_refl _
  · rw [hsessions]
    exact h.good
  · rw [hflights] at hf
    rw [Dated, hgeneration, hsequence]
    exact h.dated f hf

theorem applyDetail_progress {d : Detail} (h : Inv s) (hsteady : ¬ Strays s.sessions d)
    (happlied : applyDetail localeCompare s d = some s') : Progress s s' := by
  rw [applyDetail] at happlied
  split at happlied
  · cases happlied
    exact Progress.of_same h rfl rfl rfl rfl
  · rename_i hnew
    split at happlied
    · cases happlied
    · cases happlied
      rw [Bool.not_eq_true] at hnew
      exact ⟨rfl, applyDetail_forward hnew, applyDetail_owned _ d, applyDetail_good h.good hnew hsteady,
        h.dated⟩

/-- A change of the flags and texts only, after something else. -/
theorem Progress.then {u : State} (h : Progress s u) (hsessions : s'.sessions = u.sessions)
    (hgeneration : s'.workspaceGeneration = u.workspaceGeneration)
    (hsequence : s'.operationSequence = u.operationSequence) (hflights : s'.flights = u.flights) :
    Progress s s' := by
  have hsame := Progress.of_same h.inv hsessions hgeneration hsequence hflights
  refine ⟨hsame.generation.trans h.generation, ?_, ?_, hsame.inv⟩
  · rw [hsessions]
    exact h.forward
  · rw [hsessions]
    exact h.owned

theorem finishSend_same (s : State) (id : Text) (error : Option Text) :
    (finishSend s id error).sessions = s.sessions ∧
      (finishSend s id error).workspaceGeneration = s.workspaceGeneration ∧
      (finishSend s id error).operationSequence = s.operationSequence ∧
      (finishSend s id error).flights = s.flights := by
  rw [finishSend]
  split <;> exact ⟨rfl, rfl, rfl, rfl⟩

/-- A message is queued after what has come before. -/
theorem Progress.queue {u : State} (h : Progress s u) {id : Text} {inputLine revision : Nat}
    (hsessions : s'.sessions = u.sessions.queueInput id inputLine revision)
    (hgeneration : s'.workspaceGeneration = u.workspaceGeneration)
    (hsequence : s'.operationSequence = u.operationSequence) (hflights : s'.flights = u.flights) :
    Progress s s' := by
  refine ⟨hgeneration.trans h.generation, ?_, ?_, ?_, fun f hf => ?_⟩
  · rw [hsessions]
    exact h.forward
  · intro id' r e hr hlatest
    rw [hsessions] at hr
    obtain ⟨previous, hprevious, hsame⟩ := queueInput_latest hr hlatest
    rw [hsessions]
    exact h.owned id' previous e hprevious hsame
  · rw [hsessions]
    exact queueInput_good h.inv.good inputLine revision
  · rw [hflights] at hf
    rw [Dated, hgeneration, hsequence]
    exact h.inv.dated f hf

/-- The rest of an operation goes on awaiting. -/
theorem Progress.await {u : State} (h : Progress s u) (hf : Dated u f) {task : Task}
    (htask : task.operation = f.task.operation) : Progress s (u.await f task) :=
  ⟨h.generation, h.forward, h.owned, await_inv h.inv hf htask⟩

theorem refreshList_progress {u : State} {slug : Text} (h : Progress s u)
    (hactive : u.activeSlug = some slug) : Progress s (refreshList u slug) := by
  have hinv := refreshList_inv h.inv slug
  rw [refreshList, activateSlug_of_active hactive] at hinv ⊢
  exact ⟨h.generation, h.forward, h.owned, hinv⟩

/-- A list that begins does not date other operations. -/
theorem dated_refreshList {slug : Text} (hactive : s.activeSlug = some slug) (h : Dated s f)
    (hoperation : f.task.operation ≠ .list) : Dated (refreshList s slug) f := by
  rw [refreshList, activateSlug_of_active hactive]
  have hsame : (beginOperation s (.list slug)).operationSequence f.task.operation =
      s.operationSequence f.task.operation := Function.update_of_ne hoperation _ _
  refine ⟨h.1, ?_, ?_⟩
  · exact hsame ▸ h.2.1
  · intro hlate
    change _ ∨ f.request.sequence < (beginOperation s (.list slug)).operationSequence f.task.operation
    rw [hsame]
    exact h.2.2 hlate

theorem proceed_progress {response : Response} (h : Inv s) (hf : Dated s f)
    (hactive : s.activeSlug = some f.task.slug)
    (hsteady : ∀ d ∈ bringsDetail f.task response, ¬ Strays s.sessions d)
    (hproceed : proceed localeCompare s f response = some s') : Progress s s' := by
  have hsame : Progress s s := Progress.of_same h rfl rfl rfl rfl
  have hfinish : ∀ {u : State} (id : Text) (error : Option Text), Progress s u →
      Progress s (finishSend u id error) := by
    intro u id error hu
    obtain ⟨hsessions, hgeneration, hsequence, hflights⟩ := finishSend_same u id error
    exact hu.then hsessions hgeneration hsequence hflights
  obtain ⟨task, request, late⟩ := f
  cases response with
  | thrown message =>
    cases task with
    | sendRead slug id =>
      cases hproceed
      exact hfinish id _ hsame
    | finishArchive slug => cases hproceed
    | list slug | detail slug id | create slug pending | send slug id pending | archive slug id
    | unarchive slug =>
      cases hproceed
      exact hsame.then rfl rfl rfl rfl
  | failed message =>
    cases task with
    | sendRead slug id =>
      cases hproceed
      exact hfinish id _ hsame
    | finishArchive slug => cases hproceed
    | list slug | detail slug id | create slug pending | send slug id pending | archive slug id
    | unarchive slug =>
      cases hproceed
      exact hsame.then rfl rfl rfl rfl
  | sessions incoming =>
    cases task with
    | list slug =>
      cases hproceed
      exact hsame.then rfl rfl rfl rfl
    | _ => cases hproceed
  | session d =>
    cases task with
    | detail slug id =>
      rw [proceed] at hproceed
      dsimp only at hproceed
      split at hproceed
      · cases hproceed
        exact hsame.then rfl rfl rfl rfl
      · rename_i applied happlied
        cases hproceed
        exact (applyDetail_progress h (hsteady d rfl) happlied).then rfl rfl rfl rfl
    | sendRead slug id =>
      rw [proceed] at hproceed
      dsimp only at hproceed
      split at hproceed
      · cases hproceed
        exact hfinish id _ hsame
      · rename_i applied happlied
        cases hproceed
        exact hfinish id _ (applyDetail_progress h (hsteady d rfl) happlied)
    | _ => cases hproceed
  | created d lineNumber =>
    cases task with
    | create slug pending =>
      rw [proceed] at hproceed
      dsimp only at hproceed
      split at hproceed
      · cases hproceed
        exact hsame.then rfl rfl rfl rfl
      · rename_i applied happlied
        cases hproceed
        exact (applyDetail_progress h (hsteady d rfl) happlied).queue rfl rfl rfl rfl
    | _ => cases hproceed
  | acknowledged lineNumber revision =>
    cases task with
    | send slug id pending =>
      cases hproceed
      have hqueued : Progress s { s with
          sessions := s.sessions.queueInput id lineNumber revision
          pendingSend := s.pendingSend.filter fun p => p.requestId ≠ pending.requestId } :=
        hsame.queue rfl rfl rfl rfl
      exact hqueued.await hf rfl
    | _ => cases hproceed
  | archived revision archivedAt =>
    cases task with
    | archive slug id =>
      cases hproceed
      have harchived : Progress s { s with sessions := s.sessions.archive id revision archivedAt } :=
        ⟨rfl, archive_forward _ id revision archivedAt, archive_owned _ id revision archivedAt,
          archive_good h.good revision archivedAt, h.dated⟩
      refine (refreshList_progress harchived hactive).await ?_ rfl
      exact dated_refreshList (s := { s with sessions := s.sessions.archive id revision archivedAt })
        hactive hf (fun hfalse => (by cases hfalse))
    | _ => cases hproceed
  | unarchived =>
    cases task with
    | unarchive slug =>
      cases hproceed
      refine (refreshList_progress hsame hactive).await ?_ rfl
      exact dated_refreshList hactive hf (fun hfalse => (by cases hfalse))
    | _ => cases hproceed
  | resumed =>
    cases task with
    | finishArchive slug =>
      cases hproceed
      exact hsame.then rfl rfl rfl rfl
    | _ => cases hproceed

/-- An action that only begins something. -/
theorem sound_of_kept {a : Action} (hkept : Kept s s') (hinv : Inv s')
    (hrespond : ∀ n response, a ≠ .respond n response) (hevent : ∀ event, a ≠ .event event) :
    Sound s a s' := by
  refine ⟨fun hgeneration => ?_, fun n response _ ha => absurd ha (hrespond n response),
    hinv.good.bounded, ?_, fun event _ _ ha => absurd ha (hevent event)⟩
  · rcases hkept with ⟨hsessions, -⟩ | ⟨-, hlt⟩
    · rw [hsessions]
      exact forward_refl _
    · exact absurd hgeneration (Nat.ne_of_gt hlt)
  · rcases hkept with ⟨hsessions, -⟩ | ⟨hempty, -⟩
    · rw [hsessions]
      exact owned_refl _
    · intro id r e hr
      rw [hempty] at hr
      cases hr

theorem create_inv (h : Inv s) (slug agentId firstMessage newId : Text) :
    Inv (create s slug agentId firstMessage newId) := by
  have hbegun := beginOperation_inv (activateSlug_inv h slug) (.create slug
    (pendingCreateFor (activateSlug s slug).pendingCreate slug agentId firstMessage newId))
  exact ⟨hbegun.good, hbegun.dated⟩

theorem send_inv (h : Inv s) (slug id body newId : Text) : Inv (send s slug id body newId) := by
  have hbegun := beginOperation_inv (activateSlug_inv h slug) (.send slug id
    (pendingSendFor (activateSlug s slug).pendingSend slug id body newId))
  exact ⟨hbegun.good, hbegun.dated⟩

theorem refreshFromPoll_inv (h : Inv s) (slug : Text) (changed : List Text) :
    Inv (refreshFromPoll s slug changed) := by
  have hactive := activateSlug_inv h slug
  rw [refreshFromPoll]
  split
  · exact hactive
  · split
    · exact refreshList_inv hactive slug
    · split
      · exact openSession_inv (refreshList_inv hactive slug) slug _
      · exact refreshList_inv hactive slug

theorem refreshFromPoll_kept (s : State) (slug : Text) (changed : List Text) :
    Kept s (refreshFromPoll s slug changed) := by
  have hactive := activateSlug_kept s slug
  have hlist : ∀ u : State, Kept u (refreshList u slug) := fun u => activateSlug_kept u slug
  rw [refreshFromPoll]
  split
  · exact hactive
  · split
    · exact hactive.trans (hlist _)
    · split
      · exact (hactive.trans (hlist _)).trans (activateSlug_kept _ slug)
      · exact hactive.trans (hlist _)

theorem step_sound {a : Action} (h : Inv s) (hsteady : Steady s a)
    (hstep : step localeCompare s a = some s') : Inv s' ∧ Sound s a s' := by
  cases a with
  | refreshList slug =>
    cases hstep
    have hinv := refreshList_inv h slug
    exact ⟨hinv, sound_of_kept (activateSlug_kept s slug) hinv (fun _ _ ha => (by cases ha))
      (fun _ ha => (by cases ha))⟩
  | openSession slug id =>
    cases hstep
    have hinv := openSession_inv h slug id
    exact ⟨hinv, sound_of_kept (activateSlug_kept s slug) hinv (fun _ _ ha => (by cases ha))
      (fun _ ha => (by cases ha))⟩
  | create slug agentId firstMessage newId =>
    cases hstep
    have hinv := create_inv h slug agentId firstMessage newId
    exact ⟨hinv, sound_of_kept (activateSlug_kept s slug) hinv (fun _ _ ha => (by cases ha))
      (fun _ ha => (by cases ha))⟩
  | send slug id body newId =>
    cases hstep
    have hinv := send_inv h slug id body newId
    exact ⟨hinv, sound_of_kept (activateSlug_kept s slug) hinv (fun _ _ ha => (by cases ha))
      (fun _ ha => (by cases ha))⟩
  | archive slug id =>
    cases hstep
    have hbegun := beginOperation_inv (activateSlug_inv h slug) (.archive slug id)
    have hinv : Inv (archive s slug id) := ⟨hbegun.good, hbegun.dated⟩
    exact ⟨hinv, sound_of_kept (activateSlug_kept s slug) hinv (fun _ _ ha => (by cases ha))
      (fun _ ha => (by cases ha))⟩
  | unarchive slug =>
    cases hstep
    have hbegun := beginOperation_inv (activateSlug_inv h slug) (.unarchive slug)
    have hinv : Inv (unarchive s slug) := ⟨hbegun.good, hbegun.dated⟩
    exact ⟨hinv, sound_of_kept (activateSlug_kept s slug) hinv (fun _ _ ha => (by cases ha))
      (fun _ ha => (by cases ha))⟩
  | refreshFromPoll slug changed =>
    cases hstep
    have hinv := refreshFromPoll_inv h slug changed
    exact ⟨hinv, sound_of_kept (refreshFromPoll_kept s slug changed) hinv
      (fun _ _ ha => (by cases ha)) (fun _ ha => (by cases ha))⟩
  | respond n response =>
    rw [step] at hstep
    split at hstep
    · cases hstep
    rename_i f hflight
    have hmem : f ∈ s.flights := List.mem_of_getElem? hflight
    have hlanded : Inv { s with flights := s.flights.eraseIdx n } :=
      ⟨h.good, fun g hg => h.dated g (List.mem_of_mem_eraseIdx hg)⟩
    dsimp only at hstep
    split at hstep
    · cases hstep
      refine ⟨hlanded, fun _ => forward_refl _, fun n' response' f' ha _ _ => ?_, h.good.bounded,
        owned_refl _, fun _ _ _ ha => (by cases ha)⟩
      cases ha
      rfl
    · rename_i hcurrent
      rw [Bool.not_eq_false] at hcurrent
      have hprogress := proceed_progress hlanded (h.dated f hmem) (of_decide_eq_true hcurrent).2.2
        (hsteady f hflight hcurrent) hstep
      refine ⟨hprogress.inv, fun _ => hprogress.forward, fun n' response' f' ha hf' hlate => ?_,
        hprogress.inv.good.bounded, hprogress.owned, fun _ _ _ ha => (by cases ha)⟩
      -- What is late is not current.
      cases ha
      cases hflight.symm.trans hf'
      have hnot := (h.dated f hmem).not_late hcurrent
      exact (by cases hnot.symm.trans hlate)
  | event event =>
    cases hstep
    rw [applyActivityEvent]
    split
    · rename_i hnone
      refine ⟨h, fun _ => forward_refl _, fun _ _ _ ha => (by cases ha), h.good.bounded, owned_refl _,
        fun event' e d ha he => ?_⟩
      cases ha
      exact (by cases hnone.symm.trans he)
    · rename_i e he
      split
      · rename_i hother
        refine ⟨h, fun _ => forward_refl _, fun _ _ _ ha => (by cases ha), h.good.bounded,
          owned_refl _, fun event' e' d ha _ hworkspace => ?_⟩
        cases ha
        rcases hworkspace with hnone | hsame
        · rw [hnone] at hother
          exact (by cases hother.1)
        · exact absurd hsame hother.2
      · have hgood := @receive_good s.sessions e h.good s.activeSlug.isSome
        refine ⟨⟨hgood, h.dated⟩, fun _ => ?_, fun _ _ _ ha => (by cases ha), hgood.bounded,
          receive_owned _ _ e, fun event' e' d ha he' _ hd hstatus hattempt hearlier => ?_⟩
        · intro id d hd
          exact ⟨d, by rw [receive_details]; exact hd, Nat.le_refl _⟩
        · cases ha
          cases he.symm.trans he'
          exact receive_accepted h.good _ hd hstatus hattempt hearlier
  | switchWorkspace =>
    cases hstep
    have hinv := resetForWorkspaceSwitch_inv h
    exact ⟨hinv, sound_of_kept (.inr ⟨rfl, Nat.lt_succ_self _⟩) hinv (fun _ _ ha => (by cases ha))
      (fun _ ha => (by cases ha))⟩
  | setShowArchived showArchived =>
    cases hstep
    have hinv : Inv { s with showArchived := showArchived } := ⟨h.good, h.dated⟩
    exact ⟨hinv, sound_of_kept (.inl ⟨rfl, rfl⟩) hinv (fun _ _ ha => (by cases ha))
      (fun _ ha => (by cases ha))⟩
  | select id =>
    cases hstep
    have hinv : Inv { s with selectedId := id } := ⟨h.good, h.dated⟩
    exact ⟨hinv, sound_of_kept (.inl ⟨rfl, rfl⟩) hinv (fun _ _ ha => (by cases ha))
      (fun _ ha => (by cases ha))⟩

/-- In every steady run the store does what it should. -/
theorem quickSessionStore_sound (localeCompare : Text → Text → Ordering) (s : State)
    (hinitial : Initial s) (as : List Action) (hsteady : Along (step localeCompare) Steady s as) :
    Along (step localeCompare) (StoreSound localeCompare) s as := by
  have hinv : Inv s := by
    refine ⟨?_, fun f hf => ?_⟩
    · rw [hinitial.sessions]
      exact good_empty
    · rw [hinitial.flights] at hf
      cases hf
  refine along_mono (fun s a t h ha ht => ?_) (fun s a h ha t ht => ?_) hinv hsteady
  · exact (step_sound h ha ht).1
  · exact (step_sound h ha ht).2

/-- No locale: the order of the code points. -/
def sampleCompare (a b : Text) : Ordering := compare (a.map Char.toNat) (b.map Char.toNat)

def sampleState : State where
  workspaceGeneration := 0
  operationSequence := fun _ => 0
  activeSlug := none
  items := []
  selectedId := none
  sessions := ⟨fun _ => none, fun _ => none, [], []⟩
  showArchived := false
  loading := fun _ => false
  errors := fun _ => none
  pendingCreate := none
  pendingSend := none
  flights := []

def sampleId : Text := "qs-01JXXXXXXXXXXXXXXXXXXXXXXX".toList

/-- A session that an attempt is running in. -/
def sampleDetail (revision inputLine : Nat) (attempt : Text) : Detail where
  sessionMeta := { QuickSessionMeta.new sampleId "bot".toList "alice".toList [] with
    status := .running
    revision := revision
    processingInputLine := some inputLine
    lastCompletedInputLine := some (inputLine - 1)
    attemptId := some attempt }
  archived := false

def sampleEvent (attempt : Text) (revision : Nat) : AgentActivityEvent :=
  ⟨none, .thinking, [], true, some sampleId, some attempt, some 1, some revision⟩

/-- A session is opened, a message is sent while an attempt is running, and the attempt that is
running when the session is opened again thinks. -/
def sampleActions (attempt : Text) : List Action :=
  [.openSession "w".toList sampleId, .respond 0 (.session (sampleDetail 5 1 "first".toList)),
    .event (sampleEvent "first".toList 5), .send "w".toList sampleId "hi".toList "r".toList,
    .respond 0 (.acknowledged 3 6), .respond 0 (.failed none), .openSession "w".toList sampleId,
    .respond 0 (.session (sampleDetail 7 2 attempt)), .event (sampleEvent attempt 7)]

instance decidableStrays (t : Sessions) (d : Detail) : Decidable (Strays t d) :=
  have : Decidable (∃ running ∈ d.sessionMeta.attemptId,
      ∃ kept ∈ (t.runtimeById d.sessionMeta.id).bind Overlay.attemptId, kept ≠ running) :=
    inferInstance
  inferInstanceAs (Decidable (_ ∧ _ ∧ _ ∧ _ ∧ _))

instance decidableSteady (s : State) : ∀ a, Decidable (Steady s a)
  | .respond n _ => inferInstanceAs (Decidable (∀ f ∈ s.flights[n]?, _ → ∀ d ∈ _, ¬ _))
  | .refreshList _ | .openSession _ _ | .create _ _ _ _ | .send _ _ _ _ | .archive _ _ | .unarchive _
  | .refreshFromPoll _ _ | .event _ | .switchWorkspace | .setShowArchived _ | .select _ =>
    isTrue trivial

theorem quickSessionStore_sound_sample :
    Along (step sampleCompare) Steady sampleState (sampleActions "first".toList) ∧
      Along (step sampleCompare) (StoreSound sampleCompare) sampleState
        (sampleActions "first".toList) := by
  have hsteady : Along (step sampleCompare) Steady sampleState (sampleActions "first".toList) := by
    decide +kernel
  exact ⟨hsteady, quickSessionStore_sound sampleCompare sampleState ⟨rfl, rfl⟩ _ hsteady⟩

/-- The second attempt is ignored: the overlay is kept for the queued message, with the first. -/
theorem not_sound_secondAttempt :
    ¬ Along (step sampleCompare) (StoreSound sampleCompare) sampleState
      (sampleActions "second".toList) := by
  intro h
  have hsound := ((((((((h.2 _ rfl).2 _ rfl).2 _ rfl).2 _ rfl).2 _ rfl).2 _ rfl).2 _ rfl).2 _ rfl).1 _ rfl
  obtain ⟨r, hr, hlatest⟩ := hsound.accepted (sampleEvent "second".toList 7)
    ⟨sampleEvent "second".toList 7, sampleId, "second".toList, 1, 7⟩ (sampleDetail 7 2 "second".toList)
    rfl (by decide +kernel) (.inl rfl) (by decide +kernel) rfl rfl (by decide +kernel)
  have hbind := congrArg (fun overlay => overlay.bind Overlay.latestEvent) hr
  exact absurd (hbind.trans hlatest) (by decide +kernel)

end Runs

end QuickSessionStore
