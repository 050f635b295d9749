import GitIM.Checked
import GitIM.ThreadFormat

/-!
# Quick sessions

The metadata of a quick session, its validation and the eight transitions of its
life cycle. Every check of the source is a checked computation, in the source's
order; `ValidMeta` states what passes them.
-/

namespace QuickSession

open TextLines TextScan Checked ThreadFormat

inductive QuickSessionError where
  | invalidSessionId
  | invalidAttemptId
  | emptyTitle
  | titleTooLong
  | emptySummary
  | summaryTooLong
  | unauthorizedActor
  | invalidState
  | staleAttempt
  | staleInputLine
  | inputLineMismatch
  | titleRequired
  | invalidLineNumber
  | emptyError
  | invalidMeta (message : Text)
  deriving DecidableEq

/-- The displayed text of an error. -/
def QuickSessionError.text : QuickSessionError → Text
  | invalidSessionId => "invalid quick session id".toList
  | invalidAttemptId => "invalid quick session attempt id".toList
  | emptyTitle => "quick session title cannot be empty".toList
  | titleTooLong => "quick session title exceeds 80 characters".toList
  | emptySummary => "quick session summary cannot be empty".toList
  | summaryTooLong => "quick session summary exceeds 4000 characters".toList
  | unauthorizedActor => "quick session actor is not authorized for this transition".toList
  | invalidState => "quick session transition is not valid from the current state".toList
  | staleAttempt => "quick session attempt does not match the active claim".toList
  | staleInputLine => "quick session input line is not newer than the completed input".toList
  | inputLineMismatch => "quick session reply must target the claimed input line".toList
  | titleRequired => "quick session title is required before an agent reply".toList
  | invalidLineNumber => "quick session line number is invalid".toList
  | emptyError => "quick session error message cannot be empty".toList
  | invalidMeta message => "invalid quick session metadata: ".toList ++ message

inductive QuickSessionStatus where
  | needsTitle
  | running
  | active
  | error
  | archived
  deriving DecidableEq

structure QuickSessionMeta where
  id : Text
  title : Option Text
  agentId : Text
  createdBy : Text
  status : QuickSessionStatus
  createdAt : Text
  updatedAt : Text
  archivedAt : Option Text
  archivedFrom : Option QuickSessionStatus
  summary : Option Text
  summaryUpdatedAt : Option Text
  lastMessagePreview : Text
  error : Option Text
  processingInputLine : Option Nat
  processingStartedAt : Option Text
  attemptId : Option Text
  lastCompletedAttemptId : Option Text
  lastCompletedInputLine : Option Nat
  lastCompletedLine : Option Nat
  lastFailedAttemptId : Option Text
  lastHumanRequestId : Option Text
  lastHumanLine : Option Nat
  revision : Nat
  deriving DecidableEq

def QuickSessionMeta.new (id agentId createdBy createdAt : Text) : QuickSessionMeta where
  id := id
  title := none
  agentId := agentId
  createdBy := createdBy
  status := .needsTitle
  createdAt := createdAt
  updatedAt := createdAt
  archivedAt := none
  archivedFrom := none
  summary := none
  summaryUpdatedAt := none
  lastMessagePreview := []
  error := none
  processingInputLine := none
  processingStartedAt := none
  attemptId := none
  lastCompletedAttemptId := none
  lastCompletedInputLine := none
  lastCompletedLine := none
  lastFailedAttemptId := none
  lastHumanRequestId := none
  lastHumanLine := none
  revision := 1

inductive QuickSessionTransition where
  | humanMessage (actor : Text) (lineNumber : Nat) (requestId : Option Text) (preview now : Text)
  | claim (actor : Text) (inputLine : Nat) (attemptId now : Text)
  | setTitle (actor attemptId title now : Text)
  | setSummary (actor attemptId summary now : Text)
  | agentReply (actor : Text) (inputLine : Nat) (attemptId : Text) (outputLine : Nat)
      (preview now : Text)
  | markError (actor attemptId error now : Text)
  | archive (actor now : Text)
  | unarchive (actor now : Text)
  deriving DecidableEq

inductive TransitionOutcome where
  | applied
  | duplicate (lineNumber : Option Nat)
  deriving DecidableEq

section Validation

def invalidMeta (message : String) : QuickSessionError := .invalidMeta message.toList

/-- The Crockford digits of an opaque id. -/
def isOpaqueIdChar (c : Char) : Bool :=
  c.isDigit || (c.isUpper && c ≠ 'I' && c ≠ 'L' && c ≠ 'O' && c ≠ 'U')

def validateOpaqueId (id pre : Text) : Bool :=
  match stripPrefix pre id with
  | some value => value.length == 26 && value.all isOpaqueIdChar
  | none => false

def validateQuickSessionId (id : Text) : Except QuickSessionError Unit :=
  refuse (validateOpaqueId id "qs-".toList = false) .invalidSessionId

def validateQuickSessionAttemptId (id : Text) : Except QuickSessionError Unit :=
  refuse (validateOpaqueId id "qa-".toList = false) .invalidAttemptId

def validateTextLimit (value : Text) (limit : Nat) (empty tooLong : QuickSessionError) :
    Except QuickSessionError Unit := do
  refuse (trim value = []) empty
  refuse (value.length > limit) tooLong

def validateQuickSessionTitle (title : Text) : Except QuickSessionError Unit :=
  validateTextLimit title 80 .emptyTitle .titleTooLong

def validateQuickSessionSummary (summary : Text) : Except QuickSessionError Unit :=
  validateTextLimit summary 4000 .emptySummary .summaryTooLong

def truncateQuickSessionPreview (preview : Text) : Text := preview.take 160

def validateHandlerField (field name : Text) : Except QuickSessionError Unit :=
  match handlerError name with
  | some e => .error (.invalidMeta
      ("invalid ".toList ++ (field ++ (": ".toList ++ handlerErrorText e))))
  | none => .ok ()

def validateSummaryFields (m : QuickSessionMeta) : Except QuickSessionError Unit :=
  match m.summary, m.summaryUpdatedAt with
  | none, none => .ok ()
  | some summary, some _ => validateQuickSessionSummary summary
  | _, _ => .error (invalidMeta "summary and summary_updated_at must be set together")

def hasCompleteClaim (m : QuickSessionMeta) : Bool :=
  m.processingInputLine.isSome && m.processingStartedAt.isSome && m.attemptId.isSome

def hasAnyClaim (m : QuickSessionMeta) : Bool :=
  m.processingInputLine.isSome || m.processingStartedAt.isSome || m.attemptId.isSome

def validateClaimFields (m : QuickSessionMeta) : Except QuickSessionError Unit :=
  if m.status = .running then do
    refuse (hasCompleteClaim m = false ∨ m.processingInputLine = some 0)
      (invalidMeta "running status requires a complete claim")
    checkSome m.attemptId validateQuickSessionAttemptId
  else refuse (hasAnyClaim m = true) (invalidMeta "only running status may retain a claim")

def validateArchiveFields (m : QuickSessionMeta) : Except QuickSessionError Unit :=
  if m.status = .archived then do
    refuse (m.archivedAt = none) (invalidMeta "archived status requires archived_at")
    match m.archivedFrom, m.title.isSome with
    | some .active, true => .ok ()
    | some .needsTitle, false => .ok ()
    | some .error, _ => .ok ()
    | none, _ => .error (invalidMeta "archived status requires archived_from")
    | _, _ => .error (invalidMeta "archived_from does not match the stable title state")
  else refuse (m.archivedAt.isSome = true ∨ m.archivedFrom.isSome = true)
    (invalidMeta "active metadata cannot retain archive fields")

def validateTitleStatus (m : QuickSessionMeta) : Except QuickSessionError Unit := do
  refuse (m.status = .needsTitle ∧ m.title.isSome = true)
    (invalidMeta "needs_title status cannot have a title")
  refuse (m.status = .active ∧ m.title = none) (invalidMeta "active status requires a title")

def requiresError (m : QuickSessionMeta) : Bool :=
  m.status = .error || (m.status = .archived && m.archivedFrom = some .error)

def validateErrorFields (m : QuickSessionMeta) : Except QuickSessionError Unit := do
  checkSome m.error fun e => refuse (trim e = []) (invalidMeta "error message cannot be empty")
  refuse (requiresError m = true ∧ m.error = none)
    (invalidMeta "error state requires an error message")
  refuse (m.status = .running ∧ m.error.isSome = true)
    (invalidMeta "running status cannot retain error diagnostics")
  refuse (m.error.isSome = true ∧ requiresError m = false ∧ m.lastFailedAttemptId = none)
    (invalidMeta "actionable error diagnostics require a failed attempt id")

def completedCount (m : QuickSessionMeta) : Nat :=
  m.lastCompletedAttemptId.isSome.toNat + m.lastCompletedInputLine.isSome.toNat +
    m.lastCompletedLine.isSome.toNat

/-- The test `last_human_line.is_none_or(|last| line > last)`. -/
def unknownLine (lastHumanLine : Option Nat) (line : Nat) : Bool :=
  match lastHumanLine with
  | some last => line > last
  | none => true

def validateCompletionFields (m : QuickSessionMeta) : Except QuickSessionError Unit := do
  refuse (completedCount m ≠ 0 ∧ completedCount m ≠ 3)
    (invalidMeta "completion fields must be set together")
  match m.lastCompletedAttemptId, m.lastCompletedInputLine, m.lastCompletedLine with
  | some attemptId, some inputLine, some outputLine => do
    validateQuickSessionAttemptId attemptId
    refuse (inputLine = 0 ∨ outputLine ≤ inputLine)
      (invalidMeta "completion line numbers are invalid")
    refuse (unknownLine m.lastHumanLine inputLine = true)
      (invalidMeta "completed input must be a known human line")
  | _, _, _ => .ok ()

def validateHumanFields (m : QuickSessionMeta) : Except QuickSessionError Unit := do
  refuse (m.lastHumanLine = some 0) (invalidMeta "last_human_line must be positive")
  refuse (m.lastHumanRequestId.isSome = true ∧ m.lastHumanLine = none)
    (invalidMeta "human request id requires a line number")
  checkSome m.processingInputLine fun line => refuse (unknownLine m.lastHumanLine line = true)
    (invalidMeta "processing input must be a known human line")

def validateFailureFields (m : QuickSessionMeta) : Except QuickSessionError Unit :=
  checkSome m.lastFailedAttemptId fun attemptId => do
    validateQuickSessionAttemptId attemptId
    refuse (m.error = none ∨ m.status = .running)
      (invalidMeta "failed attempt id requires retained error diagnostics")

def validateQuickSessionMeta (m : QuickSessionMeta) : Except QuickSessionError Unit := do
  validateQuickSessionId m.id
  validateHandlerField "agent_id".toList m.agentId
  validateHandlerField "created_by".toList m.createdBy
  refuse (m.revision = 0) (invalidMeta "revision must be positive")
  checkSome m.title validateQuickSessionTitle
  refuse (m.lastMessagePreview.length > 160)
    (invalidMeta "last_message_preview exceeds its limit")
  validateSummaryFields m
  validateClaimFields m
  validateArchiveFields m
  validateTitleStatus m
  validateErrorFields m
  validateCompletionFields m
  validateHumanFields m
  validateFailureFields m

end Validation

section Transitions

def requireCreator (m : QuickSessionMeta) (actor : Text) : Except QuickSessionError Unit :=
  refuse (actor ≠ m.createdBy) .unauthorizedActor

def requireAgent (m : QuickSessionMeta) (actor : Text) : Except QuickSessionError Unit :=
  refuse (actor ≠ m.agentId) .unauthorizedActor

def requireAttempt (m : QuickSessionMeta) (attemptId : Text) : Except QuickSessionError Unit := do
  validateQuickSessionAttemptId attemptId
  refuse (m.status ≠ .running) .invalidState
  refuse (m.attemptId ≠ some attemptId) .staleAttempt

def titleDerivedStatus (m : QuickSessionMeta) : QuickSessionStatus :=
  if m.title.isSome then .active else .needsTitle

def clearClaim (m : QuickSessionMeta) : QuickSessionMeta :=
  { m with processingInputLine := none, processingStartedAt := none, attemptId := none }

def finish (m : QuickSessionMeta) (now : Text) :
    Except QuickSessionError (TransitionOutcome × QuickSessionMeta) :=
  if m.revision + 1 < u64Bound then
    .ok (.applied, { m with updatedAt := now, revision := m.revision + 1 })
  else .error (invalidMeta "revision overflow")

/-- A new question ends an error state. -/
def leaveError (m : QuickSessionMeta) : QuickSessionMeta :=
  if m.status = .error then
    { m with status := titleDerivedStatus m, error := none, lastFailedAttemptId := none }
  else m

def applyHumanMessage (m : QuickSessionMeta) (actor : Text) (lineNumber : Nat)
    (requestId : Option Text) (preview now : Text) :
    Except QuickSessionError (TransitionOutcome × QuickSessionMeta) := do
  requireCreator m actor
  if requestId.isSome ∧ m.lastHumanRequestId = requestId then
    .ok (.duplicate m.lastHumanLine, m)
  else do
    refuse (m.status = .archived) .invalidState
    refuse (lineNumber = 0) .invalidLineNumber
    checkSome m.lastHumanLine fun last => refuse (lineNumber ≤ last) .staleInputLine
    finish { leaveError m with
      lastHumanRequestId := requestId
      lastHumanLine := some lineNumber
      lastMessagePreview := truncateQuickSessionPreview preview } now

def applyClaim (m : QuickSessionMeta) (actor : Text) (inputLine : Nat) (attemptId now : Text) :
    Except QuickSessionError (TransitionOutcome × QuickSessionMeta) := do
  requireAgent m actor
  validateQuickSessionAttemptId attemptId
  if m.status = .running ∧ m.processingInputLine = some inputLine ∧
      m.attemptId = some attemptId then
    .ok (.duplicate none, m)
  else do
    refuse (m.status ≠ .needsTitle ∧ m.status ≠ .active) .invalidState
    refuse (m.lastHumanLine ≠ some inputLine) .inputLineMismatch
    refuse (inputLine = 0) .staleInputLine
    checkSome m.lastCompletedInputLine fun line => refuse (inputLine ≤ line) .staleInputLine
    finish { m with
      status := .running
      processingInputLine := some inputLine
      processingStartedAt := some now
      attemptId := some attemptId
      error := none
      lastFailedAttemptId := none } now

def applySetTitle (m : QuickSessionMeta) (actor attemptId title now : Text) :
    Except QuickSessionError (TransitionOutcome × QuickSessionMeta) := do
  requireAgent m actor
  requireAttempt m attemptId
  validateQuickSessionTitle (trim title)
  if m.title = some (trim title) then .ok (.duplicate none, m)
  else finish { m with title := some (trim title) } now

def applySetSummary (m : QuickSessionMeta) (actor attemptId summary now : Text) :
    Except QuickSessionError (TransitionOutcome × QuickSessionMeta) := do
  requireAgent m actor
  requireAttempt m attemptId
  validateQuickSessionSummary (trim summary)
  if m.summary = some (trim summary) then .ok (.duplicate none, m)
  else finish { m with summary := some (trim summary), summaryUpdatedAt := some now } now

def applyAgentReply (m : QuickSessionMeta) (actor : Text) (inputLine : Nat) (attemptId : Text)
    (outputLine : Nat) (preview now : Text) :
    Except QuickSessionError (TransitionOutcome × QuickSessionMeta) := do
  requireAgent m actor
  validateQuickSessionAttemptId attemptId
  if m.lastCompletedAttemptId = some attemptId then .ok (.duplicate m.lastCompletedLine, m)
  else do
    requireAttempt m attemptId
    refuse (m.processingInputLine ≠ some inputLine) .inputLineMismatch
    refuse (m.title = none) .titleRequired
    refuse (outputLine ≤ inputLine) .invalidLineNumber
    finish (clearClaim { m with
      status := .active
      lastCompletedAttemptId := some attemptId
      lastCompletedInputLine := some inputLine
      lastCompletedLine := some outputLine
      lastMessagePreview := truncateQuickSessionPreview preview
      error := none
      lastFailedAttemptId := none }) now

/-- Whether a human line waits behind the claimed one. -/
def hasQueuedInput (m : QuickSessionMeta) (claimed : Nat) : Bool :=
  match m.lastHumanLine with
  | some last => last > claimed
  | none => false

def applyMarkError (m : QuickSessionMeta) (actor attemptId error now : Text) :
    Except QuickSessionError (TransitionOutcome × QuickSessionMeta) := do
  requireAgent m actor
  validateQuickSessionAttemptId attemptId
  if m.lastFailedAttemptId = some attemptId then .ok (.duplicate none, m)
  else do
    requireAttempt m attemptId
    refuse (trim error = []) .emptyError
    match m.processingInputLine with
    | none => .error .invalidState
    | some claimed =>
      finish (clearClaim { m with
        status := if hasQueuedInput m claimed then titleDerivedStatus m else .error
        error := some (trim error)
        lastFailedAttemptId := some attemptId }) now

def applyArchive (m : QuickSessionMeta) (actor now : Text) :
    Except QuickSessionError (TransitionOutcome × QuickSessionMeta) := do
  requireCreator m actor
  refuse (m.status = .archived) .invalidState
  finish (clearClaim { m with
    archivedFrom := some (if m.status = .running then titleDerivedStatus m else m.status)
    status := .archived
    archivedAt := some now }) now

def applyUnarchive (m : QuickSessionMeta) (actor now : Text) :
    Except QuickSessionError (TransitionOutcome × QuickSessionMeta) := do
  requireCreator m actor
  refuse (m.status ≠ .archived) .invalidState
  let status := m.archivedFrom.getD (titleDerivedStatus m)
  finish (clearClaim { m with
    status := status
    error := if status ≠ .error then none else m.error
    lastFailedAttemptId := if status ≠ .error then none else m.lastFailedAttemptId
    archivedAt := none
    archivedFrom := none }) now

def applyTransition (m : QuickSessionMeta) :
    QuickSessionTransition → Except QuickSessionError (TransitionOutcome × QuickSessionMeta)
  | .humanMessage actor lineNumber requestId preview now =>
    applyHumanMessage m actor lineNumber requestId preview now
  | .claim actor inputLine attemptId now => applyClaim m actor inputLine attemptId now
  | .setTitle actor attemptId title now => applySetTitle m actor attemptId title now
  | .setSummary actor attemptId summary now => applySetSummary m actor attemptId summary now
  | .agentReply actor inputLine attemptId outputLine preview now =>
    applyAgentReply m actor inputLine attemptId outputLine preview now
  | .markError actor attemptId error now => applyMarkError m actor attemptId error now
  | .archive actor now => applyArchive m actor now
  | .unarchive actor now => applyUnarchive m actor now

/-- The checked transition; a duplicate leaves the metadata as it is. -/
def applyQuickSessionTransition (m : QuickSessionMeta) (t : QuickSessionTransition) :
    Except QuickSessionError (TransitionOutcome × QuickSessionMeta) := do
  validateQuickSessionMeta m
  let (outcome, next) ← applyTransition m t
  if outcome = .applied then do
    validateQuickSessionMeta next
    .ok (outcome, next)
  else .ok (outcome, m)

end Transitions

section Specification

def ValidAttempt (id : Text) : Prop := validateOpaqueId id "qa-".toList = true

def ValidTitle (title : Text) : Prop := trim title ≠ [] ∧ title.length ≤ 80

def ValidSummary (summary : Text) : Prop := trim summary ≠ [] ∧ summary.length ≤ 4000

/-- A line at most the last human line. -/
def KnownLine (m : QuickSessionMeta) (line : Nat) : Prop :=
  ∃ last, m.lastHumanLine = some last ∧ line ≤ last

/-- The metadata that validation accepts. -/
structure ValidMeta (m : QuickSessionMeta) : Prop where
  id : validateOpaqueId m.id "qs-".toList = true
  agentId : handlerError m.agentId = none
  createdBy : handlerError m.createdBy = none
  revision : m.revision ≠ 0
  title : ∀ t, m.title = some t → ValidTitle t
  preview : m.lastMessagePreview.length ≤ 160
  summary : (m.summary = none ∧ m.summaryUpdatedAt = none) ∨
    ∃ s t, m.summary = some s ∧ m.summaryUpdatedAt = some t ∧ ValidSummary s
  running : m.status = .running → ∃ p t a, m.processingInputLine = some p ∧ p ≠ 0 ∧
    m.processingStartedAt = some t ∧ m.attemptId = some a ∧ ValidAttempt a
  idle : m.status ≠ .running →
    m.processingInputLine = none ∧ m.processingStartedAt = none ∧ m.attemptId = none
  archived : m.status = .archived → m.archivedAt ≠ none ∧
    ((m.archivedFrom = some .active ∧ m.title ≠ none) ∨
      (m.archivedFrom = some .needsTitle ∧ m.title = none) ∨ m.archivedFrom = some .error)
  unarchived : m.status ≠ .archived → m.archivedAt = none ∧ m.archivedFrom = none
  untitled : m.status = .needsTitle → m.title = none
  titled : m.status = .active → m.title ≠ none
  errorText : ∀ e, m.error = some e → trim e ≠ []
  errorKept : requiresError m = true → m.error ≠ none
  errorIdle : m.status = .running → m.error = none
  errorCause : m.error ≠ none → requiresError m = false → m.lastFailedAttemptId ≠ none
  completion : (m.lastCompletedAttemptId = none ∧ m.lastCompletedInputLine = none ∧
      m.lastCompletedLine = none) ∨
    ∃ a i o, m.lastCompletedAttemptId = some a ∧ m.lastCompletedInputLine = some i ∧
      m.lastCompletedLine = some o ∧ ValidAttempt a ∧ i ≠ 0 ∧ i < o ∧ KnownLine m i
  humanLine : m.lastHumanLine ≠ some 0
  request : m.lastHumanRequestId ≠ none → m.lastHumanLine ≠ none
  processing : ∀ p, m.processingInputLine = some p → KnownLine m p
  failed : ∀ a, m.lastFailedAttemptId = some a →
    ValidAttempt a ∧ m.error ≠ none ∧ m.status ≠ .running

theorem unknownLine_eq_false_iff {m : QuickSessionMeta} {line : Nat} :
    unknownLine m.lastHumanLine line = false ↔ KnownLine m line := by
  cases h : m.lastHumanLine with
  | none => simp [unknownLine, KnownLine, h]
  | some last => simp [unknownLine, KnownLine, h]

theorem validateAttempt_ok_iff {id : Text} {u : Unit} :
    validateQuickSessionAttemptId id = .ok u ↔ ValidAttempt id := by
  simp [validateQuickSessionAttemptId, ValidAttempt]

theorem validateTextLimit_ok_iff {value : Text} {limit : Nat} {empty tooLong : QuickSessionError}
    {u : Unit} : validateTextLimit value limit empty tooLong = .ok u ↔
      trim value ≠ [] ∧ value.length ≤ limit := by
  rw [validateTextLimit, then_eq_ok_iff]
  simp

theorem validateHandlerField_ok_iff {field name : Text} {u : Unit} :
    validateHandlerField field name = .ok u ↔ handlerError name = none := by
  rw [validateHandlerField]
  cases h : handlerError name with
  | none => simp
  | some e => simp

theorem validateSummaryFields_ok_iff {m : QuickSessionMeta} {u : Unit} :
    validateSummaryFields m = .ok u ↔ (m.summary = none ∧ m.summaryUpdatedAt = none) ∨
      ∃ s t, m.summary = some s ∧ m.summaryUpdatedAt = some t ∧ ValidSummary s := by
  rw [validateSummaryFields]
  cases hs : m.summary with
  | none => cases ht : m.summaryUpdatedAt <;> simp
  | some s =>
    cases ht : m.summaryUpdatedAt with
    | none => simp
    | some t => simp [validateQuickSessionSummary, validateTextLimit_ok_iff, ValidSummary]

theorem validateClaimFields_ok_iff {m : QuickSessionMeta} {u : Unit} :
    validateClaimFields m = .ok u ↔
      (m.status = .running → ∃ p t a, m.processingInputLine = some p ∧ p ≠ 0 ∧
        m.processingStartedAt = some t ∧ m.attemptId = some a ∧ ValidAttempt a) ∧
      (m.status ≠ .running →
        m.processingInputLine = none ∧ m.processingStartedAt = none ∧ m.attemptId = none) := by
  rw [validateClaimFields]
  by_cases hr : m.status = .running
  · rw [if_pos hr, then_eq_ok_iff, refuse_eq_ok_iff, checkSome_eq_ok_iff]
    cases hp : m.processingInputLine <;> cases ht : m.processingStartedAt <;>
      cases ha : m.attemptId <;> simp [hr, hasCompleteClaim, hp, ht, ha, validateAttempt_ok_iff]
  · rw [if_neg hr, refuse_eq_ok_iff]
    cases hp : m.processingInputLine <;> cases ht : m.processingStartedAt <;>
      cases ha : m.attemptId <;> simp [hr, hasAnyClaim, hp, ht, ha]

theorem validateArchiveFields_ok_iff {m : QuickSessionMeta} {u : Unit} :
    validateArchiveFields m = .ok u ↔
      (m.status = .archived → m.archivedAt ≠ none ∧
        ((m.archivedFrom = some .active ∧ m.title ≠ none) ∨
          (m.archivedFrom = some .needsTitle ∧ m.title = none) ∨
          m.archivedFrom = some .error)) ∧
      (m.status ≠ .archived → m.archivedAt = none ∧ m.archivedFrom = none) := by
  rw [validateArchiveFields]
  by_cases ha : m.status = .archived
  · rw [if_pos ha, then_eq_ok_iff, refuse_eq_ok_iff]
    cases hf : m.archivedFrom with
    | none => simp [ha]
    | some from_ => cases from_ <;> cases ht : m.title <;> simp [ha]
  · rw [if_neg ha, refuse_eq_ok_iff]
    simp [ha]

theorem validateTitleStatus_ok_iff {m : QuickSessionMeta} {u : Unit} :
    validateTitleStatus m = .ok u ↔
      (m.status = .needsTitle → m.title = none) ∧ (m.status = .active → m.title ≠ none) := by
  rw [validateTitleStatus, then_eq_ok_iff, refuse_eq_ok_iff, refuse_eq_ok_iff]
  simp

theorem validateErrorFields_ok_iff {m : QuickSessionMeta} {u : Unit} :
    validateErrorFields m = .ok u ↔
      (∀ e, m.error = some e → trim e ≠ []) ∧ (requiresError m = true → m.error ≠ none) ∧
      (m.status = .running → m.error = none) ∧
      (m.error ≠ none → requiresError m = false → m.lastFailedAttemptId ≠ none) := by
  rw [validateErrorFields, then_eq_ok_iff, then_eq_ok_iff, then_eq_ok_iff]
  simp [Option.ne_none_iff_isSome]

theorem validateCompletionFields_ok_iff {m : QuickSessionMeta} {u : Unit} :
    validateCompletionFields m = .ok u ↔
      (m.lastCompletedAttemptId = none ∧ m.lastCompletedInputLine = none ∧
        m.lastCompletedLine = none) ∨
      ∃ a i o, m.lastCompletedAttemptId = some a ∧ m.lastCompletedInputLine = some i ∧
        m.lastCompletedLine = some o ∧ ValidAttempt a ∧ i ≠ 0 ∧ i < o ∧ KnownLine m i := by
  rw [validateCompletionFields, then_eq_ok_iff, refuse_eq_ok_iff]
  cases ha : m.lastCompletedAttemptId <;> cases hi : m.lastCompletedInputLine <;>
    cases ho : m.lastCompletedLine <;>
    simp [completedCount, ha, hi, ho, then_eq_ok_iff, validateAttempt_ok_iff,
      unknownLine_eq_false_iff, and_assoc]

theorem validateHumanFields_ok_iff {m : QuickSessionMeta} {u : Unit} :
    validateHumanFields m = .ok u ↔ m.lastHumanLine ≠ some 0 ∧
      (m.lastHumanRequestId ≠ none → m.lastHumanLine ≠ none) ∧
      ∀ p, m.processingInputLine = some p → KnownLine m p := by
  rw [validateHumanFields, then_eq_ok_iff, then_eq_ok_iff]
  simp [unknownLine_eq_false_iff, Option.ne_none_iff_isSome]

theorem validateFailureFields_ok_iff {m : QuickSessionMeta} {u : Unit} :
    validateFailureFields m = .ok u ↔ ∀ a, m.lastFailedAttemptId = some a →
      ValidAttempt a ∧ m.error ≠ none ∧ m.status ≠ .running := by
  rw [validateFailureFields, checkSome_eq_ok_iff]
  simp [then_eq_ok_iff, validateAttempt_ok_iff]

theorem validate_ok_iff {m : QuickSessionMeta} {u : Unit} :
    validateQuickSessionMeta m = .ok u ↔ ValidMeta m := by
  simp only [validateQuickSessionMeta, then_eq_ok_iff, validateQuickSessionId, refuse_eq_ok_iff,
    validateHandlerField_ok_iff, checkSome_eq_ok_iff, validateQuickSessionTitle,
    validateTextLimit_ok_iff, validateSummaryFields_ok_iff, validateClaimFields_ok_iff,
    validateArchiveFields_ok_iff, validateTitleStatus_ok_iff, validateErrorFields_ok_iff,
    validateCompletionFields_ok_iff, validateHumanFields_ok_iff, validateFailureFields_ok_iff,
    Bool.not_eq_false, Nat.not_lt]
  constructor
  · rintro ⟨hid, hagent, hcreator, hrev, htitle, hpreview, hsummary, hclaim, harchive, hstatus,
      herror, hcompletion, hhuman, hfailure⟩
    exact ⟨hid, hagent, hcreator, hrev, htitle, hpreview, hsummary, hclaim.1, hclaim.2, harchive.1,
      harchive.2, hstatus.1, hstatus.2, herror.1, herror.2.1, herror.2.2.1, herror.2.2.2,
      hcompletion, hhuman.1, hhuman.2.1, hhuman.2.2, hfailure⟩
  · intro h
    exact ⟨h.id, h.agentId, h.createdBy, h.revision, h.title, h.preview, h.summary,
      ⟨h.running, h.idle⟩, ⟨h.archived, h.unarchived⟩, ⟨h.untitled, h.titled⟩,
      ⟨h.errorText, h.errorKept, h.errorIdle, h.errorCause⟩, h.completion,
      ⟨h.humanLine, h.request, h.processing⟩, h.failed⟩

end Specification

section Inversion

theorem titleDerivedStatus_ne_running (m : QuickSessionMeta) :
    titleDerivedStatus m ≠ .running := by
  rw [titleDerivedStatus]
  split <;> decide

@[simp] theorem leaveError_revision (m : QuickSessionMeta) :
    (leaveError m).revision = m.revision := by
  rw [leaveError]
  split <;> rfl

@[simp] theorem leaveError_processingInputLine (m : QuickSessionMeta) :
    (leaveError m).processingInputLine = m.processingInputLine := by
  rw [leaveError]
  split <;> rfl

@[simp] theorem leaveError_attemptId (m : QuickSessionMeta) :
    (leaveError m).attemptId = m.attemptId := by
  rw [leaveError]
  split <;> rfl

@[simp] theorem leaveError_lastCompletedInputLine (m : QuickSessionMeta) :
    (leaveError m).lastCompletedInputLine = m.lastCompletedInputLine := by
  rw [leaveError]
  split <;> rfl

theorem leaveError_running {m : QuickSessionMeta} (h : (leaveError m).status = .running) :
    m.status = .running := by
  rw [leaveError] at h
  split at h
  · exact absurd h (titleDerivedStatus_ne_running m)
  · exact h

theorem finish_eq_ok_iff {m next : QuickSessionMeta} {now : Text} {o : TransitionOutcome} :
    finish m now = .ok (o, next) ↔ m.revision + 1 < u64Bound ∧ o = .applied ∧
      next = { m with updatedAt := now, revision := m.revision + 1 } := by
  rw [finish]
  split
  · rename_i hrev
    simp [hrev, eq_comm]
  · rename_i hrev
    simp [hrev]

theorem requireAttempt_eq_ok_iff {m : QuickSessionMeta} {attemptId : Text} {u : Unit} :
    requireAttempt m attemptId = .ok u ↔
      ValidAttempt attemptId ∧ m.status = .running ∧ m.attemptId = some attemptId := by
  rw [requireAttempt, then_eq_ok_iff, then_eq_ok_iff, validateAttempt_ok_iff]
  simp

variable {m next : QuickSessionMeta} {actor now : Text}

theorem applyHumanMessage_applied {line : Nat} {requestId : Option Text} {preview : Text}
    (h : applyHumanMessage m actor line requestId preview now = .ok (.applied, next)) :
    actor = m.createdBy ∧ m.status ≠ .archived ∧ line ≠ 0 ∧
      (∀ last, m.lastHumanLine = some last → last < line) ∧ m.revision + 1 < u64Bound ∧
      next = { leaveError m with
        lastHumanRequestId := requestId
        lastHumanLine := some line
        lastMessagePreview := truncateQuickSessionPreview preview
        updatedAt := now
        revision := m.revision + 1 } := by
  rw [applyHumanMessage, then_eq_ok_iff, requireCreator, refuse_eq_ok_iff] at h
  obtain ⟨hactor, h⟩ := h
  split at h
  · simp at h
  · simp only [then_eq_ok_iff, refuse_eq_ok_iff, checkSome_eq_ok_iff, finish_eq_ok_iff] at h
    obtain ⟨harch, hline, hstale, hrev, -, rfl⟩ := h
    rw [leaveError_revision] at hrev
    refine ⟨by simpa using hactor, harch, hline, fun last hl => ?_, hrev, ?_⟩
    · exact Nat.lt_of_not_le (hstale last hl)
    · rw [leaveError_revision]

theorem applyClaim_applied {line : Nat} {attemptId : Text}
    (h : applyClaim m actor line attemptId now = .ok (.applied, next)) :
    actor = m.agentId ∧ ValidAttempt attemptId ∧ (m.status = .needsTitle ∨ m.status = .active) ∧
      m.lastHumanLine = some line ∧ line ≠ 0 ∧
      (∀ done, m.lastCompletedInputLine = some done → done < line) ∧ m.revision + 1 < u64Bound ∧
      next = { m with
        status := .running
        processingInputLine := some line
        processingStartedAt := some now
        attemptId := some attemptId
        error := none
        lastFailedAttemptId := none
        updatedAt := now
        revision := m.revision + 1 } := by
  rw [applyClaim, then_eq_ok_iff, then_eq_ok_iff, requireAgent, refuse_eq_ok_iff,
    validateAttempt_ok_iff] at h
  obtain ⟨hactor, hvalid, h⟩ := h
  split at h
  · simp at h
  · simp only [then_eq_ok_iff, refuse_eq_ok_iff, checkSome_eq_ok_iff, finish_eq_ok_iff] at h
    obtain ⟨hstatus, hhuman, hzero, hstale, hrev, -, rfl⟩ := h
    refine ⟨by simpa using hactor, hvalid, ?_, by simpa using hhuman, hzero, fun done hd => ?_,
      hrev, rfl⟩
    · by_cases hn : m.status = .needsTitle
      · exact Or.inl hn
      · exact Or.inr (by simpa [hn] using hstatus)
    · exact Nat.lt_of_not_le (hstale done hd)

theorem applySetTitle_applied {attemptId title : Text}
    (h : applySetTitle m actor attemptId title now = .ok (.applied, next)) :
    actor = m.agentId ∧ m.status = .running ∧ m.attemptId = some attemptId ∧
      ValidTitle (trim title) ∧ m.revision + 1 < u64Bound ∧
      next = { m with
        title := some (trim title), updatedAt := now, revision := m.revision + 1 } := by
  rw [applySetTitle, then_eq_ok_iff, then_eq_ok_iff, then_eq_ok_iff, requireAgent,
    refuse_eq_ok_iff, requireAttempt_eq_ok_iff, validateQuickSessionTitle,
    validateTextLimit_ok_iff] at h
  obtain ⟨hactor, ⟨-, hrunning, hattempt⟩, htitle, h⟩ := h
  split at h
  · simp at h
  · obtain ⟨hrev, -, rfl⟩ := finish_eq_ok_iff.mp h
    exact ⟨by simpa using hactor, hrunning, hattempt, htitle, hrev, rfl⟩

theorem applySetSummary_applied {attemptId summary : Text}
    (h : applySetSummary m actor attemptId summary now = .ok (.applied, next)) :
    actor = m.agentId ∧ m.status = .running ∧ m.attemptId = some attemptId ∧
      ValidSummary (trim summary) ∧ m.revision + 1 < u64Bound ∧
      next = { m with
        summary := some (trim summary)
        summaryUpdatedAt := some now
        updatedAt := now
        revision := m.revision + 1 } := by
  rw [applySetSummary, then_eq_ok_iff, then_eq_ok_iff, then_eq_ok_iff, requireAgent,
    refuse_eq_ok_iff, requireAttempt_eq_ok_iff, validateQuickSessionSummary,
    validateTextLimit_ok_iff] at h
  obtain ⟨hactor, ⟨-, hrunning, hattempt⟩, hsummary, h⟩ := h
  split at h
  · simp at h
  · obtain ⟨hrev, -, rfl⟩ := finish_eq_ok_iff.mp h
    exact ⟨by simpa using hactor, hrunning, hattempt, hsummary, hrev, rfl⟩

theorem applyAgentReply_applied {input output : Nat} {attemptId preview : Text}
    (h : applyAgentReply m actor input attemptId output preview now = .ok (.applied, next)) :
    actor = m.agentId ∧ ValidAttempt attemptId ∧ m.status = .running ∧
      m.attemptId = some attemptId ∧ m.processingInputLine = some input ∧ m.title ≠ none ∧
      input < output ∧ m.revision + 1 < u64Bound ∧
      next = { clearClaim m with
        status := .active
        lastCompletedAttemptId := some attemptId
        lastCompletedInputLine := some input
        lastCompletedLine := some output
        lastMessagePreview := truncateQuickSessionPreview preview
        error := none
        lastFailedAttemptId := none
        updatedAt := now
        revision := m.revision + 1 } := by
  rw [applyAgentReply, then_eq_ok_iff, then_eq_ok_iff, requireAgent, refuse_eq_ok_iff] at h
  obtain ⟨hactor, -, h⟩ := h
  split at h
  · simp at h
  · simp only [then_eq_ok_iff, refuse_eq_ok_iff, requireAttempt_eq_ok_iff, finish_eq_ok_iff] at h
    obtain ⟨⟨hvalid, hrunning, hattempt⟩, hinput, htitle, hout, hrev, -, rfl⟩ := h
    exact ⟨by simpa using hactor, hvalid, hrunning, hattempt, by simpa using hinput, htitle,
      Nat.lt_of_not_le hout, hrev, rfl⟩

theorem applyMarkError_applied {attemptId error : Text}
    (h : applyMarkError m actor attemptId error now = .ok (.applied, next)) :
    actor = m.agentId ∧ ValidAttempt attemptId ∧ m.status = .running ∧
      m.attemptId = some attemptId ∧ trim error ≠ [] ∧ m.revision + 1 < u64Bound ∧
      ∃ claimed, m.processingInputLine = some claimed ∧
      next = { clearClaim m with
        status := if hasQueuedInput m claimed then titleDerivedStatus m else .error
        error := some (trim error)
        lastFailedAttemptId := some attemptId
        updatedAt := now
        revision := m.revision + 1 } := by
  rw [applyMarkError, then_eq_ok_iff, then_eq_ok_iff, requireAgent, refuse_eq_ok_iff] at h
  obtain ⟨hactor, -, h⟩ := h
  split at h
  · simp at h
  · simp only [then_eq_ok_iff, refuse_eq_ok_iff, requireAttempt_eq_ok_iff] at h
    obtain ⟨⟨hvalid, hrunning, hattempt⟩, herror, h⟩ := h
    split at h
    · cases h
    · rename_i claimed hclaimed
      obtain ⟨hrev, -, rfl⟩ := finish_eq_ok_iff.mp h
      exact ⟨by simpa using hactor, hvalid, hrunning, hattempt, herror, hrev, claimed, hclaimed,
        rfl⟩

theorem applyArchive_applied (h : applyArchive m actor now = .ok (.applied, next)) :
    actor = m.createdBy ∧ m.status ≠ .archived ∧ m.revision + 1 < u64Bound ∧
      next = { clearClaim m with
        archivedFrom := some (if m.status = .running then titleDerivedStatus m else m.status)
        status := .archived
        archivedAt := some now
        updatedAt := now
        revision := m.revision + 1 } := by
  simp only [applyArchive, then_eq_ok_iff, requireCreator, refuse_eq_ok_iff,
    finish_eq_ok_iff] at h
  obtain ⟨hactor, harch, hrev, -, rfl⟩ := h
  exact ⟨by simpa using hactor, harch, hrev, rfl⟩

theorem applyUnarchive_applied (h : applyUnarchive m actor now = .ok (.applied, next)) :
    actor = m.createdBy ∧ m.status = .archived ∧ m.revision + 1 < u64Bound ∧
      next = { clearClaim m with
        status := m.archivedFrom.getD (titleDerivedStatus m)
        error := if m.archivedFrom.getD (titleDerivedStatus m) ≠ .error then none else m.error
        lastFailedAttemptId :=
          if m.archivedFrom.getD (titleDerivedStatus m) ≠ .error then none
          else m.lastFailedAttemptId
        archivedAt := none
        archivedFrom := none
        updatedAt := now
        revision := m.revision + 1 } := by
  simp only [applyUnarchive, then_eq_ok_iff, requireCreator, refuse_eq_ok_iff,
    finish_eq_ok_iff] at h
  obtain ⟨hactor, harch, hrev, -, rfl⟩ := h
  exact ⟨by simpa using hactor, by simpa using harch, hrev, rfl⟩

/-- An applied transition leads from valid to valid metadata. -/
theorem applyQuickSessionTransition_applied {t : QuickSessionTransition}
    (h : applyQuickSessionTransition m t = .ok (.applied, next)) :
    ValidMeta m ∧ applyTransition m t = .ok (.applied, next) ∧ ValidMeta next := by
  rw [applyQuickSessionTransition, then_eq_ok_iff, validate_ok_iff, bind_eq_ok_iff] at h
  obtain ⟨hvalid, ⟨outcome, result⟩, happly, h⟩ := h
  simp only at h
  split at h
  · rename_i houtcome
    rw [then_eq_ok_iff, validate_ok_iff] at h
    obtain ⟨hnext, heq⟩ := h
    cases heq
    exact ⟨hvalid, happly, hnext⟩
  · rename_i houtcome
    cases h
    exact absurd rfl houtcome

end Inversion

end QuickSession
