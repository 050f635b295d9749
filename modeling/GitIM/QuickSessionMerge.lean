import GitIM.QuickSession
import GitIM.ThreadMerge

/-!
# Merging quick-session metadata

`merge_quick_session_meta` reconciles the local and the remote metadata of one
session after its threads have been merged. Each group of fields is merged by its
own rule; `MergeParts` collects their results, `assemble` builds the metadata, and
the validator has the last word. Local lines are translated through the mappings
of the thread merge.
-/

namespace QuickSessionMerge

open TextLines FileTree Checked ThreadFormat ThreadMerge QuickSession

structure Failure where
  attempt : Text
  error : Text
  updatedAt : Text
  humanLine : Option Nat
  deriving DecidableEq

structure Completion where
  attempt : Text
  input : Nat
  output : Nat
  deriving DecidableEq

structure Claim where
  attempt : Text
  input : Nat
  started : Text
  deriving DecidableEq

def conflict (message : String) : ConflictError := .quickSession message.toList

def translateLocal (mappings : List RenumberMapping) (threadPath : Path) (line : Nat) : Nat :=
  match mappings.find? (fun m => m.file = threadPath ∧ m.oldLine = line) with
  | some m => m.newLine
  | none => line

section Fields

def mergeTitle (localTitle remoteTitle : Option Text) : Except ConflictError (Option Text) :=
  match localTitle, remoteTitle with
  | some l, some r =>
    if l ≠ r then .error (conflict "concurrent titles differ") else .ok (some l)
  | some l, none => .ok (some l)
  | none, r => .ok r

def humanLine? {Json : Type} (createdBy : Text) : ThreadEntry Json → Option Nat
  | .message m => if m.author.name = createdBy then some m.lineNumber else none
  | .event _ => none

def newestHumanLine {Json : Type} (createdBy : Text) (entries : List (ThreadEntry Json)) :
    Option Nat :=
  (entries.filterMap (humanLine? createdBy)).max?

def finalPreview {Json : Type} (entries : List (ThreadEntry Json)) : Text :=
  (entries.reverse.findSome? fun
    | .message m => some (truncateQuickSessionPreview m.body)
    | .event _ => none).getD []

/-- The request id of the newest human line and the time of the side it comes from. -/
def lastHuman (localMeta remoteMeta : QuickSessionMeta) (localLine remoteLine newest : Option Nat) :
    Option Text × Option Text :=
  match localLine, remoteLine with
  | some l, some r =>
    if l > r then (localMeta.lastHumanRequestId, some localMeta.updatedAt)
    else (remoteMeta.lastHumanRequestId, some remoteMeta.updatedAt)
  | some l, none =>
    if some l = newest then (localMeta.lastHumanRequestId, some localMeta.updatedAt)
    else (none, none)
  | none, some _ => (remoteMeta.lastHumanRequestId, some remoteMeta.updatedAt)
  | none, none => (none, none)

def failureOf (m : QuickSessionMeta) (humanLine : Option Nat) : Option Failure :=
  match m.lastFailedAttemptId, m.error with
  | some attempt, some error => some ⟨attempt, error, m.updatedAt, humanLine⟩
  | _, _ => none

def laterFailure (localFailure remoteFailure : Option Failure) : Option Failure :=
  match localFailure, remoteFailure with
  | some l, some r => some (if r.updatedAt ≤ l.updatedAt then l else r)
  | some l, none => some l
  | none, r => r

/-- A failure older than the update of the newest human line is dropped. -/
def failureKept (humanUpdatedAt : Option Text) (f : Failure) : Bool :=
  match humanUpdatedAt with
  | some t => t ≤ f.updatedAt
  | none => true

def mergeFailure (localFailure remoteFailure : Option Failure) (humanUpdatedAt : Option Text) :
    Option Failure :=
  (laterFailure localFailure remoteFailure).filter (failureKept humanUpdatedAt)

def completionOf (m : QuickSessionMeta) (translate : Nat → Nat) : Option Completion :=
  match m.lastCompletedAttemptId, m.lastCompletedInputLine, m.lastCompletedLine with
  | some attempt, some input, some output => some ⟨attempt, translate input, translate output⟩
  | _, _, _ => none

/-- The order of completions by input, then output line. -/
def Completion.Le (a b : Completion) : Prop :=
  a.input < b.input ∨ (a.input = b.input ∧ a.output ≤ b.output)

instance (a b : Completion) : Decidable (a.Le b) := inferInstanceAs (Decidable (_ ∨ _))

def mergeCompletion (localCompletion remoteCompletion : Option Completion) :
    Except ConflictError (Option Completion) :=
  match localCompletion, remoteCompletion with
  | some l, some r =>
    if l.attempt ≠ r.attempt ∧ l.input = r.input then
      .error (conflict "different attempts completed the same input")
    else .ok (some (if r.Le l then l else r))
  | some l, none => .ok (some l)
  | none, r => .ok r

def claimOf (archiveWins : Bool) (m : QuickSessionMeta) (translate : Nat → Nat)
    (incomplete : ConflictError) : Except ConflictError (Option Claim) :=
  if archiveWins = false ∧ m.status = .running then
    match m.attemptId, m.processingInputLine, m.processingStartedAt with
    | some attempt, some input, some started => .ok (some ⟨attempt, translate input, started⟩)
    | _, _, _ => .error incomplete
  else .ok none

def claimCompleted (completion : Option Completion) (failure : Option Failure) (claim : Claim) :
    Bool :=
  completion.any (fun c => c.attempt = claim.attempt ∧ c.input = claim.input) ||
    failure.any (fun f => f.attempt = claim.attempt)

def mergeClaim (localClaim remoteClaim : Option Claim) : Except ConflictError (Option Claim) :=
  match localClaim, remoteClaim with
  | some l, some r =>
    if l.attempt ≠ r.attempt ∨ l.input ≠ r.input then
      .error (conflict "concurrent running claims differ")
    else .ok (some (if r.started ≤ l.started then l else r))
  | some l, none => .ok (some l)
  | none, r => .ok r

def mergeSummary (localMeta remoteMeta : QuickSessionMeta) : Option Text × Option Text :=
  match localMeta.summaryUpdatedAt, remoteMeta.summaryUpdatedAt with
  | some l, some r =>
    if r < l then (localMeta.summary, localMeta.summaryUpdatedAt)
    else (remoteMeta.summary, remoteMeta.summaryUpdatedAt)
  | some _, none => (localMeta.summary, localMeta.summaryUpdatedAt)
  | none, _ => (remoteMeta.summary, remoteMeta.summaryUpdatedAt)

/-- Whether a failure has seen the newest human line. -/
def failureCurrent (newest : Option Nat) (failure : Failure) : Bool :=
  match newest, failure.humanLine with
  | some newest, some seen => newest ≤ seen
  | _, _ => true

def stableStatus (claim : Option Claim) (failure : Option Failure) (newest : Option Nat)
    (title : Option Text) : QuickSessionStatus :=
  if claim.isSome then .running
  else if failure.any (failureCurrent newest) then .error
  else if title.isSome then .active
  else .needsTitle

def maxText (a b : Text) : Text := if a ≤ b then b else a

def maxOptionText (a b : Option Text) : Option Text :=
  match a, b with
  | some a, some b => some (maxText a b)
  | some a, none => some a
  | none, b => b

end Fields

section FieldLemmas

theorem mergeTitle_ok {l r t : Option Text} (h : mergeTitle l r = .ok t) :
    (∀ x, t = some x → l = some x ∨ r = some x) ∧ (l ≠ none ∨ r ≠ none → t ≠ none) := by
  cases l with
  | none =>
    cases h
    simp
  | some a =>
    cases r with
    | none =>
      cases h
      simp
    | some b =>
      rw [mergeTitle] at h
      split at h
      · cases h
      · cases h
        simp

theorem failureOf_eq_some_iff {m : QuickSessionMeta} {line : Option Nat} {f : Failure} :
    failureOf m line = some f ↔ m.lastFailedAttemptId = some f.attempt ∧
      m.error = some f.error ∧ m.updatedAt = f.updatedAt ∧ line = f.humanLine := by
  obtain ⟨attempt, error, updatedAt, humanLine⟩ := f
  cases ha : m.lastFailedAttemptId with
  | none => simp [failureOf, ha]
  | some a =>
    cases he : m.error with
    | none => simp [failureOf, ha, he]
    | some e => simp [failureOf, ha, he]

/-- A surviving failure is a failure of one side that the newest human line has not outdated. -/
theorem mergeFailure_eq_some {lf rf : Option Failure} {t : Option Text} {f : Failure}
    (h : mergeFailure lf rf t = some f) : lf = some f ∨ rf = some f := by
  rw [mergeFailure, Option.filter_eq_some_iff] at h
  obtain ⟨h, -⟩ := h
  cases lf with
  | none => exact Or.inr h
  | some a =>
    cases rf with
    | none => exact Or.inl h
    | some b =>
      simp only [laterFailure, Option.some.injEq] at h
      split at h
      · exact Or.inl (congrArg some h)
      · exact Or.inr (congrArg some h)

theorem completionOf_eq_some_iff {m : QuickSessionMeta} {translate : Nat → Nat} {c : Completion} :
    completionOf m translate = some c ↔ ∃ i o, m.lastCompletedAttemptId = some c.attempt ∧
      m.lastCompletedInputLine = some i ∧ m.lastCompletedLine = some o ∧
      c.input = translate i ∧ c.output = translate o := by
  obtain ⟨attempt, input, output⟩ := c
  cases ha : m.lastCompletedAttemptId <;> cases hi : m.lastCompletedInputLine <;>
    cases ho : m.lastCompletedLine <;> simp [completionOf, ha, hi, ho, eq_comm]

theorem Completion.le_refl (c : Completion) : c.Le c := Or.inr ⟨rfl, Nat.le_refl _⟩

theorem Completion.le_of_not_le {a b : Completion} (h : ¬ a.Le b) : b.Le a := by
  simp only [Completion.Le] at h ⊢
  omega

/-- The surviving completion is one of the two and not below either. -/
theorem mergeCompletion_ok {lc rc c : Option Completion} (h : mergeCompletion lc rc = .ok c) :
    (∀ x, c = some x → lc = some x ∨ rc = some x) ∧
      ∀ x, lc = some x ∨ rc = some x → ∃ y, c = some y ∧ x.Le y := by
  cases lc with
  | none =>
    cases h
    exact ⟨fun x hx => Or.inr hx, fun x hx => ⟨x, by simpa using hx, x.le_refl⟩⟩
  | some a =>
    cases rc with
    | none =>
      cases h
      exact ⟨fun x hx => Or.inl hx, fun x hx => ⟨x, by simpa using hx, x.le_refl⟩⟩
    | some b =>
      rw [mergeCompletion] at h
      split at h
      · cases h
      · cases h
        by_cases hle : b.Le a
        · rw [if_pos hle]
          refine ⟨fun x hx => Or.inl hx, ?_⟩
          rintro x (hx | hx)
          · exact ⟨a, rfl, Option.some.inj hx ▸ x.le_refl⟩
          · exact ⟨a, rfl, Option.some.inj hx ▸ hle⟩
        · rw [if_neg hle]
          refine ⟨fun x hx => Or.inr hx, ?_⟩
          rintro x (hx | hx)
          · exact ⟨b, rfl, Option.some.inj hx ▸ Completion.le_of_not_le hle⟩
          · exact ⟨b, rfl, Option.some.inj hx ▸ x.le_refl⟩

/-- The claim of a side: present when it is running and no side is archived. -/
structure ClaimOf (archived : Bool) (m : QuickSessionMeta) (translate : Nat → Nat) (c : Claim) :
    Prop where
  live : archived = false
  running : m.status = .running
  attempt : m.attemptId = some c.attempt
  started : m.processingStartedAt = some c.started
  input : ∃ p, m.processingInputLine = some p ∧ c.input = translate p

theorem claimOf_eq_some {archived : Bool} {m : QuickSessionMeta} {translate : Nat → Nat}
    {e : ConflictError} {c : Claim} (h : claimOf archived m translate e = .ok (some c)) :
    ClaimOf archived m translate c := by
  rw [claimOf] at h
  split at h
  · rename_i hlive
    split at h
    · rename_i attempt input started ha hp hs
      cases h
      exact ⟨hlive.1, hlive.2, ha, hs, input, hp, rfl⟩
    · cases h
  · cases h

theorem claimOf_valid {m : QuickSessionMeta} (hm : ValidMeta m) (archived : Bool)
    (translate : Nat → Nat) (e : ConflictError) :
    ∃ c, claimOf archived m translate e = .ok c := by
  rw [claimOf]
  split
  · rename_i hlive
    obtain ⟨p, t, a, hp, -, ht, ha, -⟩ := hm.running hlive.2
    exact ⟨some ⟨a, translate p, t⟩, by simp [hp, ht, ha]⟩
  · exact ⟨none, rfl⟩

theorem mergeClaim_ok {lc rc : Option Claim} {c : Claim} (h : mergeClaim lc rc = .ok (some c)) :
    lc = some c ∨ rc = some c := by
  cases lc with
  | none =>
    cases h
    exact Or.inr rfl
  | some a =>
    cases rc with
    | none =>
      cases h
      exact Or.inl rfl
    | some b =>
      rw [mergeClaim] at h
      split at h
      · cases h
      · cases h
        split
        · exact Or.inl rfl
        · exact Or.inr rfl

end FieldLemmas

structure MergeParts where
  title : Option Text
  newest : Option Nat
  preview : Text
  requestId : Option Text
  failure : Option Failure
  completion : Option Completion
  claim : Option Claim

section Merge
variable {Json : Type} (codec : JsonCodec Json)

def archiveWins (localMeta remoteMeta : QuickSessionMeta) : Bool :=
  localMeta.status = .archived || remoteMeta.status = .archived

/-- Everything up to the choice of the status. -/
def mergeParts (localMeta remoteMeta : QuickSessionMeta) (mergedThread : Text)
    (mappings : List RenumberMapping) (threadPath : Path) : Except ConflictError MergeParts := do
  let title ← mergeTitle localMeta.title remoteMeta.title
  let translate := translateLocal mappings threadPath
  let parsed ← (parseThread codec mergedThread).mapError .parse
  let newest := newestHumanLine localMeta.createdBy parsed.entries
  let localLine := localMeta.lastHumanLine.map translate
  let remoteLine := remoteMeta.lastHumanLine
  let human := lastHuman localMeta remoteMeta localLine remoteLine newest
  let failure := mergeFailure (failureOf localMeta localLine) (failureOf remoteMeta remoteLine)
    human.2
  let completion ← mergeCompletion (completionOf localMeta translate) (completionOf remoteMeta id)
  refuse (completion.any (fun c => failure.any fun f => f.attempt = c.attempt) = true)
    (conflict "the same attempt both completed and failed")
  let localClaim ← claimOf (archiveWins localMeta remoteMeta) localMeta translate
    (conflict "local running claim is incomplete")
  let remoteClaim ← claimOf (archiveWins localMeta remoteMeta) remoteMeta id
    (conflict "remote running claim is incomplete")
  let claim ← mergeClaim (localClaim.filter fun c => !claimCompleted completion failure c)
    (remoteClaim.filter fun c => !claimCompleted completion failure c)
  refuse (claim.any (fun c => failure.any fun f => f.attempt ≠ c.attempt) = true)
    (conflict "a running claim conflicts with a failed attempt")
  .ok ⟨title, newest, finalPreview parsed.entries, human.1, failure, completion, claim⟩

def assemble (localMeta remoteMeta : QuickSessionMeta) (parts : MergeParts) (revision : Nat) :
    QuickSessionMeta where
  id := localMeta.id
  title := parts.title
  agentId := localMeta.agentId
  createdBy := localMeta.createdBy
  status :=
    if archiveWins localMeta remoteMeta then .archived
    else stableStatus parts.claim parts.failure parts.newest parts.title
  createdAt := localMeta.createdAt
  updatedAt := maxText localMeta.updatedAt remoteMeta.updatedAt
  archivedAt :=
    if archiveWins localMeta remoteMeta then
      maxOptionText localMeta.archivedAt remoteMeta.archivedAt
    else none
  archivedFrom :=
    if archiveWins localMeta remoteMeta then
      some (stableStatus parts.claim parts.failure parts.newest parts.title)
    else none
  summary := (mergeSummary localMeta remoteMeta).1
  summaryUpdatedAt := (mergeSummary localMeta remoteMeta).2
  lastMessagePreview := parts.preview
  error := parts.failure.map Failure.error
  processingInputLine := parts.claim.map Claim.input
  processingStartedAt := parts.claim.map Claim.started
  attemptId := parts.claim.map Claim.attempt
  lastCompletedAttemptId := parts.completion.map Completion.attempt
  lastCompletedInputLine := parts.completion.map Completion.input
  lastCompletedLine := parts.completion.map Completion.output
  lastFailedAttemptId := parts.failure.map Failure.attempt
  lastHumanRequestId := parts.requestId
  lastHumanLine := parts.newest
  revision := revision

def checkedValid (m : QuickSessionMeta) : Except ConflictError Unit :=
  (validateQuickSessionMeta m).mapError fun e => .quickSession e.text

def mergeQuickSessionMeta (localMeta remoteMeta : QuickSessionMeta) (mergedThread : Text)
    (mappings : List RenumberMapping) (threadPath : Path) :
    Except ConflictError QuickSessionMeta := do
  checkedValid localMeta
  checkedValid remoteMeta
  refuse (localMeta.id ≠ remoteMeta.id ∨ localMeta.agentId ≠ remoteMeta.agentId ∨
    localMeta.createdBy ≠ remoteMeta.createdBy ∨ localMeta.createdAt ≠ remoteMeta.createdAt)
    (conflict "immutable metadata differs")
  let parts ← mergeParts codec localMeta remoteMeta mergedThread mappings threadPath
  let revision := max localMeta.revision remoteMeta.revision + 1
  refuse (u64Bound ≤ revision) (conflict "revision overflow")
  let merged := assemble localMeta remoteMeta parts revision
  checkedValid merged
  .ok merged

theorem checkedValid_eq_ok_iff {m : QuickSessionMeta} {u : Unit} :
    checkedValid m = .ok u ↔ ValidMeta m := by
  rw [checkedValid, mapError_eq_ok_iff, validate_ok_iff]

/-- The results of the field merges that a successful merge assembles. -/
structure MergedFrom (localMeta remoteMeta : QuickSessionMeta) (entries : List (ThreadEntry Json))
    (translate : Nat → Nat) (parts : MergeParts) : Prop where
  title : mergeTitle localMeta.title remoteMeta.title = .ok parts.title
  newest : parts.newest = newestHumanLine localMeta.createdBy entries
  preview : parts.preview = finalPreview entries
  requestId : parts.requestId = (lastHuman localMeta remoteMeta
    (localMeta.lastHumanLine.map translate) remoteMeta.lastHumanLine parts.newest).1
  failure : parts.failure = mergeFailure
    (failureOf localMeta (localMeta.lastHumanLine.map translate))
    (failureOf remoteMeta remoteMeta.lastHumanLine)
    (lastHuman localMeta remoteMeta (localMeta.lastHumanLine.map translate)
      remoteMeta.lastHumanLine parts.newest).2
  completion : mergeCompletion (completionOf localMeta translate) (completionOf remoteMeta id) =
    .ok parts.completion
  claim : ∃ localClaim remoteClaim,
    claimOf (archiveWins localMeta remoteMeta) localMeta translate
      (conflict "local running claim is incomplete") = .ok localClaim ∧
    claimOf (archiveWins localMeta remoteMeta) remoteMeta id
      (conflict "remote running claim is incomplete") = .ok remoteClaim ∧
    mergeClaim (localClaim.filter fun c => !claimCompleted parts.completion parts.failure c)
      (remoteClaim.filter fun c => !claimCompleted parts.completion parts.failure c) =
      .ok parts.claim
  agree : ∀ c f, parts.claim = some c → parts.failure = some f → f.attempt = c.attempt

theorem mergeParts_ok {localMeta remoteMeta : QuickSessionMeta} {mergedThread : Text}
    {mappings : List RenumberMapping} {threadPath : Path} {parts : MergeParts}
    (h : mergeParts codec localMeta remoteMeta mergedThread mappings threadPath = .ok parts) :
    ∃ parsed, parseThread codec mergedThread = .ok parsed ∧
      MergedFrom localMeta remoteMeta parsed.entries (translateLocal mappings threadPath) parts := by
  simp only [mergeParts, bind_eq_ok_iff, mapError_eq_ok_iff, refuse_eq_ok_iff] at h
  obtain ⟨title, htitle, parsed, hparsed, completion, hcompletion, -, -, localClaim, hlocal,
    remoteClaim, hremote, claim, hclaim, -, hagree, heq⟩ := h
  cases heq
  refine ⟨parsed, hparsed, ⟨htitle, rfl, rfl, rfl, rfl, hcompletion,
    ⟨localClaim, remoteClaim, hlocal, hremote, hclaim⟩, ?_⟩⟩
  intro c f hc hf
  by_contra hne
  apply hagree
  simp only at hc hf
  simp [hc, hf, hne]

end Merge

section Totality
variable {Json : Type} (codec : JsonCodec Json)

/-- A line of the thread at which the session's creator wrote a message. -/
def HumanLine (entries : List (ThreadEntry Json)) (createdBy : Text) (line : Nat) : Prop :=
  ∃ m, .message m ∈ entries ∧ m.author.name = createdBy ∧ m.lineNumber = line

theorem newestHumanLine_ge {entries : List (ThreadEntry Json)} {createdBy : Text} {line : Nat}
    (h : HumanLine entries createdBy line) :
    ∃ n, newestHumanLine createdBy entries = some n ∧ line ≤ n := by
  obtain ⟨m, hm, hauthor, rfl⟩ := h
  have hmem : m.lineNumber ∈ entries.filterMap (humanLine? createdBy) :=
    List.mem_filterMap.mpr ⟨.message m, hm, by simp [humanLine?, hauthor]⟩
  cases hmax : (entries.filterMap (humanLine? createdBy)).max? with
  | none =>
    rw [List.max?_eq_none_iff] at hmax
    simp [hmax] at hmem
  | some n => exact ⟨n, hmax, (List.max?_eq_some_iff.mp hmax).2 _ hmem⟩

theorem humanLine_newest {entries : List (ThreadEntry Json)} {createdBy : Text} {n : Nat}
    (h : newestHumanLine createdBy entries = some n) : HumanLine entries createdBy n := by
  obtain ⟨entry, hentry, hline⟩ := List.mem_filterMap.mp (List.max?_eq_some_iff.mp h).1
  cases entry with
  | event e => simp [humanLine?] at hline
  | message m =>
    simp only [humanLine?] at hline
    split at hline
    · rename_i hauthor
      exact ⟨m, hentry, hauthor, Option.some.inj hline⟩
    · cases hline

theorem finalPreview_length (entries : List (ThreadEntry Json)) :
    (finalPreview entries).length ≤ 160 := by
  rw [finalPreview]
  cases h : entries.reverse.findSome? _ with
  | none => simp
  | some preview =>
    obtain ⟨entry, -, hpreview⟩ := List.exists_of_findSome?_eq_some h
    cases entry with
    | event e => simp at hpreview
    | message m =>
      cases hpreview
      simp [truncateQuickSessionPreview]

/-- Two valid histories of one session and a merged thread that holds their human lines. -/
structure CompatibleSides (localMeta remoteMeta : QuickSessionMeta) (mergedThread : Text)
    (entries : List (ThreadEntry Json)) (translate : Nat → Nat) : Prop where
  validLocal : validateQuickSessionMeta localMeta = .ok ()
  validRemote : validateQuickSessionMeta remoteMeta = .ok ()
  id : localMeta.id = remoteMeta.id
  agentId : localMeta.agentId = remoteMeta.agentId
  createdBy : localMeta.createdBy = remoteMeta.createdBy
  createdAt : localMeta.createdAt = remoteMeta.createdAt
  parsed : parseThread codec mergedThread = .ok ⟨entries⟩
  localLines : ∀ line, localMeta.lastHumanLine = some line ∨
    localMeta.processingInputLine = some line ∨ localMeta.lastCompletedInputLine = some line →
    HumanLine entries localMeta.createdBy (translate line)
  remoteLines : ∀ line, remoteMeta.lastHumanLine = some line ∨
    remoteMeta.processingInputLine = some line ∨ remoteMeta.lastCompletedInputLine = some line →
    HumanLine entries localMeta.createdBy line

/-- The conflicts a merge may report. -/
def namedConflicts : List Text :=
  ["concurrent titles differ".toList, "different attempts completed the same input".toList,
    "the same attempt both completed and failed".toList,
    "concurrent running claims differ".toList,
    "a running claim conflicts with a failed attempt".toList, "revision overflow".toList]

/-- The merged metadata is not behind either side. -/
structure NotBehind (localMeta remoteMeta merged : QuickSessionMeta) (translate : Nat → Nat) :
    Prop where
  revision : localMeta.revision < merged.revision ∧ remoteMeta.revision < merged.revision
  localHuman : ∀ line, localMeta.lastHumanLine = some line → KnownLine merged (translate line)
  remoteHuman : ∀ line, remoteMeta.lastHumanLine = some line → KnownLine merged line
  completion : ∀ c, completionOf localMeta translate = some c ∨ completionOf remoteMeta id = some c →
    ∃ d, completionOf merged id = some d ∧ c.Le d
  archived : merged.status = .archived ↔
    localMeta.status = .archived ∨ remoteMeta.status = .archived
  title : localMeta.title ≠ none ∨ remoteMeta.title ≠ none → merged.title ≠ none
  summary : localMeta.summary ≠ none ∨ remoteMeta.summary ≠ none → merged.summary ≠ none

/-- The merge reports a named conflict or yields metadata that is not behind either side. -/
def MergeTotal (localMeta remoteMeta : QuickSessionMeta) (mergedThread : Text)
    (mappings : List RenumberMapping) (threadPath : Path) : Prop :=
  (∃ message ∈ namedConflicts,
    mergeQuickSessionMeta codec localMeta remoteMeta mergedThread mappings threadPath =
      .error (.quickSession message)) ∨
  ∃ merged,
    mergeQuickSessionMeta codec localMeta remoteMeta mergedThread mappings threadPath =
      .ok merged ∧
    NotBehind localMeta remoteMeta merged (translateLocal mappings threadPath)

theorem mergeTitle_error {l r : Option Text} {e : ConflictError} (h : mergeTitle l r = .error e) :
    e = conflict "concurrent titles differ" := by
  rw [mergeTitle.eq_def] at h
  split at h
  · split at h
    · exact (Except.error.inj h).symm
    · cases h
  · cases h
  · cases h

theorem mergeCompletion_error {lc rc : Option Completion} {e : ConflictError}
    (h : mergeCompletion lc rc = .error e) :
    e = conflict "different attempts completed the same input" := by
  rw [mergeCompletion.eq_def] at h
  split at h
  · split at h
    · exact (Except.error.inj h).symm
    · cases h
  · cases h
  · cases h

theorem mergeClaim_error {lc rc : Option Claim} {e : ConflictError}
    (h : mergeClaim lc rc = .error e) : e = conflict "concurrent running claims differ" := by
  rw [mergeClaim.eq_def] at h
  split at h
  · split at h
    · exact (Except.error.inj h).symm
    · cases h
  · cases h
  · cases h

/-- The field merges of two valid sides fail with a named conflict only. -/
theorem mergeParts_error {localMeta remoteMeta : QuickSessionMeta} {mergedThread : Text}
    {mappings : List RenumberMapping} {threadPath : Path} {entries : List (ThreadEntry Json)}
    (hl : ValidMeta localMeta) (hr : ValidMeta remoteMeta)
    (hparsed : parseThread codec mergedThread = .ok ⟨entries⟩) {e : ConflictError}
    (h : mergeParts codec localMeta remoteMeta mergedThread mappings threadPath = .error e) :
    ∃ message ∈ namedConflicts, e = .quickSession message := by
  obtain ⟨lc, hlc⟩ := claimOf_valid hl (archiveWins localMeta remoteMeta)
    (translateLocal mappings threadPath) (conflict "local running claim is incomplete")
  obtain ⟨rc, hrc⟩ := claimOf_valid hr (archiveWins localMeta remoteMeta)
    id (conflict "remote running claim is incomplete")
  have hthread : (parseThread codec mergedThread).mapError ConflictError.parse = .ok ⟨entries⟩ :=
    mapError_eq_ok_iff.mpr hparsed
  simp only [mergeParts, bind_eq_error_iff, hthread, hlc, hrc, refuse_eq_error_iff] at h
  rcases h with h | ⟨_, -, h | ⟨_, -, h | ⟨_, -, ⟨-, rfl⟩ | ⟨_, -, h | ⟨_, -, h | ⟨_, -, h |
    ⟨_, -, ⟨-, rfl⟩ | ⟨_, -, h⟩⟩⟩⟩⟩⟩⟩⟩
  · refine ⟨_, ?_, mergeTitle_error h⟩
    simp only [namedConflicts, List.mem_cons, true_or]
  · cases h
  · refine ⟨_, ?_, mergeCompletion_error h⟩
    simp only [namedConflicts, List.mem_cons, true_or, or_true]
  · refine ⟨_, ?_, rfl⟩
    simp only [namedConflicts, List.mem_cons, true_or, or_true]
  · cases h
  · cases h
  · refine ⟨_, ?_, mergeClaim_error h⟩
    simp only [namedConflicts, List.mem_cons, true_or, or_true]
  · refine ⟨_, ?_, rfl⟩
    simp only [namedConflicts, List.mem_cons, true_or, or_true]
  · cases h

theorem stableStatus_cases (claim : Option Claim) (failure : Option Failure) (newest : Option Nat)
    (title : Option Text) :
    (stableStatus claim failure newest title = .running ∧ claim ≠ none) ∨
    (stableStatus claim failure newest title = .error ∧ claim = none ∧ failure ≠ none) ∨
    (stableStatus claim failure newest title = .active ∧ claim = none ∧ title ≠ none) ∨
    (stableStatus claim failure newest title = .needsTitle ∧ claim = none ∧ title = none) := by
  rw [stableStatus]
  cases claim with
  | some c => simp
  | none =>
    by_cases hf : failure.any (failureCurrent newest) = true
    · have hne : failure ≠ none := by
        rintro rfl
        simp at hf
      simp [hf, hne]
    · cases title with
      | none => simp [hf]
      | some t => simp [hf]

theorem stableStatus_title (claim : Option Claim) (failure : Option Failure)
    (newest : Option Nat) (title : Option Text) :
    (stableStatus claim failure newest title = .needsTitle → title = none) ∧
      (stableStatus claim failure newest title = .active → title ≠ none) := by
  rcases stableStatus_cases claim failure newest title with
    ⟨hst, -⟩ | ⟨hst, -⟩ | ⟨hst, -, ht⟩ | ⟨hst, -, ht⟩ <;> rw [hst]
  · simp
  · simp
  · simp [ht]
  · simp [ht]

theorem lastHuman_request {localMeta remoteMeta : QuickSessionMeta} {l r newest : Option Nat}
    (h : (lastHuman localMeta remoteMeta l r newest).1 ≠ none) : l ≠ none ∨ r ≠ none := by
  cases l with
  | some l => simp
  | none =>
    cases r with
    | some r => simp
    | none => simp [lastHuman] at h

section Assembly
variable {codec} {localMeta remoteMeta : QuickSessionMeta} {mergedThread : Text}
  {entries : List (ThreadEntry Json)} {translate : Nat → Nat} {parts : MergeParts}

theorem merged_claim_facts (hs : CompatibleSides codec localMeta remoteMeta mergedThread entries
    translate) (h : MergedFrom localMeta remoteMeta entries translate parts) {c : Claim}
    (hc : parts.claim = some c) :
    archiveWins localMeta remoteMeta = false ∧ ValidAttempt c.attempt ∧
      HumanLine entries localMeta.createdBy c.input := by
  obtain ⟨lc, rc, hlc, hrc, hclaim⟩ := h.claim
  rw [hc] at hclaim
  rcases mergeClaim_ok hclaim with hside | hside
  · rw [(Option.filter_eq_some_iff.mp hside).1] at hlc
    have hof := claimOf_eq_some hlc
    obtain ⟨p, hp, hinput⟩ := hof.input
    obtain ⟨_, _, a, -, -, -, ha, hvalid⟩ := (validate_ok_iff.mp hs.validLocal).running hof.running
    refine ⟨hof.live, ?_, ?_⟩
    · rwa [← Option.some.inj (ha.symm.trans hof.attempt)]
    · rw [hinput]
      exact hs.localLines p (Or.inr (Or.inl hp))
  · rw [(Option.filter_eq_some_iff.mp hside).1] at hrc
    have hof := claimOf_eq_some hrc
    obtain ⟨p, hp, hinput⟩ := hof.input
    obtain ⟨_, _, a, -, -, -, ha, hvalid⟩ := (validate_ok_iff.mp hs.validRemote).running hof.running
    refine ⟨hof.live, ?_, ?_⟩
    · rwa [← Option.some.inj (ha.symm.trans hof.attempt)]
    · rw [hinput]
      exact hs.remoteLines p (Or.inr (Or.inl hp))

theorem merged_failure_facts (hl : ValidMeta localMeta) (hr : ValidMeta remoteMeta)
    (h : MergedFrom localMeta remoteMeta entries translate parts) {f : Failure}
    (hf : parts.failure = some f) : ValidAttempt f.attempt ∧ TextScan.trim f.error ≠ [] := by
  rw [h.failure] at hf
  rcases mergeFailure_eq_some hf with hside | hside
  · obtain ⟨ha, he, -, -⟩ := failureOf_eq_some_iff.mp hside
    exact ⟨(hl.failed _ ha).1, hl.errorText _ he⟩
  · obtain ⟨ha, he, -, -⟩ := failureOf_eq_some_iff.mp hside
    exact ⟨(hr.failed _ ha).1, hr.errorText _ he⟩

theorem completionOf_valid {m : QuickSessionMeta} (hm : ValidMeta m) {translate : Nat → Nat}
    {c : Completion} (hc : completionOf m translate = some c) :
    ValidAttempt c.attempt ∧ ∃ i o, m.lastCompletedInputLine = some i ∧
      m.lastCompletedLine = some o ∧ i < o ∧ c.input = translate i ∧ c.output = translate o := by
  obtain ⟨i, o, ha, hi, ho, hin, hout⟩ := completionOf_eq_some_iff.mp hc
  rcases hm.completion with hnone | ⟨a, i', o', ha', hi', ho', hvalid, -, hlt, -⟩
  · simp [hnone.1] at ha
  · cases Option.some.inj (ha'.symm.trans ha)
    cases Option.some.inj (hi'.symm.trans hi)
    cases Option.some.inj (ho'.symm.trans ho)
    exact ⟨hvalid, i, o, hi, ho, hlt, hin, hout⟩

theorem merged_completion_facts (hs : CompatibleSides codec localMeta remoteMeta mergedThread
    entries translate)
    (ordered : ∀ i o, localMeta.lastCompletedInputLine = some i →
      localMeta.lastCompletedLine = some o → translate i < translate o)
    (h : MergedFrom localMeta remoteMeta entries translate parts) {c : Completion}
    (hc : parts.completion = some c) :
    ValidAttempt c.attempt ∧ c.input < c.output ∧
      HumanLine entries localMeta.createdBy c.input := by
  rcases (mergeCompletion_ok h.completion).1 c hc with hside | hside
  · obtain ⟨hvalid, i, o, hi, ho, -, hin, hout⟩ :=
      completionOf_valid (validate_ok_iff.mp hs.validLocal) hside
    rw [hin, hout]
    exact ⟨hvalid, ordered i o hi ho, hs.localLines i (Or.inr (Or.inr hi))⟩
  · obtain ⟨hvalid, i, o, hi, ho, hlt, hin, hout⟩ :=
      completionOf_valid (validate_ok_iff.mp hs.validRemote) hside
    rw [hin, hout]
    exact ⟨hvalid, hlt, hs.remoteLines i (Or.inr (Or.inr hi))⟩

/-- A surviving claim leaves no failure behind. -/
theorem merged_claim_no_failure (h : MergedFrom localMeta remoteMeta entries translate parts)
    {c : Claim} (hc : parts.claim = some c) : parts.failure = none := by
  cases hf : parts.failure with
  | none => rfl
  | some f =>
    have hsame := h.agree c f hc hf
    obtain ⟨lc, rc, -, -, hclaim⟩ := h.claim
    rw [hc] at hclaim
    have hopen : claimCompleted parts.completion parts.failure c = false := by
      rcases mergeClaim_ok hclaim with hside | hside
      · simpa using (Option.filter_eq_some_iff.mp hside).2
      · simpa using (Option.filter_eq_some_iff.mp hside).2
    simp [claimCompleted, hf, hsame] at hopen

theorem merged_known (h : MergedFrom localMeta remoteMeta entries translate parts)
    {revision line : Nat} (hline : HumanLine entries localMeta.createdBy line) :
    KnownLine (assemble localMeta remoteMeta parts revision) line := by
  obtain ⟨n, hn, hle⟩ := newestHumanLine_ge hline
  exact ⟨n, h.newest.trans hn, hle⟩

theorem mergeSummary_valid (hl : ValidMeta localMeta) (hr : ValidMeta remoteMeta) :
    ((mergeSummary localMeta remoteMeta).1 = none ∧ (mergeSummary localMeta remoteMeta).2 = none) ∨
      ∃ s t, (mergeSummary localMeta remoteMeta).1 = some s ∧
        (mergeSummary localMeta remoteMeta).2 = some t ∧ ValidSummary s := by
  rw [mergeSummary.eq_def]
  split
  · split
    · exact hl.summary
    · exact hr.summary
  · exact hl.summary
  · exact hr.summary

theorem maxOptionText_ne_none {a b : Option Text} (h : a ≠ none ∨ b ≠ none) :
    maxOptionText a b ≠ none := by
  cases a with
  | none => simpa [maxOptionText] using h
  | some a => cases b <;> simp [maxOptionText]

/-- The status of the assembled metadata, with what it rests on. -/
theorem assemble_status (hs : CompatibleSides codec localMeta remoteMeta mergedThread entries
    translate) (h : MergedFrom localMeta remoteMeta entries translate parts) (revision : Nat) :
    ((assemble localMeta remoteMeta parts revision).status = .archived ↔
      archiveWins localMeta remoteMeta = true) ∧
    ((assemble localMeta remoteMeta parts revision).status = .running ↔ parts.claim ≠ none) := by
  have hstatus := stableStatus_cases parts.claim parts.failure parts.newest parts.title
  simp only [assemble]
  by_cases harch : archiveWins localMeta remoteMeta = true
  · have hnone : parts.claim = none := by
      cases hc : parts.claim with
      | none => rfl
      | some c =>
        have hfalse := (merged_claim_facts hs h hc).1
        simp [harch] at hfalse
    simp [harch, hnone]
  · rw [if_neg harch]
    rcases hstatus with ⟨hst, hc⟩ | ⟨hst, hc, -⟩ | ⟨hst, hc, -⟩ | ⟨hst, hc, -⟩ <;> rw [hst]
    · simp [harch, hc]
    · simp [harch, hc]
    · simp [harch, hc]
    · simp [harch, hc]

theorem assemble_archive_valid (hs : CompatibleSides codec localMeta remoteMeta mergedThread
    entries translate) (h : MergedFrom localMeta remoteMeta entries translate parts)
    (harch : archiveWins localMeta remoteMeta = true) :
    maxOptionText localMeta.archivedAt remoteMeta.archivedAt ≠ none ∧
    ((stableStatus parts.claim parts.failure parts.newest parts.title = .active ∧
        parts.title ≠ none) ∨
      (stableStatus parts.claim parts.failure parts.newest parts.title = .needsTitle ∧
        parts.title = none) ∨
      stableStatus parts.claim parts.failure parts.newest parts.title = .error) := by
  constructor
  · apply maxOptionText_ne_none
    simp only [archiveWins, Bool.or_eq_true, decide_eq_true_eq] at harch
    exact harch.imp (fun ha => ((validate_ok_iff.mp hs.validLocal).archived ha).1)
      (fun ha => ((validate_ok_iff.mp hs.validRemote).archived ha).1)
  · rcases stableStatus_cases parts.claim parts.failure parts.newest parts.title with
      ⟨-, hc⟩ | ⟨hst, -⟩ | ⟨hst, -, ht⟩ | ⟨hst, -, ht⟩
    · obtain ⟨c, hc⟩ := Option.ne_none_iff_exists'.mp hc
      have hfalse := (merged_claim_facts hs h hc).1
      simp [harch] at hfalse
    · exact Or.inr (Or.inr hst)
    · exact Or.inl ⟨hst, ht⟩
    · exact Or.inr (Or.inl ⟨hst, ht⟩)

/-- An error status, kept or archived, rests on a surviving failure. -/
theorem assemble_requiresError {revision : Nat}
    (h : requiresError (assemble localMeta remoteMeta parts revision) = true) :
    parts.failure ≠ none := by
  have hstatus := stableStatus_cases parts.claim parts.failure parts.newest parts.title
  have herror : stableStatus parts.claim parts.failure parts.newest parts.title = .error := by
    simp only [requiresError, assemble] at h
    by_cases harch : archiveWins localMeta remoteMeta = true
    · simpa [harch] using h
    · simpa [harch] using h
  rcases hstatus with ⟨hst, -⟩ | ⟨-, -, hf⟩ | ⟨hst, -⟩ | ⟨hst, -⟩
  · cases herror.symm.trans hst
  · exact hf
  · cases herror.symm.trans hst
  · cases herror.symm.trans hst

/-- What the merge assembles passes the validator. -/
theorem assemble_valid (hs : CompatibleSides codec localMeta remoteMeta mergedThread entries
    translate) (positive : ∀ line, HumanLine entries localMeta.createdBy line → line ≠ 0)
    (ordered : ∀ i o, localMeta.lastCompletedInputLine = some i →
      localMeta.lastCompletedLine = some o → translate i < translate o)
    (h : MergedFrom localMeta remoteMeta entries translate parts) {revision : Nat}
    (hrev : revision ≠ 0) : ValidMeta (assemble localMeta remoteMeta parts revision) := by
  have hl := validate_ok_iff.mp hs.validLocal
  have hr := validate_ok_iff.mp hs.validRemote
  obtain ⟨harchived, hrunning⟩ := assemble_status hs h revision
  have hstable : archiveWins localMeta remoteMeta ≠ true →
      (assemble localMeta remoteMeta parts revision).status =
        stableStatus parts.claim parts.failure parts.newest parts.title := fun harch => if_neg harch
  have hkept : ∀ st, (assemble localMeta remoteMeta parts revision).status = st →
      st ≠ .archived → stableStatus parts.claim parts.failure parts.newest parts.title = st := by
    intro st hst hne
    have harch : archiveWins localMeta remoteMeta ≠ true := fun ha =>
      hne (hst.symm.trans (harchived.mpr ha))
    exact (hstable harch).symm.trans hst
  have htitle := stableStatus_title parts.claim parts.failure parts.newest parts.title
  exact {
    id := hl.id
    agentId := hl.agentId
    createdBy := hl.createdBy
    revision := hrev
    title := by
      intro t ht
      rcases (mergeTitle_ok h.title).1 t ht with hside | hside
      · exact hl.title t hside
      · exact hr.title t hside
    preview := by
      have hlen := finalPreview_length entries
      rwa [← h.preview] at hlen
    summary := mergeSummary_valid hl hr
    running := by
      intro hrun
      obtain ⟨c, hc⟩ := Option.ne_none_iff_exists'.mp (hrunning.mp hrun)
      obtain ⟨-, hvalid, hline⟩ := merged_claim_facts hs h hc
      exact ⟨c.input, c.started, c.attempt, by simp [assemble, hc], positive _ hline,
        by simp [assemble, hc], by simp [assemble, hc], hvalid⟩
    idle := by
      intro hidle
      have hnone : parts.claim = none := by
        by_contra hc
        exact hidle (hrunning.mpr hc)
      simp [assemble, hnone]
    archived := by
      intro ha
      have harch := harchived.mp ha
      have hvalid := assemble_archive_valid hs h harch
      simpa [assemble, harch] using hvalid
    unarchived := by
      intro ha
      have harch : archiveWins localMeta remoteMeta ≠ true := fun hb => ha (harchived.mpr hb)
      simp [assemble, harch]
    untitled := by
      intro hst
      exact htitle.1 (hkept _ hst (by decide))
    titled := by
      intro hst
      exact htitle.2 (hkept _ hst (by decide))
    errorText := by
      intro e he
      obtain ⟨f, hf, rfl⟩ := Option.map_eq_some_iff.mp he
      exact (merged_failure_facts hl hr h hf).2
    errorKept := by
      intro hreq
      have hf := assemble_requiresError hreq
      simpa [assemble] using hf
    errorIdle := by
      intro hrun
      obtain ⟨c, hc⟩ := Option.ne_none_iff_exists'.mp (hrunning.mp hrun)
      simp [assemble, merged_claim_no_failure h hc]
    errorCause := by
      intro he _
      simpa [assemble] using he
    completion := by
      cases hc : parts.completion with
      | none => simp [assemble, hc]
      | some c =>
        obtain ⟨hvalid, hlt, hline⟩ := merged_completion_facts hs ordered h hc
        exact Or.inr ⟨c.attempt, c.input, c.output, by simp [assemble, hc],
          by simp [assemble, hc], by simp [assemble, hc], hvalid, positive _ hline, hlt,
          merged_known h hline⟩
    humanLine := by
      intro hzero
      exact positive 0 (humanLine_newest (h.newest.symm.trans hzero)) rfl
    request := by
      intro hreq
      change parts.requestId ≠ none at hreq
      rw [h.requestId] at hreq
      have hline : ∃ line, HumanLine entries localMeta.createdBy line := by
        rcases lastHuman_request hreq with hside | hside
        · obtain ⟨line, hline⟩ := Option.ne_none_iff_exists'.mp (by simpa using hside)
          exact ⟨translate line, hs.localLines line (Or.inl hline)⟩
        · obtain ⟨line, hline⟩ := Option.ne_none_iff_exists'.mp hside
          exact ⟨line, hs.remoteLines line (Or.inl hline)⟩
      obtain ⟨line, hline⟩ := hline
      obtain ⟨n, hn, -⟩ := newestHumanLine_ge hline
      exact Option.ne_none_iff_exists'.mpr ⟨n, h.newest.trans hn⟩
    processing := by
      intro p hp
      obtain ⟨c, hc, rfl⟩ := Option.map_eq_some_iff.mp hp
      exact merged_known h (merged_claim_facts hs h hc).2.2
    failed := by
      intro a ha
      obtain ⟨f, hf, rfl⟩ := Option.map_eq_some_iff.mp ha
      refine ⟨(merged_failure_facts hl hr h hf).1, by simp [assemble, hf], ?_⟩
      intro hrun
      obtain ⟨c, hc⟩ := Option.ne_none_iff_exists'.mp (hrunning.mp hrun)
      simp [merged_claim_no_failure h hc] at hf }

theorem mergeSummary_kept (hl : ValidMeta localMeta) (hr : ValidMeta remoteMeta)
    (h : localMeta.summary ≠ none ∨ remoteMeta.summary ≠ none) :
    (mergeSummary localMeta remoteMeta).1 ≠ none := by
  have hdated : ∀ {m : QuickSessionMeta}, ValidMeta m →
      (m.summary ≠ none ↔ m.summaryUpdatedAt ≠ none) := by
    intro m hm
    rcases hm.summary with ⟨hs, ht⟩ | ⟨s, t, hs, ht, -⟩
    · simp [hs, ht]
    · simp [hs, ht]
  rw [mergeSummary.eq_def]
  split
  · rename_i hlt hrt
    split
    · exact (hdated hl).mpr (by simp [hlt])
    · exact (hdated hr).mpr (by simp [hrt])
  · rename_i hlt hrt
    exact (hdated hl).mpr (by simp [hlt])
  · rename_i hlt
    rcases h with h | h
    · exact absurd hlt ((hdated hl).mp h)
    · exact h

theorem assemble_notBehind (hs : CompatibleSides codec localMeta remoteMeta mergedThread entries
    translate) (h : MergedFrom localMeta remoteMeta entries translate parts) :
    NotBehind localMeta remoteMeta (assemble localMeta remoteMeta parts
      (max localMeta.revision remoteMeta.revision + 1)) translate where
  revision := by
    change localMeta.revision < max _ _ + 1 ∧ remoteMeta.revision < max _ _ + 1
    omega
  localHuman := fun line hline => merged_known h (hs.localLines line (Or.inl hline))
  remoteHuman := fun line hline => merged_known h (hs.remoteLines line (Or.inl hline))
  completion := by
    intro c hc
    obtain ⟨d, hd, hle⟩ := (mergeCompletion_ok h.completion).2 c hc
    exact ⟨d, by simp [completionOf, assemble, hd], hle⟩
  archived := by
    rw [(assemble_status hs h _).1]
    simp [archiveWins]
  title := (mergeTitle_ok h.title).2
  summary := mergeSummary_kept (validate_ok_iff.mp hs.validLocal) (validate_ok_iff.mp hs.validRemote)

end Assembly

/-- On compatible histories whose merged human lines are positive and whose local completion
stays in order, the merge reports a named conflict or moves forward. -/
theorem mergeQuickSessionMeta_total {localMeta remoteMeta : QuickSessionMeta} {mergedThread : Text}
    {entries : List (ThreadEntry Json)} {mappings : List RenumberMapping} {threadPath : Path}
    (hs : CompatibleSides codec localMeta remoteMeta mergedThread entries
      (translateLocal mappings threadPath))
    (positive : ∀ line, HumanLine entries localMeta.createdBy line → line ≠ 0)
    (ordered : ∀ i o, localMeta.lastCompletedInputLine = some i →
      localMeta.lastCompletedLine = some o →
      translateLocal mappings threadPath i < translateLocal mappings threadPath o) :
    MergeTotal codec localMeta remoteMeta mergedThread mappings threadPath := by
  have hl : checkedValid localMeta = .ok () :=
    checkedValid_eq_ok_iff.mpr (validate_ok_iff.mp hs.validLocal)
  have hr : checkedValid remoteMeta = .ok () :=
    checkedValid_eq_ok_iff.mpr (validate_ok_iff.mp hs.validRemote)
  have hsame : refuse (localMeta.id ≠ remoteMeta.id ∨ localMeta.agentId ≠ remoteMeta.agentId ∨
      localMeta.createdBy ≠ remoteMeta.createdBy ∨ localMeta.createdAt ≠ remoteMeta.createdAt)
      (conflict "immutable metadata differs") = .ok () := by
    simp [hs.id, hs.agentId, hs.createdBy, hs.createdAt]
  rw [MergeTotal, mergeQuickSessionMeta, hl, hr, hsame]
  simp only [bind, Except.bind]
  cases hparts : mergeParts codec localMeta remoteMeta mergedThread mappings threadPath with
  | error e =>
    obtain ⟨message, hmem, rfl⟩ := mergeParts_error codec (validate_ok_iff.mp hs.validLocal)
      (validate_ok_iff.mp hs.validRemote) hs.parsed hparts
    exact Or.inl ⟨message, hmem, rfl⟩
  | ok parts =>
    obtain ⟨parsed, hparsed, hmerged⟩ := mergeParts_ok codec hparts
    cases hs.parsed.symm.trans hparsed
    by_cases hover : u64Bound ≤ max localMeta.revision remoteMeta.revision + 1
    · refine Or.inl ⟨"revision overflow".toList, ?_, by simp [refuse, hover, conflict]⟩
      simp only [namedConflicts, List.mem_cons, true_or, or_true]
    · have hvalid : checkedValid (assemble localMeta remoteMeta parts
          (max localMeta.revision remoteMeta.revision + 1)) = .ok () :=
        checkedValid_eq_ok_iff.mpr (assemble_valid hs positive ordered hmerged (by omega))
      refine Or.inr ⟨_, ?_, assemble_notBehind hs hmerged⟩
      simp [refuse, hover, hvalid]

end Totality

section Samples

def bot : Handler := ⟨"bot".toList, Or.inl (by decide)⟩

def attemptOne : Text := "qa-00000000000000000000000001".toList

def freshSession : QuickSessionMeta :=
  .new "qs-00000000000000000000000000".toList bot.name alice.name newYear

/-- The session after the first turn: line 1 is answered by line 2. -/
def answeredSession : QuickSessionMeta :=
  { freshSession with
    title := some "lunch".toList
    status := .active
    lastCompletedAttemptId := some attemptOne
    lastCompletedInputLine := some 1
    lastCompletedLine := some 2
    lastHumanLine := some 1
    revision := 5 }

/-- The session while the first turn runs and a second question waits. -/
def waitingSession : QuickSessionMeta :=
  { freshSession with
    status := .running
    processingInputLine := some 1
    processingStartedAt := some newYear
    attemptId := some attemptOne
    lastHumanLine := some 2
    revision := 4 }

def mergedDiscussion : Text :=
  "[L000001][P000000][@alice][20260101T000000Z] hello\n".toList ++
    ("[L000002][P000000][@alice][20260101T000000Z] more\n".toList ++
      "[L000003][P000001][@bot][20260101T000000Z] answer\n".toList)

def discussion : Path := "discussion.thread".toList

/-- A finished local turn meets a remote side that still runs it. -/
theorem mergeQuickSessionMeta_total_answered :
    MergeTotal smallCodec answeredSession waitingSession mergedDiscussion
      [⟨discussion, 2, 3⟩] discussion := by
  have hs : CompatibleSides smallCodec answeredSession waitingSession mergedDiscussion
      [sampleMessage 1 0 "hello".toList, sampleMessage 2 0 "more".toList,
        .message ⟨3, 1, bot, newYear, "answer".toList⟩]
      (translateLocal [⟨discussion, 2, 3⟩] discussion) := by
    refine ⟨by decide +kernel, by decide +kernel, rfl, rfl, rfl, rfl, ?_, ?_, ?_⟩
    · unfold mergedDiscussion newYear
      repeat rw [String.toList_ofList]
      decide +kernel
    · rintro line (h | h | h) <;> cases h
      · exact ⟨_, List.mem_cons_self, rfl, rfl⟩
      · exact ⟨_, List.mem_cons_self, rfl, rfl⟩
    · rintro line (h | h | h) <;> cases h
      · exact ⟨_, List.mem_cons_of_mem _ List.mem_cons_self, rfl, rfl⟩
      · exact ⟨_, List.mem_cons_self, rfl, rfl⟩
  refine mergeQuickSessionMeta_total smallCodec hs ?_ ?_
  · rintro line ⟨m, hm, -, rfl⟩
    simp only [sampleMessage, List.mem_cons, ThreadEntry.message.injEq, List.not_mem_nil,
      or_false] at hm
    rcases hm with rfl | rfl | rfl <;> decide
  · intro i o hi ho
    cases hi
    cases ho
    decide

def lineZeroDiscussion : Text := "[L000000][P000000][@alice][20260101T000000Z] hello\n".toList

def lineFiveDiscussion : Text := "[L000005][P000000][@alice][20260101T000000Z] hello\n".toList

/-- A merged thread whose only human line is line 0, and mappings that put the answer in front
of its question, end in an error of the final validation. -/
theorem mergeQuickSessionMeta_rejects :
    (CompatibleSides smallCodec freshSession freshSession lineZeroDiscussion
      [sampleMessage 0 0 "hello".toList] (translateLocal [] discussion) ∧
      ¬ MergeTotal smallCodec freshSession freshSession lineZeroDiscussion [] discussion) ∧
    (CompatibleSides smallCodec answeredSession freshSession lineFiveDiscussion
      [sampleMessage 5 0 "hello".toList]
      (translateLocal [⟨discussion, 1, 5⟩, ⟨discussion, 2, 3⟩] discussion) ∧
      ¬ MergeTotal smallCodec answeredSession freshSession lineFiveDiscussion
        [⟨discussion, 1, 5⟩, ⟨discussion, 2, 3⟩] discussion) := by
  refine ⟨⟨⟨by decide +kernel, by decide +kernel, rfl, rfl, rfl, rfl, ?_, ?_, ?_⟩, ?_⟩,
    ⟨by decide +kernel, by decide +kernel, rfl, rfl, rfl, rfl, ?_, ?_, ?_⟩, ?_⟩
  · unfold lineZeroDiscussion
    repeat rw [String.toList_ofList]
    decide +kernel
  · rintro line (h | h | h) <;> cases h
  · rintro line (h | h | h) <;> cases h
  · have hmerge : mergeQuickSessionMeta smallCodec freshSession freshSession lineZeroDiscussion []
        discussion = .error (.quickSession
          "invalid quick session metadata: last_human_line must be positive".toList) := by
      unfold freshSession lineZeroDiscussion
      repeat rw [String.toList_ofList]
      decide +kernel
    rintro (⟨message, hmem, h⟩ | ⟨merged, h, -⟩)
    · cases hmerge.symm.trans h
      unfold namedConflicts at hmem
      repeat rw [String.toList_ofList] at hmem
      exact absurd hmem (by decide)
    · cases hmerge.symm.trans h
  · unfold lineFiveDiscussion
    repeat rw [String.toList_ofList]
    decide +kernel
  · rintro line (h | h | h) <;> cases h
    · exact ⟨_, List.mem_cons_self, rfl, rfl⟩
    · exact ⟨_, List.mem_cons_self, rfl, rfl⟩
  · rintro line (h | h | h) <;> cases h
  · have hmerge : mergeQuickSessionMeta smallCodec answeredSession freshSession lineFiveDiscussion
        [⟨discussion, 1, 5⟩, ⟨discussion, 2, 3⟩] discussion = .error (.quickSession
          "invalid quick session metadata: completion line numbers are invalid".toList) := by
      unfold answeredSession freshSession lineFiveDiscussion discussion
      repeat rw [String.toList_ofList]
      decide +kernel
    rintro (⟨message, hmem, h⟩ | ⟨merged, h, -⟩)
    · cases hmerge.symm.trans h
      unfold namedConflicts at hmem
      repeat rw [String.toList_ofList] at hmem
      exact absurd hmem (by decide)
    · cases hmerge.symm.trans h

end Samples

end QuickSessionMerge
