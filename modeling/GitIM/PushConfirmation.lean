import GitIM.PendingMessages
import GitIM.PullOnlySync

/-!
# Confirmation of pushed messages

Handlers commit messages and enqueue a pending entry under the id of the new commit.
Sync cycles push, fetch, rewrite the local commits and push again; after a push that
went through, `confirm_pending_pushes` removes the entries whose commit is in the
pushed history or in the history recorded before the first rewrite of the cycle.

A message is named by the commit its handler made. A rewritten commit carries the
messages of the commits it stands for, under a new id.
-/

namespace PushConfirmation

open TextLines FileTree ThreadMerge PendingMessages CommitChain Runs
open PullOnlySync (maxBehindBeforeHardReset)

abbrev Chain := Branch (List Nat)

/-- The messages in the tree at the end of a chain. -/
def carried (chain : Chain) : List Nat := (changes chain).flatten

def maxSyncRetries : Nat := 3

/-- Where a sync cycle stands; the attempts of `sync_with_push` are counted. -/
inductive Phase where
  | idle
  | pushing (attempt : Nat)
  | fetching (attempt : Nat)
  | fetched (attempt : Nat)
  | rewriting (attempt : Nat)
  | pushingRewritten (attempt : Nat)
  /-- `on_pushed` is called with the head that the push has left upstream. -/
  | confirming (pushed : Chain)
  /-- The pull-only branch of a cycle. -/
  | pulling
  | pulled
  | pullRebasing
  /-- The cycle has returned and `on_cycle_done` is still to come. -/
  | finishing
  deriving DecidableEq

structure MessagesPushed where
  channel : Text
  lineNumbers : List Nat
  deriving DecidableEq

/-- The daemon's clone, its remote, its pending entries and the head that the running cycle
recorded before its first rewrite. -/
structure Daemon where
  origin : Chain
  upstream : Chain
  branch : Chain
  next : Nat
  pending : List (PendingMessage Nat)
  pushedEvents : List MessagesPushed
  phase : Phase
  included : Option Chain
  deriving DecidableEq

inductive PushOutcome where
  | ok
  | conflict
  /-- Rate limit, authentication, remote slot. -/
  | refused
  /-- Any other error; the remote may have taken the push all the same. -/
  | failed (landed : Bool)
  deriving DecidableEq

inductive RewriteOutcome where
  | rebased
  /-- The rebase conflicts and the resolved content is committed. -/
  | resolved (mappings : List RenumberMapping)
  /-- Nothing is rewritten. -/
  | failed
  deriving DecidableEq

inductive Action where
  | send (channel : Text) (line : Nat)
  /-- Other clients push commits of their own. -/
  | remotePush (count : Nat)
  | beginCycle
  | push (outcome : PushOutcome)
  | fetch (ok : Bool)
  | enforceDivergence (ok : Bool)
  | rewrite (outcome : RewriteOutcome)
  | confirm
  | pullRebase (ok : Bool)
  | cycleDone
  deriving DecidableEq

section Confirmation

/-- The entries of one channel, in their order. -/
def groupByChannel (messages : List (PendingMessage Nat)) : List (Text × List Nat) :=
  messages.foldl
    (fun groups msg => upsert (fun lines => lines.getD [] ++ [msg.lineNumber]) msg.channel groups)
    []

/-- The test of one entry: its commit is in one of the two histories. -/
def Included (pushed included : Chain) (msg : PendingMessage Nat) : Prop :=
  msg.commitId ∈ ids pushed ∨ (included ≠ pushed ∧ msg.commitId ∈ ids included)

instance (pushed included : Chain) (msg : PendingMessage Nat) :
    Decidable (Included pushed included msg) :=
  inferInstanceAs (Decidable (_ ∨ _))

/-- `by_channel` is a hash map; its entries come here in the order of their first message. -/
def confirmPendingPushes (s : Daemon) (pushed included : Chain) : Daemon :=
  if pushed <+: s.upstream then
    { s with
      pending := s.pending.filter (¬ Included pushed included ·)
      pushedEvents := s.pushedEvents ++
        (groupByChannel (s.pending.filter (Included pushed included ·))).map
          fun group => ⟨group.1, group.2⟩ }
  else s

end Confirmation

section Steps

/-- A handler appends a message and enqueues its entry before it releases the lock. -/
def sendMessage (s : Daemon) (channel : Text) (line : Nat) : Daemon :=
  { s with
    branch := s.branch ++ [⟨s.next, [s.next]⟩]
    next := s.next + 1
    pending := s.pending ++ [⟨channel, line, s.next⟩] }

/-- `get_or_insert_with` on the recorded head. -/
def recordHead (s : Daemon) : Option Chain := some (s.included.getD s.branch)

/-- One resolution commit holds all local messages behind the upstream. -/
def resolveOnto (next : Nat) (upstream branch : Chain) : Chain :=
  upstream ++ commitAll next [carried (aheadOf branch upstream)]

/-- What `sync_with_push` does behind a push that did not go through. -/
def phaseAfterFailedPush : Phase → PushOutcome → Phase
  | .pushing attempt, .conflict => .fetching attempt
  | .pushingRewritten attempt, .conflict | .pushingRewritten attempt, .failed _ =>
    if attempt < maxSyncRetries then .pushing (attempt + 1) else .finishing
  | _, _ => .finishing

/-- One push of the local branch, which the remote takes only as a fast forward. -/
def pushStep (s : Daemon) : PushOutcome → Option Daemon
  | .ok =>
    if s.origin <+: s.branch then
      some { s with origin := s.branch, upstream := s.branch, phase := .confirming s.branch }
    else none
  | .failed true =>
    if s.origin <+: s.branch then
      some { s with origin := s.branch, phase := phaseAfterFailedPush s.phase (.failed true) }
    else none
  | outcome => some { s with phase := phaseAfterFailedPush s.phase outcome }

/-- The divergence safety net; `ok` says that its git commands succeed. -/
def enforceMaxDivergence (s : Daemon) (ok : Bool) (go : Phase) : Daemon :=
  if ok ∧ maxBehindBeforeHardReset ≤ (aheadOf s.upstream s.branch).length then
    { s with branch := s.upstream, phase := .finishing }
  else { s with phase := go }

def rebaseStep (s : Daemon) : Daemon :=
  { s with
    branch := rebaseOnto s.next s.upstream s.branch
    next := s.next + (replayed s.upstream s.branch).length }

def resolveStep (s : Daemon) (mappings : List RenumberMapping) : Daemon :=
  { s with
    branch := resolveOnto s.next s.upstream s.branch
    next := s.next + 1
    pending := (renumberAll mappings ⟨s.pending, []⟩).pending }

def rewriteStep (s : Daemon) (attempt : Nat) : RewriteOutcome → Daemon
  | .rebased =>
    { rebaseStep s with included := recordHead s, phase := .pushingRewritten attempt }
  | .resolved mappings =>
    { resolveStep s mappings with included := recordHead s, phase := .pushingRewritten attempt }
  | .failed => { s with phase := .finishing }

def step (s : Daemon) : Action → Option Daemon
  | .send channel line => some (sendMessage s channel line)
  | .remotePush count =>
    some { s with
      origin := s.origin ++ commitAll s.next (List.replicate count [])
      next := s.next + count }
  | .beginCycle =>
    if s.phase = .idle then
      some { s with phase := if aheadOf s.branch s.upstream = [] then .pulling else .pushing 1 }
    else none
  | .push outcome =>
    match s.phase with
    | .pushing _ | .pushingRewritten _ => pushStep s outcome
    | _ => none
  | .fetch ok =>
    match s.phase with
    | .fetching attempt =>
      some (if ok then { s with upstream := s.origin, phase := .fetched attempt }
        else { s with phase := .finishing })
    | .pulling =>
      some (if ok then { s with upstream := s.origin, phase := .pulled }
        else { s with phase := .finishing })
    | _ => none
  | .enforceDivergence ok =>
    match s.phase with
    | .fetched attempt => some (enforceMaxDivergence s ok (.rewriting attempt))
    | .pulled => some (enforceMaxDivergence s ok .pullRebasing)
    | _ => none
  | .rewrite outcome =>
    match s.phase with
    | .rewriting attempt => some (rewriteStep s attempt outcome)
    | _ => none
  | .confirm =>
    match s.phase with
    | .confirming pushed =>
      some { confirmPendingPushes s pushed (s.included.getD pushed) with phase := .finishing }
    | _ => none
  | .pullRebase ok =>
    if s.phase = .pullRebasing then
      some (if ok then { rebaseStep s with phase := .finishing } else { s with phase := .finishing })
    else none
  | .cycleDone =>
    if s.phase = .finishing then some { s with phase := .idle, included := none } else none

/-- A daemon on a fresh clone of a remote with `count` commits. -/
def started (count : Nat) : Daemon :=
  let origin := commitAll 0 (List.replicate count [])
  ⟨origin, origin, origin, count, [], [], .idle, none⟩

end Steps

section Conditions

/-- The recorded head of the running cycle; empty when nothing was rewritten. -/
def recorded (s : Daemon) : Chain := s.included.getD []

/-- Rewriting the local commits in this state leaves every pending one known by its id: it is
upstream already or in the recorded head. -/
def RewriteRemembers (s : Daemon) : Prop :=
  ∀ msg ∈ s.pending, msg.commitId ∈ ids s.branch →
    msg.commitId ∈ ids s.upstream ∨ msg.commitId ∈ ids (recorded s)

instance (s : Daemon) : Decidable (RewriteRemembers s) := List.decidableBAll _ _

/-- No step loses the id of a pending entry. A second rewrite of a cycle and the rebase of a
pull-only cycle touch no pending commit that is not recorded, and a cycle that has rewritten a
pending commit does not end before its entry is confirmed. -/
def Remembers (s : Daemon) : Action → Prop
  | .rewrite .rebased =>
    s.included ≠ none → ¬ s.upstream <+: s.branch → RewriteRemembers s
  | .rewrite (.resolved _) => s.included ≠ none → RewriteRemembers s
  | .pullRebase ok => ok = true → ¬ s.upstream <+: s.branch → RewriteRemembers s
  | .cycleDone =>
    ∀ msg ∈ s.pending, msg.commitId ∈ ids (recorded s) → msg.commitId ∈ ids s.branch
  | _ => True

instance (s : Daemon) : ∀ a, Decidable (Remembers s a)
  | .rewrite .rebased => inferInstanceAs (Decidable (_ → _ → _))
  | .rewrite (.resolved _) => inferInstanceAs (Decidable (_ → _))
  | .pullRebase _ => inferInstanceAs (Decidable (_ → _ → _))
  | .cycleDone => inferInstanceAs (Decidable (∀ msg ∈ s.pending, _))
  | .rewrite .failed | .send _ _ | .remotePush _ | .beginCycle | .push _ | .fetch _
  | .enforceDivergence _ | .confirm => isTrue trivial

/-- What the events say: each line with its channel. -/
def reported (events : List MessagesPushed) : List (Text × Nat) :=
  events.flatMap fun e => e.lineNumbers.map (e.channel, ·)

end Conditions

section Groups

end Groups

end PushConfirmation
