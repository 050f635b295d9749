import GitIM.Runs
import GitIM.TextScan
import Mathlib.Data.List.Sort

/-!
# The agent loop

One cycle of an agent polls its daemon, pops the timers that are due and decides whether
to wake the provider. The poll cursor, the timers and two flags for a continuation are
consumed, and the flags are saved, before the provider runs; the turn then ends in one of
several ways, and each of them restores a part of that state. What the daemon, the clock
and the provider answer is part of the cycle.
-/

namespace AgentLoop

open TextLines TextScan Runs

section Input

/-- An entry of a change, as far as the loop reads it; a field that is missing or of another type
is `none`. -/
structure Entry where
  author : Option Text
  recipients : Option (List Text)
  body : Option Text
  mentions : Option (List Text)
  assignee : Option Text
  deriving DecidableEq

structure ChannelChange where
  channel : Text
  kind : Text
  entries : List Entry
  deriving DecidableEq

structure Timer where
  id : Text
  fireAt : Int
  createdAt : Int
  anchor : Text
  note : Option Text
  deriving DecidableEq

/-- The pieces of a prompt, in their order. -/
inductive Part where
  | timers (fired : List Timer)
  | entry (kind channel : Text) (e : Entry)
  | postReset
  | failureRecovery (attempt maxAttempts : Nat)
  | usageNotice
  deriving DecidableEq

abbrev Prompt := List Part

variable (me : Text)

def isQuickSession (kind : Text) : Bool :=
  kind = "quick_session_meta".toList ∨ kind = "quick_session_thread".toList

def addressedToSelf (e : Entry) : Bool := me ∈ e.recipients.getD []

/-- The changes for the primary turn, and the quick sessions to look at. -/
def splitQuickSessionChanges (changes : List ChannelChange) : List ChannelChange × List Text :=
  (changes.filter fun c => !isQuickSession c.kind,
    ((changes.filter fun c => isQuickSession c.kind ∧ c.entries.any (addressedToSelf me)).map
      ChannelChange.channel).eraseDups)

def entryMentionsHandler (e : Entry) : Bool :=
  (∃ body ∈ e.body, '@' :: me <:+: body) ∨ me ∈ e.mentions.getD []

def cardEntryTargetsSelf (kind : Text) (e : Entry) : Bool :=
  if kind = "card_thread".toList then addressedToSelf me e ∨ entryMentionsHandler me e
  else if kind = "card_meta".toList then e.assignee = some me ∨ entryMentionsHandler me e
  else true

/-- Whether an entry is news for the agent: of another author, not for others only, and for cards
one that concerns it. -/
def isExternal (kind : Text) (e : Entry) : Bool :=
  e.author.getD "unknown".toList ≠ me ∧
    (e.recipients.getD [] = [] ∨ me ∈ e.recipients.getD []) ∧ cardEntryTargetsSelf me kind e

def formatChangesAsPrompt (changes : List ChannelChange) : Option Prompt :=
  match (changes.filter fun c => c.kind ≠ "channel_meta".toList ∧ !isQuickSession c.kind).flatMap
      fun c => (c.entries.filter (isExternal me c.kind)).map (Part.entry c.kind c.channel) with
  | [] => none
  | part :: parts => some (part :: parts)

def combineTimerAndChanges (fired : List Timer) (changes : Option Prompt) : Option Prompt :=
  match fired, changes with
  | [], changes => changes
  | fired, none => some [.timers fired]
  | fired, some parts => some (.timers fired :: parts)

/-- The timers that are due, and those that stay, in order. -/
def partitionFired (timers : List Timer) (now : Int) : List Timer × List Timer :=
  (timers.insertionSort fun a b => a.fireAt ≤ b.fireAt).partition fun t => t.fireAt ≤ now

/-- The file of timers is written only if one of them is due. -/
def popFiredTimers (timers : List Timer) (now : Int) : List Timer × List Timer :=
  match partitionFired timers now with
  | ([], _) => ([], timers)
  | (fired, pending) => (fired, pending)

end Input

section State

def maxFailureRecoveryAttempts : Nat := 3

def u32Max : Nat := 4294967295

variable (Usage Baseline : Type)

structure AgentState where
  cursor : Option Text
  sessionToken : Option Text
  sessionUsage : Option Usage
  estimatedTokens : Nat
  usageNoticePending : Bool
  usageNoticeSent : Bool
  postResetPending : Bool
  failureRecoveryPending : Bool
  failureRecoveryAttempts : Nat
  lastSessionUsage : Option Baseline
  deriving DecidableEq

inductive ExecStatus where
  | completed
  | failed
  | aborted
  | timeout
  deriving DecidableEq

/-- What the accounting of a turn computes. -/
structure Accounting where
  tokens : Nat
  snapshot : Option Usage
  noticeArmed : Bool
  baseline : Option Baseline
  deriving DecidableEq

/-- How a turn of the provider ends. -/
inductive Outcome where
  | startError
  | resultClosed
  | ended (resetRequested : Bool) (status : ExecStatus) (sessionToken : Option Text)
      (usage : Accounting Usage Baseline)
  deriving DecidableEq

/-- One cycle: the answer to the poll with its new cursor, the timers registered since the last
cycle, the clock, and how the turns end. -/
structure Cycle where
  poll : Option (List ChannelChange × Option Text)
  registered : List Timer
  timersReadable : Bool
  now : Int
  outcome : Outcome Usage Baseline
  quickSession : Except Text Bool

/-- The state on disk, and what the process keeps in memory. -/
structure Loop where
  disk : AgentState Usage Baseline
  timers : List Timer
  cursor : Option Text
  sessionToken : Option Text

variable {Usage Baseline}

def AgentState.clearSession (s : AgentState Usage Baseline) : AgentState Usage Baseline :=
  { s with
    sessionToken := none
    sessionUsage := none
    estimatedTokens := 0
    usageNoticePending := false
    usageNoticeSent := false
    postResetPending := false
    failureRecoveryPending := false
    failureRecoveryAttempts := 0
    lastSessionUsage := none }

/-- `arm_failure_recovery_after_provider_failure`; the counter saturates. -/
def AgentState.armFailureRecovery (s : AgentState Usage Baseline) : AgentState Usage Baseline :=
  if min (s.failureRecoveryAttempts + 1) u32Max > maxFailureRecoveryAttempts then s.clearSession
  else { s.clearSession with
    failureRecoveryPending := true
    failureRecoveryAttempts := min (s.failureRecoveryAttempts + 1) u32Max }

def AgentState.recordUsage (s : AgentState Usage Baseline) (usage : Accounting Usage Baseline) :
    AgentState Usage Baseline :=
  { s with
    estimatedTokens := s.estimatedTokens + usage.tokens
    usageNoticePending := s.usageNoticePending || usage.noticeArmed
    sessionUsage := usage.snapshot
    lastSessionUsage := usage.baseline }

def AgentState.clearFailureRecovery (s : AgentState Usage Baseline) : AgentState Usage Baseline :=
  { s with failureRecoveryPending := false, failureRecoveryAttempts := 0 }

def Loop.saveState (l : Loop Usage Baseline) : Loop Usage Baseline :=
  { l with disk := { l.disk with cursor := l.cursor, sessionToken := l.sessionToken } }

end State

section Cycles
variable {Usage Baseline : Type}

/-- What a cycle decides to do. -/
inductive Choice (Usage Baseline : Type) where
  | turn (prompt : Prompt) (state : AgentState Usage Baseline)
  | dropStale (state : AgentState Usage Baseline)
  | idle

def choose (external : Option Prompt) (s : AgentState Usage Baseline) : Choice Usage Baseline :=
  match external, s.postResetPending, s.failureRecoveryPending with
  | some prompt, _, _ => .turn prompt s.clearFailureRecovery
  | none, true, _ => .turn [] s
  | none, false, true =>
    if s.failureRecoveryAttempts ≤ maxFailureRecoveryAttempts then .turn [] s
    else .dropStale s.clearFailureRecovery
  | none, false, false => .idle

/-- The preambles in front of the prompt; each flag is cleared as it is used. -/
def consumePostReset (p : Prompt × AgentState Usage Baseline) : Prompt × AgentState Usage Baseline :=
  if p.2.postResetPending then
    (.postReset :: p.1, { p.2 with
      postResetPending := false
      failureRecoveryPending := false
      failureRecoveryAttempts := 0 })
  else p

def consumeFailureRecovery (p : Prompt × AgentState Usage Baseline) :
    Prompt × AgentState Usage Baseline :=
  if p.2.failureRecoveryPending then
    (.failureRecovery (max p.2.failureRecoveryAttempts 1) maxFailureRecoveryAttempts :: p.1,
      { p.2 with failureRecoveryPending := false })
  else p

def consumeUsageNotice (p : Prompt × AgentState Usage Baseline) :
    Prompt × AgentState Usage Baseline :=
  if p.2.usageNoticePending then
    (.usageNotice :: p.1, { p.2 with usageNoticePending := false, usageNoticeSent := true })
  else p

/-- The tokenizer of the provider, and the size of the system prompt. -/
structure Tokenizer where
  count : Prompt → Nat
  system : Nat

variable (me : Text) (tokens : Tokenizer)

def addEstimate (coldStart : Bool) (p : Prompt × AgentState Usage Baseline) :
    AgentState Usage Baseline :=
  if coldStart then { p.2 with estimatedTokens := tokens.count p.1 + tokens.system }
  else { p.2 with estimatedTokens := p.2.estimatedTokens + tokens.count p.1 }

/-- The prompt with its preambles, and the state that is saved before the provider runs. -/
def consumeFlags (prompt : Prompt) (s : AgentState Usage Baseline) :
    Prompt × AgentState Usage Baseline :=
  consumeUsageNotice (consumeFailureRecovery (consumePostReset (prompt, s)))

def beforeTurn (l : Loop Usage Baseline) (prompt : Prompt) (s : AgentState Usage Baseline) :
    Loop Usage Baseline :=
  { l with disk := addEstimate tokens l.sessionToken.isNone (consumeFlags prompt s) }

def isProviderFailureStatus (status : ExecStatus) : Bool := status = .failed ∨ status = .timeout

/-- The usage of the last turn before a reset is recorded under the session it belongs to. -/
def AgentState.afterReset (s : AgentState Usage Baseline) (token : Option Text)
    (usage : Accounting Usage Baseline) : AgentState Usage Baseline :=
  { (if (token.or s.sessionToken).getD [] = [] then s else s.recordUsage usage).clearSession with
    postResetPending := true }

def AgentState.afterCompletion (s : AgentState Usage Baseline) (token : Option Text)
    (usage : Accounting Usage Baseline) : AgentState Usage Baseline :=
  (if token.isSome then s.recordUsage usage else s).clearFailureRecovery

/-- The end of a turn: the state it leaves, and whether the provider completed. -/
def afterTurn (l : Loop Usage Baseline) : Outcome Usage Baseline →
    Loop Usage Baseline × Except Text Bool
  | .startError => (l, .error "provider failed".toList)
  | .resultClosed => (l, .error "result channel closed".toList)
  | .ended true _ token usage =>
    (Loop.saveState { l with sessionToken := none, disk := l.disk.afterReset token usage }, .ok true)
  | .ended false status token usage =>
    if isProviderFailureStatus status then
      (Loop.saveState { l with sessionToken := none, disk := l.disk.armFailureRecovery }, .ok false)
    else
      (Loop.saveState { l with
        sessionToken := token.or l.sessionToken
        disk := l.disk.afterCompletion token usage }, .ok true)

/-- The external input of a cycle: the timers that are due and the changes of others. -/
def externalOf (l : Loop Usage Baseline) (c : Cycle Usage Baseline) : Option Prompt :=
  match c.poll with
  | none => none
  | some (changes, _) => combineTimerAndChanges
      (if c.timersReadable then (popFiredTimers (l.timers ++ c.registered) c.now).1 else [])
      (formatChangesAsPrompt me (splitQuickSessionChanges me changes).1)

/-- The loop behind its poll: the cursor has moved, and the timers that are due are gone. -/
def polled (l : Loop Usage Baseline) (c : Cycle Usage Baseline) (commit : Option Text) :
    Loop Usage Baseline :=
  { l with
    cursor := commit.or l.cursor
    timers := if c.timersReadable then (popFiredTimers (l.timers ++ c.registered) c.now).2
      else l.timers ++ c.registered }

def withQuick (completed : Bool) (c : Cycle Usage Baseline) : Except Text Bool :=
  match c.quickSession with
  | .error e => .error e
  | .ok quick => .ok (completed || quick)

/-- `run_once`: the state it leaves and its answer. -/
def runOnce (l : Loop Usage Baseline) (c : Cycle Usage Baseline) :
    Loop Usage Baseline × Except Text Bool :=
  match c.poll with
  | none => ({ l with timers := l.timers ++ c.registered }, .error "poll failed".toList)
  | some (_, commit) =>
    match choose (externalOf me l c) l.disk with
    | .idle => ((polled l c commit).saveState, withQuick false c)
    | .dropStale s => (Loop.saveState { polled l c commit with disk := s }, withQuick false c)
    | .turn prompt s =>
      match afterTurn (beforeTurn tokens (polled l c commit) prompt s) c.outcome with
      -- a quick session that fails behind a failed start is only logged
      | (after, .error e) => (after, .error e)
      | (after, .ok completed) => (after, withQuick completed c)

/-- The loop behind a cycle. -/
def next (l : Loop Usage Baseline) (c : Cycle Usage Baseline) : Loop Usage Baseline :=
  (runOnce me tokens l c).1

def step (l : Loop Usage Baseline) (c : Cycle Usage Baseline) : Option (Loop Usage Baseline) :=
  some (next me tokens l c)

end Cycles

section Turns
variable {Usage Baseline : Type} (me : Text) (tokens : Tokenizer)

/-- A cycle with external input, or one that finds the kick behind a reset armed. -/
def Wakes (l : Loop Usage Baseline) (c : Cycle Usage Baseline) : Prop :=
  c.poll.isSome ∧ ((externalOf me l c).isSome ∨ l.disk.postResetPending)

/-- A cycle that runs a turn for a failure only. -/
def Recovers (l : Loop Usage Baseline) (c : Cycle Usage Baseline) : Prop :=
  c.poll.isSome ∧ externalOf me l c = none ∧ l.disk.postResetPending = false ∧
    l.disk.failureRecoveryPending ∧ l.disk.failureRecoveryAttempts ≤ maxFailureRecoveryAttempts

instance (l : Loop Usage Baseline) (c : Cycle Usage Baseline) : Decidable (Wakes me l c) := by
  unfold Wakes
  infer_instance

instance (l : Loop Usage Baseline) (c : Cycle Usage Baseline) : Decidable (Recovers me l c) := by
  unfold Recovers
  infer_instance

def Outcome.resets : Outcome Usage Baseline → Bool
  | .ended reset _ _ _ => reset
  | _ => false

/-- The turn ended completed, aborted or in a reset. -/
def Outcome.endsWell : Outcome Usage Baseline → Bool
  | .ended reset status _ _ => reset || !isProviderFailureStatus status
  | _ => false

/-- The provider started and delivered a result. -/
def Outcome.delivers : Outcome Usage Baseline → Bool
  | .ended _ _ _ _ => true
  | _ => false

def Armed (s : AgentState Usage Baseline) : Prop :=
  s.failureRecoveryPending ∧ 1 ≤ s.failureRecoveryAttempts ∧
    s.failureRecoveryAttempts ≤ maxFailureRecoveryAttempts

instance (s : AgentState Usage Baseline) : Decidable (Armed s) := by
  unfold Armed
  infer_instance

theorem choose_turn {external : Option Prompt} {s : AgentState Usage Baseline}
    (h : external.isSome ∨ s.postResetPending) :
    ∃ prompt s', choose external s = .turn prompt s' ∧
      s'.postResetPending = s.postResetPending ∧
      (s.postResetPending = false → s'.failureRecoveryAttempts = 0) := by
  cases external with
  | some prompt => exact ⟨prompt, s.clearFailureRecovery, rfl, rfl, fun _ => rfl⟩
  | none =>
    have hreset : s.postResetPending = true := by simpa using h
    refine ⟨[], s, ?_, rfl, fun hno => ?_⟩
    · simp only [choose, hreset]
    · rw [hreset] at hno
      cases hno

theorem choose_recovery {s : AgentState Usage Baseline} (hreset : s.postResetPending = false)
    (hpending : s.failureRecoveryPending)
    (hattempts : s.failureRecoveryAttempts ≤ maxFailureRecoveryAttempts) :
    choose none s = .turn [] s := by
  simp only [choose, hreset, hpending, if_pos hattempts]

/-- Without input and without a kick a cycle recovers, drops a stale flag, or idles. -/
theorem choose_none {s : AgentState Usage Baseline} (hreset : s.postResetPending = false)
    (h : ¬(s.failureRecoveryPending ∧ s.failureRecoveryAttempts ≤ maxFailureRecoveryAttempts)) :
    choose none s = .dropStale s.clearFailureRecovery ∨ choose none s = .idle := by
  cases hpending : s.failureRecoveryPending with
  | false =>
    right
    simp only [choose, hreset, hpending]
  | true =>
    left
    have hover : ¬s.failureRecoveryAttempts ≤ maxFailureRecoveryAttempts := by
      intro hle
      exact h ⟨hpending, hle⟩
    simp only [choose, hreset, hpending, if_neg hover]

/-- The flags of a continuation are cleared before the provider runs, and the attempts are counted
on only if the turn is for a failure. -/
theorem consumeFlags_state (prompt : Prompt) (s : AgentState Usage Baseline) :
    (consumeFlags prompt s).2.postResetPending = false ∧
      (consumeFlags prompt s).2.failureRecoveryPending = false ∧
      (consumeFlags prompt s).2.failureRecoveryAttempts =
        if s.postResetPending then 0 else s.failureRecoveryAttempts := by
  unfold consumeFlags consumeUsageNotice consumeFailureRecovery consumePostReset
  cases hreset : s.postResetPending <;> cases hpending : s.failureRecoveryPending <;>
    cases hnotice : s.usageNoticePending <;> simp [hreset, hpending, hnotice]

theorem beforeTurn_state (l : Loop Usage Baseline) (prompt : Prompt)
    (s : AgentState Usage Baseline) :
    (beforeTurn tokens l prompt s).disk.postResetPending = false ∧
      (beforeTurn tokens l prompt s).disk.failureRecoveryPending = false ∧
      (beforeTurn tokens l prompt s).disk.failureRecoveryAttempts =
        if s.postResetPending then 0 else s.failureRecoveryAttempts := by
  have hflags := consumeFlags_state prompt s
  unfold beforeTurn addEstimate
  cases l.sessionToken.isNone with
  | true => simpa using hflags
  | false => simpa using hflags

variable {me tokens}

theorem next_of_turn {l : Loop Usage Baseline} {c : Cycle Usage Baseline}
    {changes : List ChannelChange} {commit : Option Text} {prompt : Prompt}
    {s : AgentState Usage Baseline} (hpoll : c.poll = some (changes, commit))
    (hchoose : choose (externalOf me l c) l.disk = .turn prompt s) :
    next me tokens l c =
      (afterTurn (beforeTurn tokens (polled l c commit) prompt s) c.outcome).1 := by
  simp only [next, runOnce, hpoll, hchoose]
  cases h : afterTurn (beforeTurn tokens (polled l c commit) prompt s) c.outcome with
  | mk after answer => cases answer <;> rfl

variable (tokens) in
/-- A turn starts from a state without flags; its attempts are counted afresh if it was woken. -/
theorem next_of_wakes {l : Loop Usage Baseline} {c : Cycle Usage Baseline} (h : Wakes me l c) :
    ∃ m : Loop Usage Baseline, next me tokens l c = (afterTurn m c.outcome).1 ∧
      m.disk.postResetPending = false ∧ m.disk.failureRecoveryPending = false ∧
      m.disk.failureRecoveryAttempts = 0 := by
  obtain ⟨⟨changes, commit⟩, hpoll⟩ := Option.isSome_iff_exists.mp h.1
  obtain ⟨prompt, s, hchoose, hreset, hattempts⟩ := choose_turn h.2
  obtain ⟨hno, hclear, hcount⟩ := beforeTurn_state tokens (polled l c commit) prompt s
  refine ⟨_, next_of_turn hpoll hchoose, hno, hclear, ?_⟩
  rw [hcount]
  split
  · rfl
  · rename_i hs
    exact hattempts (by rw [← hreset]; exact eq_false_of_ne_true hs)

variable (tokens) in
theorem next_of_recovers {l : Loop Usage Baseline} {c : Cycle Usage Baseline}
    (h : Recovers me l c) :
    ∃ m : Loop Usage Baseline, next me tokens l c = (afterTurn m c.outcome).1 ∧
      m.disk.postResetPending = false ∧ m.disk.failureRecoveryPending = false ∧
      m.disk.failureRecoveryAttempts = l.disk.failureRecoveryAttempts := by
  obtain ⟨hsome, hexternal, hreset, hpending, hattempts⟩ := h
  obtain ⟨⟨changes, commit⟩, hpoll⟩ := Option.isSome_iff_exists.mp hsome
  have hchoose : choose (externalOf me l c) l.disk = .turn [] l.disk := by
    rw [hexternal]
    exact choose_recovery hreset hpending hattempts
  obtain ⟨hno, hclear, hcount⟩ :=
    beforeTurn_state tokens (polled l c commit) [] l.disk
  refine ⟨_, next_of_turn hpoll hchoose, hno, hclear, ?_⟩
  rw [hcount, hreset]
  rfl

variable (tokens) in
/-- A cycle without a turn arms nothing. -/
theorem next_of_idle {l : Loop Usage Baseline} {c : Cycle Usage Baseline} (hwakes : ¬Wakes me l c)
    (hrecovers : ¬Recovers me l c) :
    (next me tokens l c).disk.postResetPending = l.disk.postResetPending ∧
      ((next me tokens l c).disk.failureRecoveryPending → l.disk.failureRecoveryPending ∧
        (next me tokens l c).disk.failureRecoveryAttempts = l.disk.failureRecoveryAttempts) := by
  cases hpoll : c.poll with
  | none =>
    have hnext : next me tokens l c = { l with timers := l.timers ++ c.registered } := by
      simp only [next, runOnce, hpoll]
    rw [hnext]
    exact ⟨rfl, fun h => ⟨h, rfl⟩⟩
  | some answer =>
    have hsome : c.poll.isSome := by rw [hpoll]; rfl
    have hexternal : externalOf me l c = none := by
      rw [← Option.not_isSome_iff_eq_none]
      exact fun h => hwakes ⟨hsome, .inl h⟩
    have hreset : l.disk.postResetPending = false := by
      apply eq_false_of_ne_true
      exact fun h => hwakes ⟨hsome, .inr h⟩
    have hchoose := choose_none hreset fun h => hrecovers ⟨hsome, hexternal, hreset, h.1, h.2⟩
    rw [← hexternal] at hchoose
    rcases hchoose with hchoose | hchoose
    · simp only [next, runOnce, hpoll, hchoose]
      exact ⟨rfl, fun h => by cases h⟩
    · simp only [next, runOnce, hpoll, hchoose]
      exact ⟨rfl, fun h => ⟨h, rfl⟩⟩

theorem armFailureRecovery_over {s : AgentState Usage Baseline}
    (h : maxFailureRecoveryAttempts < s.failureRecoveryAttempts + 1) :
    s.armFailureRecovery = s.clearSession := by
  have hover : min (s.failureRecoveryAttempts + 1) u32Max > maxFailureRecoveryAttempts := by
    have hmax : maxFailureRecoveryAttempts < u32Max := by decide
    omega
  rw [AgentState.armFailureRecovery, if_pos hover]

theorem armFailureRecovery_within {s : AgentState Usage Baseline}
    (h : s.failureRecoveryAttempts + 1 ≤ maxFailureRecoveryAttempts) :
    s.armFailureRecovery = { s.clearSession with
      failureRecoveryPending := true
      failureRecoveryAttempts := s.failureRecoveryAttempts + 1 } := by
  have hmin : min (s.failureRecoveryAttempts + 1) u32Max = s.failureRecoveryAttempts + 1 := by
    have hmax : maxFailureRecoveryAttempts < u32Max := by decide
    omega
  rw [AgentState.armFailureRecovery, hmin, if_neg (Nat.not_lt.mpr h)]

theorem afterTurn_failed {m : Loop Usage Baseline} {o : Outcome Usage Baseline}
    (hend : o.endsWell = false) (hdelivers : o.delivers) :
    (afterTurn m o).1 =
      Loop.saveState { m with sessionToken := none, disk := m.disk.armFailureRecovery } := by
  cases o with
  | startError => cases hdelivers
  | resultClosed => cases hdelivers
  | ended reset status token usage =>
    cases reset with
    | true => cases hend
    | false =>
      have hstatus : isProviderFailureStatus status = true := by
        simpa [Outcome.endsWell] using hend
      rw [afterTurn, if_pos hstatus]

theorem afterTurn_undelivered {m : Loop Usage Baseline} {o : Outcome Usage Baseline}
    (h : o.delivers = false) : (afterTurn m o).1 = m := by
  cases o with
  | startError => rfl
  | resultClosed => rfl
  | ended reset status token usage => cases h

theorem afterTurn_completed {m : Loop Usage Baseline} {o : Outcome Usage Baseline}
    (hend : o.endsWell) (hreset : o.resets = false) :
    (afterTurn m o).1.disk.failureRecoveryPending = false ∧
      (afterTurn m o).1.disk.postResetPending = m.disk.postResetPending := by
  cases o with
  | startError => cases hend
  | resultClosed => cases hend
  | ended reset status token usage =>
    cases hreset
    have hstatus : ¬isProviderFailureStatus status = true := by
      simpa [Outcome.endsWell] using hend
    rw [afterTurn, if_neg hstatus]
    refine ⟨rfl, ?_⟩
    cases token <;> rfl

/-- The turns that an armed recovery may still run. -/
def recoveriesLeft (s : AgentState Usage Baseline) : Nat :=
  if s.failureRecoveryPending ∧ s.failureRecoveryAttempts ≤ maxFailureRecoveryAttempts then
    maxFailureRecoveryAttempts + 1 - s.failureRecoveryAttempts
  else 0

theorem recoveriesLeft_unarmed {s : AgentState Usage Baseline}
    (h : s.failureRecoveryPending = false) : recoveriesLeft s = 0 := by
  simp [recoveriesLeft, h]

/-- A turn that starts without flags and does not end in a reset leaves no kick, and less to
recover than the attempts before it allowed. -/
theorem afterTurn_left {m : Loop Usage Baseline} {o : Outcome Usage Baseline}
    (hkick : m.disk.postResetPending = false) (hpending : m.disk.failureRecoveryPending = false)
    (hreset : o.resets = false) :
    (afterTurn m o).1.disk.postResetPending = false ∧
      recoveriesLeft (afterTurn m o).1.disk ≤
        maxFailureRecoveryAttempts - m.disk.failureRecoveryAttempts := by
  cases hend : o.endsWell with
  | true =>
    obtain ⟨hflag, hsame⟩ := afterTurn_completed (m := m) hend hreset
    rw [recoveriesLeft_unarmed hflag]
    exact ⟨hsame.trans hkick, Nat.zero_le _⟩
  | false =>
    cases hdelivers : o.delivers with
    | false =>
      rw [afterTurn_undelivered hdelivers, recoveriesLeft_unarmed hpending]
      exact ⟨hkick, Nat.zero_le _⟩
    | true =>
      rw [afterTurn_failed hend hdelivers]
      by_cases hmax : m.disk.failureRecoveryAttempts + 1 ≤ maxFailureRecoveryAttempts
      · rw [armFailureRecovery_within hmax]
        refine ⟨rfl, ?_⟩
        simp only [recoveriesLeft, Loop.saveState]
        split <;> omega
      · rw [armFailureRecovery_over (by omega)]
        refine ⟨rfl, ?_⟩
        rw [recoveriesLeft_unarmed rfl]
        exact Nat.zero_le _

end Turns

section Recovery
variable {Usage Baseline : Type} (me : Text) (tokens : Tokenizer)

/-- The turns that run during some cycles. -/
def turns : Loop Usage Baseline → List (Cycle Usage Baseline) → Nat
  | _, [] => 0
  | l, c :: cs =>
    (if Wakes me l c ∨ Recovers me l c then 1 else 0) + turns (next me tokens l c) cs

/-- Neither external input nor a reset. -/
def Quiet (l : Loop Usage Baseline) (c : Cycle Usage Baseline) : Prop :=
  externalOf me l c = none ∧ c.outcome.resets = false

/-- The loop with the number of turns for a failure that have failed in a row. -/
def watch (p : Loop Usage Baseline × Nat) (c : Cycle Usage Baseline) :
    Option (Loop Usage Baseline × Nat) :=
  some (next me tokens p.1 c,
    if Recovers me p.1 c ∧ c.outcome.endsWell = false then p.2 + 1
    else if Wakes me p.1 c ∨ Recovers me p.1 c then 0
    else p.2)

/-- A wake-up whose turn does not end well is armed again, unless the retries are used up. -/
def WakeKept (p : Loop Usage Baseline × Nat) (c : Cycle Usage Baseline) : Prop :=
  Wakes me p.1 c → c.outcome.endsWell = false →
    Armed (next me tokens p.1 c).disk ∨ maxFailureRecoveryAttempts ≤ p.2

/-- Behind a failed turn only so many turns run by themselves. -/
def RetriesBounded (p : Loop Usage Baseline × Nat) (c : Cycle Usage Baseline) : Prop :=
  Wakes me p.1 c ∨ Recovers me p.1 c → c.outcome.endsWell = false →
    ∀ later, Along (step me tokens) (Quiet me) (next me tokens p.1 c) later →
      turns me tokens (next me tokens p.1 c) later ≤ maxFailureRecoveryAttempts

/-- No wake-up meets a provider that does not start or that drops its result. -/
def Delivered (l : Loop Usage Baseline) (c : Cycle Usage Baseline) : Prop :=
  Wakes me l c → c.outcome.delivers

variable {me tokens}

variable (tokens) in
theorem quiet_step {l : Loop Usage Baseline} {c : Cycle Usage Baseline} (hquiet : Quiet me l c)
    (hkick : l.disk.postResetPending = false) :
    (next me tokens l c).disk.postResetPending = false ∧
      (if Wakes me l c ∨ Recovers me l c then 1 else 0) +
        recoveriesLeft (next me tokens l c).disk ≤ recoveriesLeft l.disk := by
  have hwakes : ¬Wakes me l c := by
    rintro ⟨_, hexternal | hreset⟩
    · rw [hquiet.1] at hexternal
      cases hexternal
    · rw [hkick] at hreset
      cases hreset
  by_cases hrecovers : Recovers me l c
  · obtain ⟨m, hnext, hno, hclear, hattempts⟩ := next_of_recovers tokens hrecovers
    obtain ⟨hkick', hleft⟩ := afterTurn_left hno hclear hquiet.2
    have hmax := hrecovers.2.2.2.2
    have hbefore : recoveriesLeft l.disk =
        maxFailureRecoveryAttempts + 1 - l.disk.failureRecoveryAttempts :=
      if_pos hrecovers.2.2.2
    rw [hnext, hbefore, if_pos (.inr hrecovers)]
    rw [hattempts] at hleft
    exact ⟨hkick', by omega⟩
  · obtain ⟨hsame, hflag⟩ := next_of_idle tokens hwakes hrecovers
    rw [if_neg (by rintro (h | h) <;> contradiction)]
    refine ⟨hsame.trans hkick, ?_⟩
    unfold recoveriesLeft
    cases hpending : (next me tokens l c).disk.failureRecoveryPending with
    | false => simp
    | true =>
      obtain ⟨hbefore, hattempts⟩ := hflag hpending
      rw [hattempts, hbefore]
      omega

theorem turns_le_left {l : Loop Usage Baseline} {cs : List (Cycle Usage Baseline)}
    (hquiet : Along (step me tokens) (Quiet me) l cs) (hkick : l.disk.postResetPending = false) :
    turns me tokens l cs ≤ recoveriesLeft l.disk := by
  induction cs generalizing l with
  | nil => exact Nat.zero_le _
  | cons c cs ih =>
    obtain ⟨hkick', hleft⟩ := quiet_step tokens hquiet.1 hkick
    have hrest := ih (hquiet.2 _ rfl) hkick'
    rw [turns]
    omega

theorem resets_of_endsWell {o : Outcome Usage Baseline} (h : o.endsWell = false) :
    o.resets = false := by
  cases o with
  | startError => rfl
  | resultClosed => rfl
  | ended reset status token usage =>
    cases reset with
    | true => cases h
    | false => rfl

theorem retriesBounded (p : Loop Usage Baseline × Nat) (c : Cycle Usage Baseline) :
    RetriesBounded me tokens p c := by
  intro hturn hend later hquiet
  have hturned : ∃ m : Loop Usage Baseline, next me tokens p.1 c = (afterTurn m c.outcome).1 ∧
      m.disk.postResetPending = false ∧ m.disk.failureRecoveryPending = false := by
    rcases hturn with h | h
    · obtain ⟨m, hnext, hno, hclear, _⟩ := next_of_wakes tokens h
      exact ⟨m, hnext, hno, hclear⟩
    · obtain ⟨m, hnext, hno, hclear, _⟩ := next_of_recovers tokens h
      exact ⟨m, hnext, hno, hclear⟩
  obtain ⟨m, hnext, hno, hclear⟩ := hturned
  obtain ⟨hkick, hleft⟩ := afterTurn_left hno hclear (resets_of_endsWell hend)
  rw [← hnext] at hkick hleft
  have hturns := turns_le_left hquiet hkick
  omega

theorem wakeKept_of_delivered {p : Loop Usage Baseline × Nat} {c : Cycle Usage Baseline}
    (h : Delivered me p.1 c) : WakeKept me tokens p c := by
  intro hwakes hend
  left
  obtain ⟨m, hnext, _, _, hattempts⟩ := next_of_wakes tokens hwakes
  have hwithin : m.disk.failureRecoveryAttempts + 1 ≤ maxFailureRecoveryAttempts := by
    rw [hattempts]
    decide
  rw [hnext, afterTurn_failed hend (h hwakes), armFailureRecovery_within hwithin]
  refine ⟨rfl, ?_, ?_⟩
  · exact Nat.le_add_left 1 _
  · exact hwithin

/-- In every run in which no wake-up meets a provider that does not start or drops its result, no
wake-up is dropped, and the retries behind a failed turn are bounded. -/
theorem wakes_never_dropped {l : Loop Usage Baseline} {cs : List (Cycle Usage Baseline)}
    (h : Along (step me tokens) (Delivered me) l cs) :
    Along (watch me tokens) (fun p c => WakeKept me tokens p c ∧ RetriesBounded me tokens p c)
      (l, 0) cs := by
  have hall : ∀ n, Along (watch me tokens)
      (fun p c => WakeKept me tokens p c ∧ RetriesBounded me tokens p c) (l, n) cs := by
    induction cs generalizing l with
    | nil => exact fun _ => trivial
    | cons c cs ih =>
      intro n
      refine ⟨⟨wakeKept_of_delivered h.1, retriesBounded (l, n) c⟩, ?_⟩
      rintro q ⟨⟩
      exact ih (h.2 _ rfl) _
  exact hall 0

instance (l : Loop Usage Baseline) (c : Cycle Usage Baseline) : Decidable (Delivered me l c) := by
  unfold Delivered
  infer_instance

end Recovery

section Samples

def sampleTokens : Tokenizer := ⟨List.length, 100⟩

/-- An agent that has just been set up. -/
def freshLoop : Loop Unit Unit :=
  { disk := ⟨some "c0".toList, none, none, 0, false, false, false, false, 0, none⟩
    timers := []
    cursor := some "c0".toList
    sessionToken := none }

/-- A message of another user, and the end of the turn that it wakes. -/
def messageCycle (outcome : Outcome Unit Unit) : Cycle Unit Unit :=
  { poll := some ([⟨"general".toList, "channel".toList,
      [⟨some "alice".toList, some [], some "ping".toList, none, none⟩]⟩], some "c1".toList)
    registered := []
    timersReadable := true
    now := 0
    outcome := outcome
    quickSession := .ok false }

theorem wake_armed_after_timeout :
    Wakes "bot".toList freshLoop (messageCycle (.ended false .timeout none ⟨0, none, false, none⟩)) ∧
      Along (watch "bot".toList sampleTokens)
        (fun p c => WakeKept "bot".toList sampleTokens p c ∧
          RetriesBounded "bot".toList sampleTokens p c)
        (freshLoop, 0) [messageCycle (.ended false .timeout none ⟨0, none, false, none⟩)] :=
  ⟨by decide +kernel, wakes_never_dropped (by decide +kernel)⟩

/-- A provider that does not start: the message has been polled, and nothing is armed. -/
theorem wake_dropped_by_start_error :
    ¬Along (watch "bot".toList sampleTokens)
      (fun p c => WakeKept "bot".toList sampleTokens p c ∧
        RetriesBounded "bot".toList sampleTokens p c)
      (freshLoop, 0) [messageCycle .startError] := by
  intro h
  have hkept := h.1.1 (by decide +kernel) (by decide +kernel)
  revert hkept
  decide +kernel

end Samples

end AgentLoop
