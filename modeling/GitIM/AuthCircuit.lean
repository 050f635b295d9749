import GitIM.Runs
import GitIM.SyncBackoff

/-!
# The auth circuit of the sync loop

Three authentication failures without a success between them trip the circuit. While it is tripped a
cycle reaches for the remote only if a whole interval has passed since the circuit was last armed. A
cycle that finds the remote slot taken is neutral: it puts back the time at which the circuit was
armed before, also where an earlier operation of the same cycle did reach the remote.
-/

namespace AuthCircuit

open Runs SyncBackoff

def authFailureTripThreshold : Nat := 3

/-- In milliseconds. -/
def authProbeInterval : Nat := 300000

def maxSyncRetries : Nat := 3

inductive RemoteResult where
  | ok
  | authFailed
  | rateLimited
  | pushConflict
  | remoteSlotBusy
  | remoteSlotUnavailable
  /-- Any other error of the command. -/
  | failed
  deriving DecidableEq

structure Circuit where
  tripped : Bool
  consecutiveFailures : Nat
  trippedAt : Option Nat
  deriving DecidableEq

def Circuit.new : Circuit := ⟨false, 0, none⟩

/-- Returns whether this call trips the circuit. -/
def record (c : Circuit) (result : RemoteResult) (now : Nat) : Circuit × Bool :=
  match result with
  | .ok => (⟨false, 0, none⟩, false)
  | .authFailed =>
    let failures := saturatingSucc c.consecutiveFailures
    if authFailureTripThreshold ≤ failures then
      if c.tripped then ({ c with consecutiveFailures := failures }, false)
      else (⟨true, failures, some now⟩, true)
    else ({ c with consecutiveFailures := failures }, false)
  | _ => (c, false)

def shouldAttemptProbe (c : Circuit) (now : Nat) : Bool :=
  c.tripped &&
    match c.trippedAt with
    | some at_ => authProbeInterval ≤ now - at_
    | none => true

def markProbe (c : Circuit) (now : Nat) : Circuit := { c with trippedAt := some now }

def skipForRemoteSlot : RemoteResult → Bool
  | .remoteSlotBusy | .remoteSlotUnavailable => true
  | _ => false

/-- A remote operation: how long it is waited for, what it answers and how long it takes. -/
structure Remote where
  wait : Nat
  result : RemoteResult
  took : Nat

/-- One call of `record`. -/
structure Recording where
  result : RemoteResult
  before : Bool
  after : Bool
  returned : Bool
  deriving DecidableEq

/-- Inside a cycle; the operations that are not skipped leave the time at which they begin. -/
structure Progress where
  circuit : Circuit
  now : Nat
  attempted : List Nat
  /-- The newest first. -/
  history : List Recording

inductive CycleResult where
  | regular (outcome : SyncOutcome)
  | neutral

section Cycle

def perform (s : Progress) (op : Remote) : Progress :=
  let begun := s.now + op.wait
  { s with
    now := begun + op.took
    attempted := if skipForRemoteSlot op.result then s.attempted else s.attempted ++ [begun] }

def observeAuth (s : Progress) (result : RemoteResult) : Progress :=
  let (circuit, returned) := record s.circuit result s.now
  { s with
    circuit := circuit
    history := ⟨result, s.circuit.tripped, circuit.tripped, returned⟩ :: s.history }

def observed (s : Progress) (op : Remote) : Progress := observeAuth (perform s op) op.result

def authEnd (s : Progress) : CycleResult :=
  if s.circuit.tripped then .regular .authCircuitOpen else .regular .normal

/-- What ends the cycle after the first push of an attempt. -/
def afterPush (s : Progress) : RemoteResult → Option CycleResult
  | .ok => some (.regular .normal)
  | .rateLimited => some (.regular .rateLimited)
  | .authFailed => some (authEnd s)
  | .pushConflict => none
  | .remoteSlotBusy | .remoteSlotUnavailable => some .neutral
  | .failed => some (.regular .normal)

def afterFetch (s : Progress) : RemoteResult → Option CycleResult
  | .ok => none
  | .rateLimited => some (.regular .rateLimited)
  | .authFailed => some (authEnd s)
  | .remoteSlotBusy | .remoteSlotUnavailable => some .neutral
  | .pushConflict | .failed => some (.regular .normal)

/-- After the push that follows the rebase or the conflict resolution. -/
def afterSecondPush (s : Progress) : RemoteResult → Option CycleResult
  | .ok => some (.regular .normal)
  | .rateLimited => some (.regular .rateLimited)
  | .authFailed => some (authEnd s)
  | .remoteSlotBusy | .remoteSlotUnavailable => some .neutral
  | .pushConflict | .failed => none

/-- `epoch_fence_and_follow`: the fetches of the follow, which the circuit does not observe, and
whether the fence is closed. -/
structure Fence where
  follow : List Remote
  closed : Bool

structure Attempt where
  push : Remote
  fetch : Remote
  fence : Fence
  /-- The divergence net, the capture or the conflict replay ends the cycle. -/
  settled : Bool
  backstop : Fence
  secondPush : Remote

def follow (s : Progress) (fence : Fence) : Progress := fence.follow.foldl perform s

/-- After the fetch: the rebase or the conflict resolution, and the second push. -/
def republish (s : Progress) (a : Attempt) : Progress × Option CycleResult :=
  let fenced := follow s a.fence
  if a.fence.closed || a.settled then (fenced, some (.regular .normal))
  else
    let stopped := follow fenced a.backstop
    if a.backstop.closed then (stopped, some (.regular .normal))
    else
      let again := observed stopped a.secondPush
      (again, afterSecondPush again a.secondPush.result)

/-- One turn of the loop; without a result the next one follows. -/
def attempt (s : Progress) (a : Attempt) : Progress × Option CycleResult :=
  let pushed := observed s a.push
  match afterPush pushed a.push.result with
  | some result => (pushed, some result)
  | none =>
    let fetched := observed pushed a.fetch
    match afterFetch fetched a.fetch.result with
    | some result => (fetched, some result)
    | none => republish fetched a

/-- The turns that are left. -/
def attempts (answers : Nat → Attempt) : Nat → Progress → Progress × CycleResult
  | 0, s => (s, .regular .normal)
  | left + 1, s =>
    match attempt s (answers (maxSyncRetries - (left + 1))) with
    | (s, some result) => (s, result)
    | (s, none) => attempts answers left s

def syncWithPush (s : Progress) (fence : Fence) (answers : Nat → Attempt) : Progress × CycleResult :=
  let fenced := follow s fence
  if fence.closed then (fenced, .regular .normal) else attempts answers maxSyncRetries fenced

/-- The ways through `fetch_for_pull`, and the fetch of a cycle without the cache. -/
inductive Pull where
  /-- The cache lock is held, or a failure still cools down. -/
  | held
  /-- The cached generation is fresh. -/
  | fresh
  | direct (fetch : Remote)
  | leader (shadow : Remote) (published : Bool) (fetch : Remote)
  | uncached (fetch : Remote)

inductive PullFetchResult where
  | ready
  | neutralSkip
  | remoteError (error : RemoteResult)

def directFallback (s : Progress) (fetch : Remote) : Progress × PullFetchResult :=
  (perform s fetch,
    match fetch.result with
    | .ok => .ready
    | .remoteSlotBusy | .remoteSlotUnavailable => .neutralSkip
    | error => .remoteError error)

def fetchForPull (s : Progress) : Pull → Progress × PullFetchResult
  | .held => (s, .neutralSkip)
  | .fresh => (s, .ready)
  | .direct fetch => directFallback s fetch
  | .leader shadow published fetch =>
    let shadowed := perform s shadow
    match shadow.result with
    | .ok => if published then (shadowed, .ready) else directFallback shadowed fetch
    | .remoteSlotBusy | .remoteSlotUnavailable => (shadowed, .neutralSkip)
    | error => (shadowed, .remoteError error)
  | .uncached fetch =>
    (perform s fetch,
      match fetch.result with
      | .ok => .ready
      | error => .remoteError error)

def syncPullOnly (s : Progress) (pull : Pull) (rebaseFails : Bool) : Progress × CycleResult :=
  let rebased := CycleResult.regular (if rebaseFails then .rebaseFailed else .normal)
  match fetchForPull s pull with
  | (s, .neutralSkip) => (s, .neutral)
  | (s, .ready) => (observeAuth s .ok, rebased)
  | (s, .remoteError error) =>
    let s := observeAuth s error
    (s, (afterFetch s error).getD rebased)

inductive Prepared where
  /-- A recovery or the question for unpushed commits failed. -/
  | failed
  | unpushed
  | nothingUnpushed

/-- What a cycle meets: how long the loop slept, what the clock advances between the check and the
mark of a probe, and the answers. -/
structure Env where
  slept : Nat
  marking : Nat
  prepared : Prepared
  fence : Fence
  answers : Nat → Attempt
  pull : Pull
  rebaseFails : Bool

def work (s : Progress) (e : Env) : Progress × CycleResult :=
  match e.prepared with
  | .failed => (s, .regular .normal)
  | .unpushed => syncWithPush s e.fence e.answers
  | .nothingUnpushed => syncPullOnly s e.pull e.rebaseFails

def restore (probeState : Option Nat) : Progress × CycleResult → Progress
  | (s, .neutral) => { s with circuit := { s.circuit with trippedAt := probeState } }
  | (s, .regular _) => s

/-- `run_sync_cycle_with_cache_inner`. -/
def runSyncCycle (circuit : Circuit) (now : Nat) (history : List Recording) (e : Env) : Progress :=
  let s : Progress := ⟨circuit, now, [], history⟩
  if circuit.tripped then
    if shouldAttemptProbe circuit now then
      let marked := now + e.marking
      restore circuit.trippedAt
        (work { s with circuit := markProbe circuit marked, now := marked } e)
    else s
  else restore circuit.trippedAt (work s e)

end Cycle

section Loop

structure CycleLog where
  start : Nat
  tripped : Bool
  attempted : List Nat
  deriving DecidableEq

/-- The sync loop between two cycles; the newest cycle and the newest recording come first. -/
structure World where
  circuit : Circuit
  now : Nat
  cycles : List CycleLog
  history : List Recording

def World.fresh (now : Nat) : World := ⟨Circuit.new, now, [], []⟩

def step (w : World) (e : Env) : Option World :=
  let start := w.now + e.slept
  let s := runSyncCycle w.circuit start w.history e
  some ⟨s.circuit, s.now, ⟨start, w.circuit.tripped, s.attempted⟩ :: w.cycles, s.history⟩

def failuresSinceSuccess : List Recording → Nat
  | [] => 0
  | r :: rest =>
    match r.result with
    | .ok => 0
    | .authFailed => failuresSinceSuccess rest + 1
    | _ => failuresSinceSuccess rest

def Failing (history : List Recording) : Prop :=
  authFailureTripThreshold ≤ failuresSinceSuccess history

/-- Each call of `record` leaves the circuit tripped exactly after the failures, and returns true
exactly where it trips it. -/
def Edges : List Recording → Prop
  | [] => True
  | r :: rest =>
    (r.before = true ↔ Failing rest) ∧ (r.after = true ↔ Failing (r :: rest)) ∧
    (r.returned = true ↔ r.before = false ∧ r.after = true) ∧ Edges rest

/-- A tripped cycle that attempts an operation begins an interval after every earlier one that
does. -/
def Apart (later earlier : CycleLog) : Prop :=
  later.tripped = true → later.attempted ≠ [] → earlier.attempted ≠ [] →
    earlier.start + authProbeInterval ≤ later.start

/-- The remote slot is taken only after an operation has reached the remote without an answer for
the circuit. -/
def contended (e : Env) : Bool :=
  match e.prepared with
  | .failed => false
  | .unpushed =>
    let first := e.answers 0
    !e.fence.closed &&
      ((skipForRemoteSlot first.push.result &&
          e.fence.follow.any fun op => !skipForRemoteSlot op.result) ||
        (first.push.result == .pushConflict && skipForRemoteSlot first.fetch.result))
  | .nothingUnpushed =>
    match e.pull with
    | .leader shadow published fetch =>
      shadow.result == .ok && !published && skipForRemoteSlot fetch.result
    | _ => false

def Uncontended (w : World) (e : Env) : Prop :=
  shouldAttemptProbe w.circuit (w.now + e.slept) = true → contended e = false

end Loop

section Invariants
variable {s : Progress} {P : Progress → Prop}

/-- A property of the cycle that every operation and every call of `record` keeps. -/
structure Kept (P : Progress → Prop) : Prop where
  perform : ∀ s op, P s → P (perform s op)
  observe : ∀ s result, P s → P (observeAuth s result)

theorem Kept.observed (hkept : Kept P) (op : Remote) (h : P s) : P (observed s op) :=
  hkept.observe _ _ (hkept.perform _ _ h)

theorem Kept.follow (hkept : Kept P) (fence : Fence) (h : P s) : P (follow s fence) := by
  rw [AuthCircuit.follow]
  induction fence.follow generalizing s with
  | nil => exact h
  | cons op ops ih => exact ih (hkept.perform s op h)

theorem Kept.republish (hkept : Kept P) (a : Attempt) (h : P s) : P (republish s a).1 := by
  have hfenced := hkept.follow a.fence h
  have hstopped := hkept.follow a.backstop hfenced
  rw [AuthCircuit.republish]
  split
  · exact hfenced
  · split
    · exact hstopped
    · exact hkept.observed a.secondPush hstopped

theorem Kept.attempt (hkept : Kept P) (a : Attempt) (h : P s) : P (attempt s a).1 := by
  have hpushed := hkept.observed a.push h
  have hfetched := hkept.observed a.fetch hpushed
  simp only [AuthCircuit.attempt]
  split
  · exact hpushed
  · split
    · exact hfetched
    · exact hkept.republish a hfetched

theorem Kept.attempts (hkept : Kept P) (answers : Nat → Attempt) (left : Nat) (h : P s) :
    P (attempts answers left s).1 := by
  induction left generalizing s with
  | zero => exact h
  | succ left ih =>
    have hturn := hkept.attempt (answers (maxSyncRetries - (left + 1))) h
    rw [AuthCircuit.attempts]
    split
    · rename_i heq
      rw [heq] at hturn
      exact hturn
    · rename_i heq
      rw [heq] at hturn
      exact ih hturn

theorem Kept.fetchForPull (hkept : Kept P) (pull : Pull) (h : P s) : P (fetchForPull s pull).1 := by
  cases pull with
  | held => exact h
  | fresh => exact h
  | direct fetch => exact hkept.perform s fetch h
  | leader shadow published fetch =>
    have hshadowed := hkept.perform s shadow h
    rw [AuthCircuit.fetchForPull]
    split
    · split
      · exact hshadowed
      · exact hkept.perform _ fetch hshadowed
    · exact hshadowed
    · exact hshadowed
    · exact hshadowed
  | uncached fetch => exact hkept.perform s fetch h

theorem Kept.syncPullOnly (hkept : Kept P) (pull : Pull) (rebaseFails : Bool) (h : P s) :
    P (syncPullOnly s pull rebaseFails).1 := by
  have hfetched := hkept.fetchForPull pull h
  rw [AuthCircuit.syncPullOnly]
  split
  all_goals
    rename_i heq
    rw [heq] at hfetched
  · exact hfetched
  · exact hkept.observe _ .ok hfetched
  · exact hkept.observe _ _ hfetched

theorem Kept.work (hkept : Kept P) (e : Env) (h : P s) : P (work s e).1 := by
  rw [AuthCircuit.work]
  split
  · exact h
  · rw [AuthCircuit.syncWithPush]
    split
    · exact hkept.follow e.fence h
    · exact hkept.attempts e.answers maxSyncRetries (hkept.follow e.fence h)
  · exact hkept.syncPullOnly e.pull e.rebaseFails h

/-- What the circuit keeps agrees with what was recorded. -/
structure Counted (c : Circuit) (history : List Recording) : Prop where
  count : c.consecutiveFailures = min (failuresSinceSuccess history) u32Max
  latched : c.tripped = true ↔ Failing history
  edges : Edges history

theorem counted_fresh : Counted Circuit.new [] := by
  constructor
  · rfl
  · exact iff_of_false Bool.false_ne_true (by rw [Failing]; decide)
  · trivial

theorem record_authFailed (c : Circuit) (now : Nat) :
    record c .authFailed now =
      let trips := !c.tripped && decide (authFailureTripThreshold ≤ saturatingSucc c.consecutiveFailures)
      (⟨c.tripped || decide (authFailureTripThreshold ≤ saturatingSucc c.consecutiveFailures),
        saturatingSucc c.consecutiveFailures, if trips then some now else c.trippedAt⟩, trips) := by
  obtain ⟨tripped, failures, trippedAt⟩ := c
  by_cases h : authFailureTripThreshold ≤ saturatingSucc failures <;> cases tripped <;>
    simp [record, h]

theorem record_other {result : RemoteResult} (hok : result ≠ .ok) (hauth : result ≠ .authFailed)
    (c : Circuit) (now : Nat) : record c result now = (c, false) := by
  cases result <;> first | rfl | contradiction

theorem failures_other {r : Recording} (hok : r.result ≠ .ok) (hauth : r.result ≠ .authFailed)
    (rest : List Recording) : failuresSinceSuccess (r :: rest) = failuresSinceSuccess rest := by
  rw [failuresSinceSuccess]
  split <;> first | rfl | contradiction

theorem failures_authFailed {r : Recording} (hauth : r.result = .authFailed)
    (rest : List Recording) : failuresSinceSuccess (r :: rest) = failuresSinceSuccess rest + 1 := by
  rw [failuresSinceSuccess, hauth]

theorem failures_ok {r : Recording} (hok : r.result = .ok) (rest : List Recording) :
    failuresSinceSuccess (r :: rest) = 0 := by
  rw [failuresSinceSuccess, hok]

theorem counted_observe (s : Progress) (result : RemoteResult) (h : Counted s.circuit s.history) :
    Counted (observeAuth s result).circuit (observeAuth s result).history := by
  obtain ⟨hcount, hlatched, hedges⟩ := h
  by_cases hok : result = .ok
  · rw [hok]
    have hnone : ∀ r : Recording, r.result = .ok → ¬ Failing (r :: s.history) := by
      intro r hr
      rw [Failing, failures_ok hr]
      decide
    refine ⟨?_, ?_, hlatched, ?_, ?_, hedges⟩
    · exact (Nat.zero_min _).symm
    · exact iff_of_false Bool.false_ne_true (hnone _ rfl)
    · exact iff_of_false Bool.false_ne_true (hnone _ rfl)
    · exact iff_of_false Bool.false_ne_true (fun h => Bool.false_ne_true h.2)
  · by_cases hauth : result = .authFailed
    · have hsucc : saturatingSucc s.circuit.consecutiveFailures =
          min (failuresSinceSuccess s.history + 1) u32Max := by
        rw [hcount, saturatingSucc]
        omega
      have hreach : authFailureTripThreshold ≤ saturatingSucc s.circuit.consecutiveFailures ↔
          authFailureTripThreshold ≤ failuresSinceSuccess s.history + 1 := by
        rw [hsucc, u32Max, authFailureTripThreshold]
        omega
      have hnext : ∀ r : Recording, r.result = .authFailed →
          ((s.circuit.tripped || decide (authFailureTripThreshold ≤
            saturatingSucc s.circuit.consecutiveFailures)) = true ↔ Failing (r :: s.history)) := by
        intro r hr
        rw [Bool.or_eq_true, hlatched, decide_eq_true_iff, hreach, Failing, Failing,
          failures_authFailed hr]
        omega
      rw [hauth, observeAuth, record_authFailed]
      refine ⟨?_, hnext _ rfl, hlatched, hnext _ rfl, ?_, hedges⟩
      · rw [failures_authFailed rfl]
        exact hsucc
      · cases s.circuit.tripped <;> simp
    · have hsame : ∀ r : Recording, r.result = result →
          failuresSinceSuccess (r :: s.history) = failuresSinceSuccess s.history := by
        rintro r rfl
        exact failures_other hok hauth s.history
      have hfailing : ∀ r : Recording, r.result = result →
          (Failing (r :: s.history) ↔ Failing s.history) := by
        intro r hr
        rw [Failing, Failing, hsame r hr]
      rw [observeAuth, record_other hok hauth]
      refine ⟨?_, ?_, hlatched, ?_, ?_, hedges⟩
      · rw [hsame _ rfl]
        exact hcount
      · rw [hfailing _ rfl]
        exact hlatched
      · rw [hfailing _ rfl]
        exact hlatched
      · cases s.circuit.tripped <;> simp

theorem kept_counted : Kept fun s => Counted s.circuit s.history := by
  constructor
  · intro s op h
    exact h
  · exact counted_observe

/-- A tripped circuit was armed in the cycle that began at `start`. -/
def Armed (start : Nat) (s : Progress) : Prop :=
  s.circuit.tripped = true → ∃ at_, s.circuit.trippedAt = some at_ ∧ start ≤ at_ ∧ at_ ≤ s.now

theorem kept_armed (start : Nat) : Kept fun s => start ≤ s.now ∧ Armed start s := by
  constructor
  · rintro s op ⟨hstart, harmed⟩
    have hlater : s.now ≤ s.now + op.wait + op.took := by omega
    refine ⟨Nat.le_trans hstart hlater, ?_⟩
    intro htripped
    obtain ⟨at_, hat, hlow, hhigh⟩ := harmed htripped
    exact ⟨at_, hat, hlow, Nat.le_trans hhigh hlater⟩
  · rintro s result ⟨hstart, harmed⟩
    refine ⟨hstart, ?_⟩
    by_cases hok : result = .ok
    · rw [hok]
      intro htripped
      exact absurd htripped Bool.false_ne_true
    · by_cases hauth : result = .authFailed
      · rw [hauth, observeAuth, record_authFailed]
        intro _
        cases htripped : s.circuit.tripped with
        | false =>
          by_cases hreach :
            authFailureTripThreshold ≤ saturatingSucc s.circuit.consecutiveFailures
          · exact ⟨s.now, by simp [hreach], hstart, Nat.le_refl _⟩
          · simp_all
        | true =>
          obtain ⟨at_, hat, hbounds⟩ := harmed htripped
          exact ⟨at_, by simpa using hat, hbounds⟩
      · rw [observeAuth, record_other hok hauth]
        exact harmed

end Invariants

section Neutral
variable {s : Progress}

theorem closed_perform (op : Remote) (h : s.circuit.tripped = false) :
    (perform s op).circuit.tripped = false := h

theorem closed_follow (fence : Fence) (h : s.circuit.tripped = false) :
    (follow s fence).circuit.tripped = false := by
  rw [follow]
  induction fence.follow generalizing s with
  | nil => exact h
  | cons op ops ih => exact ih (closed_perform op h)

/-- Only an authentication failure trips the circuit. -/
theorem closed_observe {result : RemoteResult} (hauth : result ≠ .authFailed)
    (h : s.circuit.tripped = false) : (observeAuth s result).circuit.tripped = false := by
  by_cases hok : result = .ok
  · rw [hok]
    rfl
  · rw [observeAuth, record_other hok hauth]
    exact h

theorem closed_observed {op : Remote} (hauth : op.result ≠ .authFailed)
    (h : s.circuit.tripped = false) : (observed s op).circuit.tripped = false :=
  closed_observe hauth (closed_perform op h)

theorem closed_observed_ok {op : Remote} (hok : op.result = .ok) :
    (observed s op).circuit.tripped = false := by
  rw [observed, hok]
  rfl

/-- A turn that goes on, or ends the cycle neutrally. -/
def Goes : Option CycleResult → Prop
  | some (.regular _) => False
  | _ => True

theorem eq_neutral_of_goes {result : CycleResult} (h : Goes (some result)) : result = .neutral := by
  cases result with
  | regular outcome => exact h.elim
  | neutral => rfl

theorem authEnd_ne_neutral (s : Progress) : authEnd s ≠ .neutral := by
  intro h
  rw [authEnd] at h
  split at h <;> cases h

theorem afterPush_none {result : RemoteResult} (h : afterPush s result = none) :
    result = .pushConflict := by
  cases result <;> first | rfl | cases h

theorem afterPush_neutral {result : RemoteResult} (h : afterPush s result = some .neutral) :
    skipForRemoteSlot result = true := by
  cases result with
  | remoteSlotBusy => rfl
  | remoteSlotUnavailable => rfl
  | authFailed => exact absurd (Option.some.inj h) (authEnd_ne_neutral s)
  | _ => cases h

theorem afterFetch_none {result : RemoteResult} (h : afterFetch s result = none) :
    result = .ok := by
  cases result <;> first | rfl | cases h

theorem afterFetch_neutral {result : RemoteResult} (h : afterFetch s result = some .neutral) :
    skipForRemoteSlot result = true := by
  cases result with
  | remoteSlotBusy => rfl
  | remoteSlotUnavailable => rfl
  | authFailed => exact absurd (Option.some.inj h) (authEnd_ne_neutral s)
  | _ => cases h

theorem goes_afterSecondPush {result : RemoteResult} (h : Goes (afterSecondPush s result)) :
    result ≠ .authFailed := by
  rintro rfl
  exact authEnd_ne_neutral s (eq_neutral_of_goes h)

theorem closed_republish {a : Attempt} (h : s.circuit.tripped = false)
    (hgoes : Goes (republish s a).2) : (republish s a).1.circuit.tripped = false := by
  have hstopped := closed_follow a.backstop (closed_follow a.fence h)
  rw [republish] at hgoes ⊢
  split at hgoes
  · exact hgoes.elim
  · rename_i hopen
    rw [if_neg hopen]
    split at hgoes
    · exact hgoes.elim
    · rename_i hopen'
      rw [if_neg hopen']
      exact closed_observed (goes_afterSecondPush hgoes) hstopped

/-- A turn that does not end the cycle regularly closes the circuit, unless the slot was taken. -/
theorem attempt_goes {a : Attempt} (hgoes : Goes (attempt s a).2) :
    (attempt s a).1.circuit.tripped = false ∨
    (skipForRemoteSlot a.push.result = true ∧ attempt s a = (observed s a.push, some .neutral)) ∨
    (a.push.result = .pushConflict ∧ skipForRemoteSlot a.fetch.result = true ∧
      attempt s a = (observed (observed s a.push) a.fetch, some .neutral)) := by
  simp only [attempt] at hgoes ⊢
  rcases hpush : afterPush (observed s a.push) a.push.result with _ | ended
  · have hconflict := afterPush_none hpush
    simp only [hpush] at hgoes ⊢
    rcases hfetch : afterFetch (observed (observed s a.push) a.fetch) a.fetch.result with _ | ended
    · simp only [hfetch] at hgoes ⊢
      exact Or.inl (closed_republish (closed_observed_ok (afterFetch_none hfetch)) hgoes)
    · simp only [hfetch] at hgoes ⊢
      cases eq_neutral_of_goes hgoes
      exact Or.inr (Or.inr ⟨hconflict, afterFetch_neutral hfetch, rfl⟩)
  · simp only [hpush] at hgoes ⊢
    cases eq_neutral_of_goes hgoes
    exact Or.inr (Or.inl ⟨afterPush_neutral hpush, rfl⟩)

theorem closed_attempt {a : Attempt} (h : s.circuit.tripped = false)
    (hgoes : Goes (attempt s a).2) : (attempt s a).1.circuit.tripped = false := by
  have hauth : ∀ {result : RemoteResult}, skipForRemoteSlot result = true → result ≠ .authFailed := by
    rintro _ hskip rfl
    cases hskip
  rcases attempt_goes hgoes with hclosed | ⟨hskip, hend⟩ | ⟨hconflict, hskip, hend⟩
  · exact hclosed
  · rw [hend]
    exact closed_observed (hauth hskip) h
  · rw [hend]
    refine closed_observed (hauth hskip) (closed_observed ?_ h)
    rw [hconflict]
    decide

theorem closed_attempts {answers : Nat → Attempt} (left : Nat) (h : s.circuit.tripped = false)
    (hneutral : (attempts answers left s).2 = .neutral) :
    (attempts answers left s).1.circuit.tripped = false := by
  induction left generalizing s with
  | zero => cases hneutral
  | succ left ih =>
    have hturn := closed_attempt (a := answers (maxSyncRetries - (left + 1))) h
    rw [attempts] at hneutral ⊢
    rcases hend : attempt s (answers (maxSyncRetries - (left + 1))) with ⟨t, _ | result⟩
    · simp only [hend] at hneutral hturn ⊢
      exact ih (hturn trivial) hneutral
    · simp only [hend] at hneutral hturn ⊢
      rw [hneutral] at hturn
      exact hturn trivial

/-- A neutral end of a push cycle. -/
theorem syncWithPush_neutral {fence : Fence} {answers : Nat → Attempt}
    (hneutral : (syncWithPush s fence answers).2 = .neutral) :
    (syncWithPush s fence answers).1.circuit.tripped = false ∨
    (fence.closed = false ∧ skipForRemoteSlot (answers 0).push.result = true ∧
      (syncWithPush s fence answers).1 = observed (follow s fence) (answers 0).push) ∨
    (fence.closed = false ∧ (answers 0).push.result = .pushConflict ∧
      skipForRemoteSlot (answers 0).fetch.result = true) := by
  rw [syncWithPush] at hneutral ⊢
  cases hclosed : fence.closed with
  | true =>
    rw [hclosed] at hneutral
    cases hneutral
  | false =>
    simp only [hclosed, Bool.false_eq_true, if_false, maxSyncRetries, attempts, Nat.sub_self,
      true_and] at hneutral ⊢
    have hturn := attempt_goes (s := follow s fence) (a := answers 0)
    rcases hend : attempt (follow s fence) (answers 0) with ⟨t, _ | result⟩
    · rw [hend] at hturn
      simp only [hend] at hneutral ⊢
      rcases hturn trivial with hopen | ⟨-, hskip⟩ | ⟨-, -, hskip⟩
      · exact Or.inl (closed_attempts 2 hopen hneutral)
      · cases hskip
      · cases hskip
    · simp only [hend] at hneutral ⊢
      rw [hend, hneutral] at hturn
      rcases hturn trivial with hopen | ⟨hskip, hsame⟩ | ⟨hconflict, hskip, -⟩
      · exact Or.inl hopen
      · cases hsame
        exact Or.inr (Or.inl ⟨hskip, rfl⟩)
      · exact Or.inr (Or.inr ⟨hconflict, hskip⟩)

theorem closed_syncWithPush {fence : Fence} {answers : Nat → Attempt}
    (h : s.circuit.tripped = false) (hneutral : (syncWithPush s fence answers).2 = .neutral) :
    (syncWithPush s fence answers).1.circuit.tripped = false := by
  rw [syncWithPush] at hneutral ⊢
  split at hneutral
  · cases hneutral
  · rename_i hopen
    rw [if_neg hopen]
    exact closed_attempts maxSyncRetries (closed_follow fence h) hneutral

theorem perform_skipped {op : Remote} (hskip : skipForRemoteSlot op.result = true) :
    (perform s op).attempted = s.attempted :=
  if_pos hskip

theorem foldl_skipped {ops : List Remote}
    (hskip : ops.any (fun op => !skipForRemoteSlot op.result) = false) :
    (ops.foldl perform s).attempted = s.attempted := by
  induction ops generalizing s with
  | nil => rfl
  | cons op ops ih =>
    rw [List.any_cons, Bool.or_eq_false_iff, Bool.not_eq_false'] at hskip
    exact (ih hskip.2).trans (perform_skipped hskip.1)

theorem fetchForPull_circuit (s : Progress) (pull : Pull) :
    (fetchForPull s pull).1.circuit = s.circuit := by
  cases pull with
  | leader shadow published fetch =>
    rw [fetchForPull]
    split
    · split <;> rfl
    · rfl
    · rfl
    · rfl
  | _ => rfl

theorem directFallback_skips {fetch : Remote} (h : (directFallback s fetch).2 = .neutralSkip) :
    skipForRemoteSlot fetch.result = true := by
  rw [directFallback] at h
  cases hresult : fetch.result <;> first | rfl | (rw [hresult] at h; cases h)

theorem fetchForPull_skips {pull : Pull} (h : (fetchForPull s pull).2 = .neutralSkip) :
    (fetchForPull s pull).1.attempted = s.attempted ∨
    ∃ shadow fetch, pull = .leader shadow false fetch ∧ shadow.result = .ok ∧
      skipForRemoteSlot fetch.result = true := by
  cases pull with
  | held => exact Or.inl rfl
  | fresh => cases h
  | direct fetch => exact Or.inl (perform_skipped (directFallback_skips h))
  | leader shadow published fetch =>
    have hskipped : skipForRemoteSlot shadow.result = true →
        (perform s shadow).attempted = s.attempted := perform_skipped
    simp only [fetchForPull] at h ⊢
    cases hresult : shadow.result with
    | ok =>
      cases published with
      | true =>
        rw [hresult] at h
        cases h
      | false =>
        rw [hresult] at h
        exact Or.inr ⟨shadow, fetch, rfl, hresult, directFallback_skips h⟩
    | remoteSlotBusy => exact Or.inl (hskipped (by rw [hresult]; rfl))
    | remoteSlotUnavailable => exact Or.inl (hskipped (by rw [hresult]; rfl))
    | _ =>
      rw [hresult] at h
      cases h
  | uncached fetch =>
    simp only [fetchForPull] at h
    split at h <;> cases h

theorem fetchForPull_remoteError {pull : Pull} {error : RemoteResult}
    (h : (fetchForPull s pull).2 = .remoteError error) (hskip : skipForRemoteSlot error = true) :
    (fetchForPull s pull).1.attempted = s.attempted := by
  have hdirect : ∀ t fetch, (directFallback t fetch).2 ≠ .remoteError error := by
    intro t fetch hend
    rw [directFallback] at hend
    cases hresult : fetch.result <;> rw [hresult] at hend <;> cases hend <;> cases hskip
  cases pull with
  | held => cases h
  | fresh => cases h
  | direct fetch => exact absurd h (hdirect s fetch)
  | leader shadow published fetch =>
    simp only [fetchForPull] at h
    cases hresult : shadow.result with
    | ok =>
      cases published with
      | true =>
        rw [hresult] at h
        cases h
      | false =>
        rw [hresult] at h
        exact absurd h (hdirect _ fetch)
    | _ =>
      rw [hresult] at h
      cases h
      try cases hskip
  | uncached fetch =>
    refine perform_skipped ?_
    simp only [fetchForPull] at h
    cases hresult : fetch.result <;> rw [hresult] at h <;> cases h <;> exact hskip

theorem syncPullOnly_neutral {pull : Pull} {rebaseFails : Bool}
    (hneutral : (syncPullOnly s pull rebaseFails).2 = .neutral) :
    (syncPullOnly s pull rebaseFails).1.circuit.tripped = s.circuit.tripped ∧
    ((syncPullOnly s pull rebaseFails).1.attempted = s.attempted ∨
      ∃ shadow fetch, pull = .leader shadow false fetch ∧ shadow.result = .ok ∧
        skipForRemoteSlot fetch.result = true) := by
  have hcircuit := fetchForPull_circuit s pull
  have hskips : (fetchForPull s pull).2 = .neutralSkip → _ := fetchForPull_skips
  have herrors : ∀ error, (fetchForPull s pull).2 = .remoteError error → _ → _ :=
    fun _ => fetchForPull_remoteError
  rw [syncPullOnly] at hneutral ⊢
  rcases hfetch : fetchForPull s pull with ⟨t, _ | _ | error⟩
  · rw [hfetch] at hneutral
    cases hneutral
  · rw [hfetch] at hskips hcircuit
    exact ⟨congrArg Circuit.tripped hcircuit, hskips rfl⟩
  · rw [hfetch] at hneutral herrors hcircuit
    have hskip : skipForRemoteSlot error = true := by
      cases error with
      | remoteSlotBusy => rfl
      | remoteSlotUnavailable => rfl
      | authFailed =>
        simp only [afterFetch, authEnd, Option.getD_some] at hneutral
        split at hneutral <;> cases hneutral
      | _ => cases hneutral
    have hother : error ≠ .ok ∧ error ≠ .authFailed := by
      constructor <;> rintro rfl <;> cases hskip
    have hsame : (observeAuth t error).circuit = t.circuit := by
      rw [observeAuth, record_other hother.1 hother.2]
    refine ⟨?_, Or.inl (herrors error rfl hskip)⟩
    exact congrArg Circuit.tripped (hsame.trans hcircuit)

/-- A neutral end leaves a closed circuit closed. -/
theorem closed_work {e : Env} (h : s.circuit.tripped = false)
    (hneutral : (work s e).2 = .neutral) : (work s e).1.circuit.tripped = false := by
  rw [work] at hneutral ⊢
  cases hprepared : e.prepared with
  | failed => rw [hprepared] at hneutral; cases hneutral
  | unpushed =>
    rw [hprepared] at hneutral
    exact closed_syncWithPush h hneutral
  | nothingUnpushed =>
    rw [hprepared] at hneutral
    exact (syncPullOnly_neutral hneutral).1.trans h

/-- Outside contention a neutral end that leaves the circuit tripped has attempted nothing. -/
theorem work_neutral {e : Env} (hstart : s.attempted = []) (hcalm : contended e = false)
    (hneutral : (work s e).2 = .neutral) :
    (work s e).1.circuit.tripped = false ∨ (work s e).1.attempted = [] := by
  rw [work] at hneutral ⊢
  rw [contended] at hcalm
  cases hprepared : e.prepared with
  | failed => rw [hprepared] at hneutral; cases hneutral
  | unpushed =>
    rw [hprepared] at hneutral hcalm
    simp only at hneutral hcalm ⊢
    rcases syncWithPush_neutral hneutral with hclosed | ⟨hopen, hskip, hend⟩ | ⟨hopen, hconflict, hskip⟩
    · exact Or.inl hclosed
    · right
      rw [hopen, hskip] at hcalm
      simp only [Bool.not_false, Bool.true_and, Bool.or_eq_false_iff] at hcalm
      rw [hend]
      exact (perform_skipped hskip).trans ((foldl_skipped hcalm.1).trans hstart)
    · rw [hopen, hconflict, hskip] at hcalm
      simp at hcalm
  | nothingUnpushed =>
    rw [hprepared] at hneutral hcalm
    simp only at hneutral hcalm ⊢
    rcases (syncPullOnly_neutral hneutral).2 with hsame | ⟨shadow, fetch, hpull, hok, hskip⟩
    · exact Or.inr (hsame.trans hstart)
    · rw [hpull] at hcalm
      simp [hok, hskip] at hcalm

end Neutral

section Discipline
variable {c : Circuit} {start : Nat} {history : List Recording} {e : Env}

/-- A cycle that is not neutral re-arms the circuit it leaves tripped; a neutral one has attempted
nothing. -/
def Rearmed (c : Circuit) (start : Nat) (s : Progress) : Prop :=
  s.circuit.tripped = true →
    (∃ at_, s.circuit.trippedAt = some at_ ∧ start ≤ at_ ∧ at_ ≤ s.now) ∨
    (c.tripped = true ∧ s.circuit.trippedAt = c.trippedAt ∧ s.attempted = [])

theorem restore_spec (c : Circuit) (start : Nat) (e : Env) {s : Progress} (hbefore : s.attempted = [] ∧ s.circuit.tripped = c.tripped)
    (harmed : start ≤ s.now ∧ Armed start s) (hcalm : c.tripped = true → contended e = false) :
    start ≤ (restore c.trippedAt (work s e)).now ∧
      Rearmed c start (restore c.trippedAt (work s e)) := by
  have hkept := (kept_armed start).work e harmed
  have hclosed := closed_work (s := s) (e := e)
  have hneutral := fun hcalm => work_neutral (s := s) (e := e) hbefore.1 hcalm
  rcases hend : work s e with ⟨t, outcome | _⟩
  · rw [hend] at hkept
    exact ⟨hkept.1, fun htripped => Or.inl (hkept.2 htripped)⟩
  · rw [hend] at hkept hclosed hneutral
    refine ⟨hkept.1, fun htripped => Or.inr ?_⟩
    have hwas : c.tripped = true := by
      rw [← hbefore.2, ← Bool.not_eq_false]
      intro hopen
      exact Bool.false_ne_true ((hclosed hopen rfl).symm.trans htripped)
    refine ⟨hwas, rfl, ?_⟩
    rcases hneutral (hcalm hwas) rfl with hopen | hnothing
    · exact absurd (hopen.symm.trans htripped) Bool.false_ne_true
    · exact hnothing

theorem counted_restore {probeState : Option Nat} {r : Progress × CycleResult}
    (h : Counted r.1.circuit r.1.history) :
    Counted (restore probeState r).circuit (restore probeState r).history := by
  rcases r with ⟨t, outcome | _⟩
  · exact h
  · exact ⟨h.count, h.latched, h.edges⟩

theorem counted_runSyncCycle (h : Counted c history) :
    Counted (runSyncCycle c start history e).circuit (runSyncCycle c start history e).history := by
  have hmarked : Counted (markProbe c (start + e.marking)) history := ⟨h.count, h.latched, h.edges⟩
  rw [runSyncCycle]
  split
  · split
    · exact counted_restore (kept_counted.work e hmarked)
    · exact h
  · exact counted_restore (kept_counted.work e h)

/-- What a cycle does to the circuit it meets. -/
theorem runSyncCycle_spec (history : List Recording) (hcalm : shouldAttemptProbe c start = true → contended e = false) :
    start ≤ (runSyncCycle c start history e).now ∧
    Rearmed c start (runSyncCycle c start history e) ∧
    (c.tripped = true → (runSyncCycle c start history e).attempted ≠ [] →
      shouldAttemptProbe c start = true) := by
  rw [runSyncCycle]
  split
  · rename_i htripped
    split
    · rename_i hprobe
      obtain ⟨hlater, hrearmed⟩ := restore_spec c start e
        (s := ⟨markProbe c (start + e.marking), start + e.marking, [], history⟩) ⟨rfl, rfl⟩
        ⟨Nat.le_add_right _ _, fun _ => ⟨_, rfl, Nat.le_add_right _ _, Nat.le_refl _⟩⟩
        (fun _ => hcalm hprobe)
      exact ⟨hlater, hrearmed, fun _ _ => hprobe⟩
    · exact ⟨Nat.le_refl _, fun _ => Or.inr ⟨htripped, rfl, rfl⟩, fun _ h => absurd rfl h⟩
  · rename_i hopen
    obtain ⟨hlater, hrearmed⟩ := restore_spec c start e
      (s := ⟨c, start, [], history⟩) ⟨rfl, rfl⟩
      ⟨Nat.le_refl _, fun htripped => absurd htripped hopen⟩ (fun htripped => absurd htripped hopen)
    exact ⟨hlater, hrearmed, fun htripped _ => absurd htripped hopen⟩

/-- What every reached state of the loop meets. -/
structure Sound (w : World) : Prop where
  counted : Counted w.circuit w.history
  started : ∀ c ∈ w.cycles, c.start ≤ w.now
  armed : w.circuit.tripped = true → ∃ at_, w.circuit.trippedAt = some at_ ∧
    ∀ c ∈ w.cycles, c.attempted ≠ [] → c.start ≤ at_
  apart : w.cycles.Pairwise Apart

theorem sound_fresh (now : Nat) : Sound (World.fresh now) := by
  constructor
  · exact counted_fresh
  · exact List.forall_mem_nil _
  · intro htripped
    exact absurd htripped Bool.false_ne_true
  · exact List.Pairwise.nil

theorem probe_elapsed {at_ : Nat} (hprobe : shouldAttemptProbe c start = true)
    (hat : c.trippedAt = some at_) : at_ + authProbeInterval ≤ start := by
  rw [shouldAttemptProbe, hat, Bool.and_eq_true] at hprobe
  have helapsed := of_decide_eq_true hprobe.2
  rw [authProbeInterval] at helapsed ⊢
  omega

theorem sound_step {w w' : World} (hw : Sound w) (hcalm : Uncontended w e)
    (hstep : step w e = some w') : Sound w' := by
  obtain ⟨hlater, hrearmed, hprobes⟩ :=
    runSyncCycle_spec w.history hcalm
  cases hstep
  constructor
  · exact counted_runSyncCycle hw.counted
  · intro c hc
    rcases List.mem_cons.mp hc with rfl | hc
    · exact hlater
    · have hstarted := hw.started c hc
      exact Nat.le_trans (Nat.le_trans hstarted (Nat.le_add_right _ _)) hlater
  · intro htripped
    rcases hrearmed htripped with ⟨at_, hat, hlow, -⟩ | ⟨hwas, hkept, hnothing⟩
    · refine ⟨at_, hat, ?_⟩
      intro c hc _
      rcases List.mem_cons.mp hc with rfl | hc
      · exact hlow
      · have hstarted := hw.started c hc
        exact Nat.le_trans (Nat.le_trans hstarted (Nat.le_add_right _ _)) hlow
    · obtain ⟨at_, hat, hearlier⟩ := hw.armed hwas
      refine ⟨at_, hkept.trans hat, ?_⟩
      intro c hc hattempted
      rcases List.mem_cons.mp hc with rfl | hc
      · exact absurd hnothing hattempted
      · exact hearlier c hc hattempted
  · refine List.pairwise_cons.mpr ⟨?_, hw.apart⟩
    intro earlier hearlier htripped hattempted hattempted'
    obtain ⟨at_, hat, hbefore⟩ := hw.armed htripped
    have helapsed := probe_elapsed (hprobes htripped hattempted) hat
    have hstart := hbefore earlier hearlier hattempted'
    exact Nat.le_trans (Nat.add_le_add_right hstart authProbeInterval) helapsed

/-- The discipline of the auth circuit. -/
structure Disciplined (w : World) : Prop where
  latched : w.circuit.tripped = true ↔ Failing w.history
  edges : Edges w.history
  apart : w.cycles.Pairwise Apart

/-- The latch and its edges are right in every run, contended or not. -/
theorem run_latched (now : Nat) {es : List Env} {w : World}
    (hrun : run step (World.fresh now) es = some w) :
    (w.circuit.tripped = true ↔ Failing w.history) ∧ Edges w.history := by
  have hcounted : Counted w.circuit w.history := by
    have hstep : ∀ w e w', Counted w.circuit w.history → True → step w e = some w' →
        Counted w'.circuit w'.history := by
      intro w e w' hw _ hstep
      cases hstep
      exact counted_runSyncCycle hw
    exact run_invariant hstep hrun (along_of_forall (fun _ _ _ => trivial) _) counted_fresh
  exact ⟨hcounted.latched, hcounted.edges⟩

/-- In a run whose probes meet no contention the circuit is disciplined. -/
theorem run_disciplined (now : Nat) {es : List Env} {w : World}
    (hrun : run step (World.fresh now) es = some w)
    (hcalm : Along step Uncontended (World.fresh now) es) : Disciplined w := by
  have hsound := run_invariant (fun w e w' hw hcalm hstep => sound_step hw hcalm hstep) hrun hcalm
    (sound_fresh now)
  exact ⟨hsound.counted.latched, hsound.counted.edges, hsound.apart⟩

end Discipline

section Contention

def answered (result : RemoteResult) : Remote := ⟨0, result, 0⟩

def openFence : Fence := ⟨[], false⟩

/-- A cycle without unpushed commits whose fetch is answered so. -/
def fetching (slept : Nat) (result : RemoteResult) : Env :=
  ⟨slept, 0, .nothingUnpushed, openFence,
    fun _ => ⟨answered .ok, answered .ok, openFence, true, openFence, answered .ok⟩,
    .direct (answered result), false⟩

/-- A cycle with unpushed commits whose push and fetch are answered so. -/
def pushing (slept : Nat) (push fetch : RemoteResult) : Env :=
  { fetching slept .ok with
    prepared := .unpushed
    answers := fun _ =>
      ⟨answered push, answered fetch, openFence, true, openFence, answered .ok⟩ }

def trips : List Env :=
  [fetching 5000 .authFailed, fetching 5000 .authFailed, fetching 5000 .authFailed]

theorem run_disciplined_probe : Disciplined
    ((run step (World.fresh 0) (trips ++ [fetching 300000 .authFailed])).getD (World.fresh 0)) := by
  refine @run_disciplined 0 (trips ++ [fetching 300000 .authFailed]) _ rfl ?_
  exact along_of_forall (by
    intro e he w _
    have hfetching : ∀ slept result, contended (fetching slept result) = false := fun _ _ => rfl
    simp only [trips, List.mem_append, List.mem_cons, List.not_mem_nil, or_false] at he
    rcases he with (rfl | rfl | rfl) | rfl <;> exact hfetching _ _) (World.fresh 0)

/-- A probe whose push is refused and whose fetch finds the slot taken is followed by another one
five seconds later. -/
theorem not_run_disciplined :
    ¬ ∀ now es w, run step (World.fresh now) es = some w → Disciplined w := by
  intro h
  have happart := (h 0 (trips ++ [pushing 300000 .pushConflict .remoteSlotBusy,
    pushing 5000 .authFailed .ok]) _ rfl).apart
  have hprobes := (List.pairwise_cons.mp happart).1 ⟨315000, true, [315000]⟩ (by decide +kernel)
    (by decide +kernel) (by decide +kernel) (by decide +kernel)
  revert hprobes
  decide +kernel

end Contention

end AuthCircuit
