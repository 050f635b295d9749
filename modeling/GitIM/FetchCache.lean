import GitIM.Runs
import GitIM.FileTree

/-!
# The shared fetch cache

The clones of a workspace share what one of them has fetched. A state file selects a
generation of the cache; a clone that finds it fresh imports the generation unless it
remembers to have applied it, and a clone that finds it old fetches and publishes. Time
is a sequence of instants with a clock reading each, and the remote has some branches at
every instant.
-/

namespace FetchCache

open TextLines FileTree Runs

section Model

/-- The branches of a repository and their commits. -/
abbrev Manifest : Type := List (Text × Text)

inductive AttemptClass where
  | success
  | authFailed
  | rateLimited
  | transientFailure
  deriving DecidableEq

/-- The state file. The instants at which its manifest was fetched for the first and for the last
time are not part of the file. -/
structure CacheState where
  generation : Nat
  manifest : Manifest
  completedAt : Nat
  attempt : AttemptClass
  retryAfter : Option Nat
  revision : Nat
  first : Nat
  last : Nat
  deriving DecidableEq

/-- A file that cannot be read or belongs to another remote is unusable. -/
inductive StateFile where
  | missing
  | unusable
  | usable (state : CacheState)
  deriving DecidableEq

/-- A clone: its poll interval, its progress and its remote-tracking branches. -/
structure Clone where
  interval : Nat
  applied : Option Nat
  disabled : Bool
  retries : Nat
  refs : Text → Option Text

structure World where
  now : Nat
  file : StateFile
  cache : List (Nat × Manifest)
  clones : List Clone

inductive GitError where
  | authFailed
  | rateLimited
  | remoteSlotBusy
  | other
  deriving DecidableEq

inductive NeutralHint where
  | preserveSchedule
  | retryContention
  deriving DecidableEq

inductive PullFetchResult where
  | ready
  | neutralSkip (hint : NeutralHint)
  | remoteError (e : GitError)
  deriving DecidableEq

inductive LockAttempt where
  | acquired
  | contended
  | failed
  deriving DecidableEq

/-- What a call finds: its instants and how its commands end. A call that does not get to import a
fresh generation goes on as a leader, which reads and imports once more. -/
structure Env where
  discovered : Bool
  lock : LockAttempt
  decision : Nat
  revision : Nat
  followerReadable : Bool
  followerImported : Bool
  shadowFetch : Option GitError
  snapshot : Nat
  manifestRead : Bool
  cacheIntact : Bool
  cacheReady : Bool
  published : Bool
  completed : Nat
  activeReadable : Bool
  publishedReadable : Bool
  importReadable : Bool
  stateWritten : Bool
  imported : Bool
  cleaned : Bool
  directFetch : Option GitError
  directAt : Nat

variable (remote : Nat → Manifest) (clock : Nat → Nat)

def maxContentionShortRetries : Nat := 3
def rateLimitCooldown : Nat := 120000
def minTransientCooldown : Nat := 3000
def authFailureCooldown : Nat := 300000
def generationBound : Nat := 2 ^ 64

def successIsFresh (st : CacheState) (now interval : Nat) : Bool :=
  st.attempt = .success ∧ st.completedAt ≤ now ∧ now - st.completedAt < interval

def failureCooldownActive (st : CacheState) (now revision : Nat) : Bool :=
  st.attempt ≠ .success ∧ st.revision = revision ∧ st.completedAt ≤ now ∧
    ∃ t ∈ st.retryAfter, t > now

def retryAfter (e : GitError) (now interval : Nat) : Nat :=
  match e with
  | .authFailed => now + authFailureCooldown
  | .rateLimited => now + rateLimitCooldown
  | .remoteSlotBusy | .other => now + max interval minTransientCooldown

def attemptOf : GitError → AttemptClass
  | .authFailed => .authFailed
  | .rateLimited => .rateLimited
  | .remoteSlotBusy | .other => .transientFailure

/-- The cache holds the generation as the state lists it. -/
def validateActiveGeneration (cache : List (Nat × Manifest)) (generation : Nat) (manifest : Manifest)
    (readable : Bool) : Bool :=
  readable ∧ (cache.lookup generation).getD [] = manifest

/-- Branches that are fetched replace those of the clone; the others stay. -/
def fetchRefs (manifest : Manifest) (refs : Text → Option Text) : Text → Option Text :=
  fun branch => (manifest.lookup branch).or (refs branch)

def World.setClone (w : World) (k : Nat) (c : Clone) : World :=
  { w with clones := w.clones.set k c }

def directFallback (w : World) (k : Nat) (c : Clone) (trustworthy : Option Nat) (env : Env) :
    World × PullFetchResult :=
  match env.directFetch with
  | none =>
    let fetched := { c with
      retries := 0
      refs := fetchRefs (remote env.directAt) c.refs }
    match trustworthy with
    | some generation => (w.setClone k { fetched with applied := some generation }, .ready)
    | none => (w.setClone k { fetched with disabled := true }, .ready)
  | some .remoteSlotBusy => (w.setClone k { c with retries := 0 }, .neutralSkip .preserveSchedule)
  | some e => (w.setClone k { c with retries := 0 }, .remoteError e)

def cleanupInactiveGenerations (cache : List (Nat × Manifest)) (generation : Nat) (env : Env) :
    List (Nat × Manifest) :=
  if env.cleaned then cache.filter fun e => e.1 = generation else cache

/-- The generation of a new manifest; `none` if the counter is exhausted. -/
def nextGeneration (previous : Option CacheState) (manifest : Manifest) (publish : Bool) :
    Option Nat :=
  match previous with
  | none => some (if manifest = [] then 0 else 1)
  | some st =>
    if publish = false then some st.generation
    else if st.generation + 1 < generationBound then some (st.generation + 1) else none

def failureState (previous : Option CacheState) (e : GitError) (interval : Nat) (env : Env) :
    CacheState where
  generation := (previous.map CacheState.generation).getD 0
  manifest := (previous.map CacheState.manifest).getD []
  completedAt := clock env.completed
  attempt := attemptOf e
  retryAfter := some (retryAfter e (clock env.completed) interval)
  revision := env.revision
  first := (previous.map CacheState.first).getD env.snapshot
  last := (previous.map CacheState.last).getD env.snapshot

def successState (previous : Option CacheState) (generation : Nat) (manifest : Manifest)
    (publish : Bool) (env : Env) : CacheState where
  generation := generation
  manifest := manifest
  completedAt := clock env.completed
  attempt := .success
  retryAfter := none
  revision := env.revision
  first := if publish then env.snapshot else (previous.map CacheState.first).getD env.snapshot
  last := env.snapshot

/-- The last part of a refresh: the state is replaced, and the clone imports what it selects. -/
def selectGeneration (w : World) (k : Nat) (c : Clone) (st : CacheState)
    (trustworthy : Option Nat) (env : Env) : World × PullFetchResult :=
  if env.stateWritten = false then directFallback remote w k c trustworthy env
  else
    let selected := { w with file := .usable st }
    let done := fun (c : Clone) => ({ selected with
      cache := if st.generation > 0 then cleanupInactiveGenerations w.cache st.generation env
        else w.cache
      clones := w.clones.set k { c with applied := some st.generation } }, PullFetchResult.ready)
    if st.manifest ≠ [] ∧ c.applied ≠ some st.generation then
      if validateActiveGeneration w.cache st.generation st.manifest env.importReadable = false then
        directFallback remote selected k c none env
      else if env.imported = false then directFallback remote selected k c none env
      else done { c with refs := fetchRefs ((w.cache.lookup st.generation).getD []) c.refs }
    else done c

/-- The cache with the new generation; `none` if a command fails, with what it has left behind. -/
def publishGeneration (cache : List (Nat × Manifest)) (generation : Nat) (manifest : Manifest)
    (repair : Bool) (env : Env) : List (Nat × Manifest) × Bool :=
  if env.cacheReady = false then (cache, false)
  else
    let base := if repair = false ∧ env.cacheIntact then cache else []
    if manifest = [] then (base, true)
    else
      let cleared := base.filter fun e => e.1 ≠ generation
      if env.published then ((generation, manifest) :: cleared, true) else (cleared, false)

def refreshAsLeader (w : World) (k : Nat) (c : Clone) (previous : Option CacheState)
    (forceRepair : Bool) (env : Env) : World × PullFetchResult :=
  let invalid := previous.any fun st => st.generation > 0 ∧
    validateActiveGeneration w.cache st.generation st.manifest env.activeReadable = false
  let repair := invalid || forceRepair
  let trustworthy := if repair then none else previous.map CacheState.generation
  match env.shadowFetch with
  | some .remoteSlotBusy => (w.setClone k { c with retries := 0 }, .neutralSkip .preserveSchedule)
  | some e =>
    let failed := failureState clock previous e c.interval env
    ((if env.stateWritten then { w with file := .usable failed } else w).setClone k c,
      .remoteError e)
  | none =>
    if env.manifestRead = false then directFallback remote w k c trustworthy env
    else
      let manifest := remote env.snapshot
      let changed := previous.all fun st => st.manifest ≠ manifest
      let publish := changed || repair
      match nextGeneration previous manifest publish with
      | none => directFallback remote w k c trustworthy env
      | some generation =>
        let st := successState clock previous generation manifest publish env
        if publish then
          match publishGeneration w.cache generation manifest repair env with
          | (cache, false) => directFallback remote { w with cache := cache } k c trustworthy env
          | (cache, true) =>
            if generation > 0 ∧ validateActiveGeneration cache generation manifest
                env.publishedReadable = false then
              directFallback remote { w with cache := cache } k c trustworthy env
            else selectGeneration remote { w with cache := cache } k c st trustworthy env
        else selectGeneration remote w k c st trustworthy env

/-- The part of `fetch_for_pull` that finds a fresh state. -/
def reuseState (w : World) (k : Nat) (c : Clone) (st : CacheState) (env : Env) :
    World × PullFetchResult :=
  if c.applied.any fun applied => st.generation < applied then (w.setClone k c, .ready)
  else if c.applied = some st.generation then (w.setClone k c, .ready)
  else if st.generation > 0 ∧
      validateActiveGeneration w.cache st.generation st.manifest env.followerReadable = false then
    refreshAsLeader remote clock w k c (some st) false env
  else if st.manifest = [] then (w.setClone k { c with applied := some st.generation }, .ready)
  else if env.followerImported = false then refreshAsLeader remote clock w k c (some st) true env
  else
    ({ w with
      cache := cleanupInactiveGenerations w.cache st.generation env
      clones := w.clones.set k { c with
        applied := some st.generation
        refs := fetchRefs ((w.cache.lookup st.generation).getD []) c.refs } }, .ready)

def contended (c : Clone) : Clone × NeutralHint :=
  if c.retries < maxContentionShortRetries then
    ({ c with retries := c.retries + 1 }, .retryContention)
  else ({ c with retries := 0 }, .preserveSchedule)

/-- The call gets to read the state file. -/
def reachesState (c : Clone) (env : Env) : Bool :=
  !c.disabled && env.discovered && decide (env.lock = .acquired)

def fetchForPull (w : World) (k : Nat) (c : Clone) (env : Env) : World × PullFetchResult :=
  if c.disabled then directFallback remote w k c none env
  else if env.discovered = false then directFallback remote w k c none env
  else match env.lock with
    | .contended => (w.setClone k (contended c).1, .neutralSkip (contended c).2)
    | .failed => directFallback remote w k c none env
    | .acquired =>
      let c := { c with retries := 0 }
      match w.file with
      | .missing => refreshAsLeader remote clock w k c none false env
      | .unusable => directFallback remote w k c none env
      | .usable st =>
        if failureCooldownActive st (clock env.decision) env.revision then
          (w.setClone k c, .neutralSkip .preserveSchedule)
        else if successIsFresh st (clock env.decision) c.interval then
          reuseState remote clock w k c st env
        else refreshAsLeader remote clock w k c (some st) false env

/-- A clone calls, its sync loop starts anew, the state file is lost or spoilt, or the cache is
damaged. -/
inductive Action where
  | call (k : Nat) (env : Env)
  | restart (k interval : Nat)
  | loseState
  | spoilState
  | damageCache (cache : List (Nat × Manifest))

/-- The instants of a call come one after the other. -/
def Ordered (now : Nat) (env : Env) : Prop :=
  now ≤ env.decision ∧ env.decision ≤ env.snapshot ∧ env.snapshot ≤ env.completed ∧
    env.completed ≤ env.directAt

instance decidableOrdered (now : Nat) (env : Env) : Decidable (Ordered now env) :=
  inferInstanceAs (Decidable (_ ∧ _ ∧ _ ∧ _))

def step (w : World) : Action → Option World
  | .call k env =>
    match w.clones[k]? with
    | none => none
    | some c =>
      if Ordered w.now env then
        some { (fetchForPull remote clock w k c env).1 with now := env.directAt }
      else none
  | .restart k interval =>
    (w.clones[k]?).map fun c => w.setClone k ⟨interval, none, false, 0, c.refs⟩
  | .loseState => some { w with file := .missing }
  | .spoilState => some { w with file := .unusable }
  | .damageCache cache => some { w with cache := cache }

end Model

section Property
variable (remote : Nat → Manifest) (clock : Nat → Nat)

/-- The branches of a clone are at least as new as those the remote had at some instant not longer
than the interval before the call: each is what the remote had at that instant or later. -/
def Recent (interval called now : Nat) (refs : Text → Option Text) : Prop :=
  ∃ t ≤ called, clock called ≤ clock t + interval ∧
    ∀ branch, ((remote t).lookup branch).isSome = true →
      ∃ t', t ≤ t' ∧ t' ≤ now ∧ (refs branch).isSome = true ∧
        refs branch = (remote t').lookup branch

/-- A call that answers ready leaves its clone with recent branches. -/
def ReadyRecent (w : World) : Action → Prop
  | .call k env => ∀ c, w.clones[k]? = some c → Ordered w.now env →
      (fetchForPull remote clock w k c env).2 = .ready →
      ∀ after, (fetchForPull remote clock w k c env).1.clones[k]? = some after →
        Recent remote clock c.interval env.decision env.directAt after.refs
  | .restart _ _ | .loseState | .spoilState | .damageCache _ => True

/-- The branches of the remote only advance: none is deleted, and none returns to a commit it has
left. -/
structure Advances : Prop where
  stays : ∀ t t' branch, t ≤ t' → ((remote t).lookup branch).isSome = true →
    ((remote t').lookup branch).isSome = true
  straight : ∀ t t' t'' branch, t ≤ t' → t' ≤ t'' → ((remote t).lookup branch).isSome = true →
    (remote t).lookup branch = (remote t'').lookup branch →
      (remote t').lookup branch = (remote t).lookup branch

/-- The condition: a call that finds no state file finds no clone that remembers a generation, and
a call that reuses a state does so within its interval after the fetch that the state is from. -/
def Calm (w : World) : Action → Prop
  | .call k env => ∀ c, w.clones[k]? = some c → reachesState c env = true →
      (w.file = .missing → ∀ d ∈ w.clones, d.disabled = false →
        d.applied = none ∨ d.applied = some 0) ∧
      ∀ st, w.file = .usable st → successIsFresh st (clock env.decision) c.interval = true →
        clock env.decision ≤ clock st.last + c.interval
  | .restart _ _ | .loseState | .spoilState | .damageCache _ => True

/-- The first clones of a workspace: nothing is cached, and none has applied anything. -/
def Initial (w : World) : Prop := w.file = .missing ∧ ∀ c ∈ w.clones, c.applied = none

end Property

section Invariant
variable {remote : Nat → Manifest} {clock : Nat → Nat}

/-- A clone that has applied the selected generation has its branches, or newer ones. -/
def Covers (remote : Nat → Manifest) (st : CacheState) (now : Nat) (refs : Text → Option Text) :
    Prop :=
  ∀ branch, (st.manifest.lookup branch).isSome = true →
    ∃ t, st.first ≤ t ∧ t ≤ now ∧ refs branch = (remote t).lookup branch

structure StateInv (remote : Nat → Manifest) (st : CacheState) (now : Nat) : Prop where
  order : st.first ≤ st.last
  past : st.last ≤ now
  known : ∀ branch, (st.manifest.lookup branch).isSome = true →
    (remote st.first).lookup branch = st.manifest.lookup branch ∧
      (remote st.last).lookup branch = st.manifest.lookup branch
  success : st.attempt = .success → remote st.last = st.manifest
  empty : st.generation = 0 → st.manifest = []

structure CloneInv (remote : Nat → Manifest) (st : CacheState) (now : Nat) (c : Clone) : Prop where
  bound : ∀ g, c.applied = some g → g ≤ st.generation
  covers : c.applied = some st.generation → Covers remote st now c.refs

/-- What holds between two actions. -/
def Inv (remote : Nat → Manifest) (w : World) : Prop :=
  ∀ st, w.file = .usable st → StateInv remote st w.now ∧
    ∀ c ∈ w.clones, c.disabled = false → CloneInv remote st w.now c

theorem Covers.mono {st : CacheState} {now later : Nat} {refs : Text → Option Text}
    (h : Covers remote st now refs) (hle : now ≤ later) : Covers remote st later refs := by
  intro branch hbranch
  obtain ⟨t, hfirst, hnow, hrefs⟩ := h branch hbranch
  exact ⟨t, hfirst, Nat.le_trans hnow hle, hrefs⟩

theorem CloneInv.mono {st : CacheState} {now later : Nat} {c : Clone}
    (h : CloneInv remote st now c) (hle : now ≤ later) : CloneInv remote st later c :=
  ⟨h.bound, fun happlied => (h.covers happlied).mono hle⟩

theorem StateInv.mono {st : CacheState} {now later : Nat} (h : StateInv remote st now)
    (hle : now ≤ later) : StateInv remote st later :=
  ⟨h.order, Nat.le_trans h.past hle, h.known, h.success, h.empty⟩

theorem fetchRefs_of_isSome {manifest : Manifest} {refs : Text → Option Text} {branch : Text}
    (h : (manifest.lookup branch).isSome = true) :
    fetchRefs manifest refs branch = manifest.lookup branch := by
  obtain ⟨c, hc⟩ := Option.isSome_iff_exists.mp h
  rw [fetchRefs, hc]
  rfl

/-- A branch that was the same at the first and the last fetch was the same all the time. -/
theorem Covers.at_last {st : CacheState} {now : Nat} {refs : Text → Option Text}
    (hremote : Advances remote) (hst : StateInv remote st now) (h : Covers remote st now refs)
    {branch : Text} (hbranch : (st.manifest.lookup branch).isSome = true) :
    ∃ t, st.last ≤ t ∧ t ≤ now ∧ (refs branch).isSome = true ∧
      refs branch = (remote t).lookup branch := by
  obtain ⟨t, hfirst, hnow, hrefs⟩ := h branch hbranch
  obtain ⟨hatFirst, hatLast⟩ := hst.known branch hbranch
  by_cases hle : st.last ≤ t
  · refine ⟨t, hle, hnow, ?_, hrefs⟩
    rw [hrefs]
    exact hremote.stays st.last t branch hle (by rw [hatLast]; exact hbranch)
  · have hsame := hremote.straight st.first t st.last branch hfirst (Nat.le_of_not_le hle)
      (by rw [hatFirst]; exact hbranch) (by rw [hatFirst, hatLast])
    refine ⟨st.last, Nat.le_refl _, hst.past, ?_, ?_⟩
    · rw [hrefs, hsame, hatFirst]
      exact hbranch
    · rw [hrefs, hsame, hatFirst, hatLast]

end Invariant

section Calls
variable {remote : Nat → Manifest} {clock : Nat → Nat} {w : World} {k : Nat} {c : Clone} {env : Env}

/-- What a call has to leave behind. -/
def Good (remote : Nat → Manifest) (clock : Nat → Nat) (w : World) (k : Nat) (c : Clone) (env : Env)
    (r : World × PullFetchResult) : Prop :=
  ∃ after, r.1.clones = w.clones.set k after ∧ Inv remote { r.1 with now := env.directAt } ∧
    (r.2 = .ready → Recent remote clock c.interval env.decision env.directAt after.refs)

/-- The state selected and the clones, at the end of a call that is made by a clone `c`. -/
structure Selected (remote : Nat → Manifest) (w : World) (c : Clone) (st : CacheState) (later : Nat) :
    Prop where
  state : StateInv remote st later
  clones : ∀ d ∈ w.clones, d.disabled = false → CloneInv remote st later d
  caller : CloneInv remote st later c

theorem inv_set {file : StateFile} {cache : List (Nat × Manifest)} {after : Clone} {now : Nat}
    (h : ∀ st, file = .usable st → StateInv remote st now ∧
      (∀ d ∈ w.clones, d.disabled = false → CloneInv remote st now d) ∧
      (after.disabled = false → CloneInv remote st now after)) :
    Inv remote ⟨now, file, cache, w.clones.set k after⟩ := by
  intro st hfile
  obtain ⟨hstate, hclones, hafter⟩ := h st hfile
  refine ⟨hstate, fun d hd henabled => ?_⟩
  rcases List.mem_or_eq_of_mem_set hd with hd | rfl
  · exact hclones d hd henabled
  · exact hafter henabled

/-- Every branch the remote had when the clone called is among those it has fetched since. -/
theorem recent_fetched {interval : Nat} (hremote : Advances remote) {at_ now : Nat}
    (hcalled : env.decision ≤ at_) (hnow : at_ ≤ now) (refs : Text → Option Text) :
    Recent remote clock interval env.decision now (fetchRefs (remote at_) refs) := by
  refine ⟨env.decision, Nat.le_refl _, Nat.le_add_right _ _, fun branch hbranch => ?_⟩
  have hsome := hremote.stays env.decision at_ branch hcalled hbranch
  refine ⟨at_, hcalled, hnow, ?_, fetchRefs_of_isSome hsome⟩
  rw [fetchRefs_of_isSome hsome]
  exact hsome

/-- A fetch past the cache: the generation it stands for is older than what was fetched. -/
theorem directFallback_good {trustworthy : Option Nat} (hremote : Advances remote)
    (hordered : Ordered w.now env)
    (hselected : ∀ st, w.file = .usable st → StateInv remote st env.directAt ∧
      (∀ d ∈ w.clones, d.disabled = false → CloneInv remote st env.directAt d) ∧
      (c.disabled = false → CloneInv remote st env.directAt c))
    (htrust : ∀ g st, trustworthy = some g → w.file = .usable st → g = st.generation) :
    Good remote clock w k c env (directFallback remote w k c trustworthy env) := by
  obtain ⟨-, hsnapshot, hcompleted, hdirect⟩ := hordered
  have hlate : env.decision ≤ env.directAt :=
    Nat.le_trans hsnapshot (Nat.le_trans hcompleted hdirect)
  have hrecent := @recent_fetched remote clock env c.interval hremote env.directAt env.directAt
    hlate (Nat.le_refl _) c.refs
  have hfetched : ∀ st, StateInv remote st env.directAt →
      Covers remote st env.directAt (fetchRefs (remote env.directAt) c.refs) := by
    intro st hst branch hbranch
    have hfirst : st.first ≤ env.directAt := Nat.le_trans hst.order hst.past
    have hsome := hremote.stays st.first env.directAt branch hfirst
      (by rw [(hst.known branch hbranch).1]; exact hbranch)
    exact ⟨env.directAt, hfirst, Nat.le_refl _, fetchRefs_of_isSome hsome⟩
  rw [directFallback]
  split
  · split
    · rename_i g
      refine ⟨_, rfl, inv_set fun st hfile => ?_, fun _ => hrecent⟩
      obtain ⟨hstate, hclones, -⟩ := hselected st hfile
      refine ⟨hstate, hclones, fun _ => ⟨fun g' hg' => ?_, fun _ => hfetched st hstate⟩⟩
      cases hg'
      exact Nat.le_of_eq (htrust g st rfl hfile)
    · refine ⟨_, rfl, inv_set fun st hfile => ?_, fun _ => hrecent⟩
      obtain ⟨hstate, hclones, -⟩ := hselected st hfile
      exact ⟨hstate, hclones, fun hfalse => (by cases hfalse)⟩
  · refine ⟨_, rfl, inv_set fun st hfile => ?_, fun hready => (by cases hready)⟩
    obtain ⟨hstate, hclones, hcaller⟩ := hselected st hfile
    exact ⟨hstate, hclones, fun henabled => ⟨(hcaller henabled).bound, (hcaller henabled).covers⟩⟩
  · refine ⟨_, rfl, inv_set fun st hfile => ?_, fun hready => (by cases hready)⟩
    obtain ⟨hstate, hclones, hcaller⟩ := hselected st hfile
    exact ⟨hstate, hclones, fun henabled => ⟨(hcaller henabled).bound, (hcaller henabled).covers⟩⟩

/-- A generation that a leader selects. -/
theorem selectGeneration_good {st : CacheState} {trustworthy : Option Nat}
    (hremote : Advances remote) (hordered : Ordered w.now env)
    (hold : ∀ old, w.file = .usable old → StateInv remote old env.directAt ∧
      (∀ d ∈ w.clones, d.disabled = false → CloneInv remote old env.directAt d) ∧
      (c.disabled = false → CloneInv remote old env.directAt c))
    (htrust : ∀ g old, trustworthy = some g → w.file = .usable old → g = old.generation)
    (hnew : Selected remote w c st env.directAt) (hlast : st.last = env.snapshot)
    (hsuccess : st.attempt = .success) :
    Good remote clock w k c env (selectGeneration remote w k c st trustworthy env) := by
  have hchosen : ∀ st', StateFile.usable st = .usable st' →
      StateInv remote st' env.directAt ∧
        (∀ d ∈ w.clones, d.disabled = false → CloneInv remote st' env.directAt d) ∧
        (c.disabled = false → CloneInv remote st' env.directAt c) := by
    intro st' heq
    cases heq
    exact ⟨hnew.state, hnew.clones, fun _ => hnew.caller⟩
  have hmanifest : remote env.snapshot = st.manifest := hlast ▸ hnew.state.success hsuccess
  have hdone : ∀ refs : Text → Option Text, Covers remote st env.directAt refs →
      ∀ cache, Good remote clock w k c env (⟨w.now, .usable st, cache,
        w.clones.set k ⟨c.interval, some st.generation, c.disabled, c.retries, refs⟩⟩, .ready) := by
    intro refs hcovers cache
    refine ⟨_, rfl, inv_set fun st' heq => ?_, fun _ => ?_⟩
    · cases heq
      exact ⟨hnew.state, hnew.clones, fun _ => ⟨fun g hg => by cases hg; exact Nat.le_refl _,
        fun _ => hcovers⟩⟩
    · refine ⟨env.decision, Nat.le_refl _, Nat.le_add_right _ _, fun branch hbranch => ?_⟩
      have hsome := hremote.stays env.decision env.snapshot branch hordered.2.1 hbranch
      rw [hmanifest] at hsome
      obtain ⟨t, ht, hnow, hpresent, hrefs⟩ := hcovers.at_last hremote hnew.state hsome
      rw [hlast] at ht
      exact ⟨t, Nat.le_trans hordered.2.1 ht, hnow, hpresent, hrefs⟩
  rw [selectGeneration]
  split
  · exact directFallback_good hremote hordered hold htrust
  dsimp only
  split
  · split
    · exact directFallback_good hremote hordered hchosen (fun _ _ hnone => (by cases hnone))
    rename_i hvalid
    split
    · exact directFallback_good hremote hordered hchosen (fun _ _ hnone => (by cases hnone))
    · rw [validateActiveGeneration, Bool.not_eq_false, decide_eq_true_eq] at hvalid
      rw [hvalid.2]
      refine hdone _ (fun branch hbranch => ⟨st.last, hnew.state.order, hnew.state.past, ?_⟩) _
      rw [fetchRefs_of_isSome hbranch, (hnew.state.known branch hbranch).2]
  · rename_i hskip
    refine hdone c.refs ?_ _
    by_cases hempty : st.manifest = []
    · intro branch hbranch
      rw [hempty] at hbranch
      cases hbranch
    · exact hnew.caller.covers (by
        by_contra hne
        exact hskip ⟨hempty, hne⟩)

/-- No generation but the empty one is remembered. -/
def Forgotten (d : Clone) : Prop := d.applied = none ∨ d.applied = some 0

/-- What a leader has found: the state, or none and no memory of one. -/
def Leads (remote : Nat → Manifest) (w : World) (c : Clone) : Option CacheState → Prop
  | none => w.file = .missing ∧ (∀ d ∈ w.clones, d.disabled = false → Forgotten d) ∧ Forgotten c
  | some st => w.file = .usable st ∧ CloneInv remote st w.now c

theorem Leads.hold {previous : Option CacheState} {later : Nat} (h : Leads remote w c previous)
    (hinv : Inv remote w) (hlater : w.now ≤ later) :
    ∀ old, w.file = .usable old → StateInv remote old later ∧
      (∀ d ∈ w.clones, d.disabled = false → CloneInv remote old later d) ∧
      (c.disabled = false → CloneInv remote old later c) := by
  intro old hfile
  cases previous with
  | none => exact (by cases h.1.symm.trans hfile)
  | some st =>
    have heq := h.1.symm.trans hfile
    cases heq
    obtain ⟨hstate, hclones⟩ := hinv old hfile
    exact ⟨hstate.mono hlater, fun d hd henabled => (hclones d hd henabled).mono hlater,
      fun _ => h.2.mono hlater⟩

/-- An empty manifest is covered by every clone. -/
theorem cloneInv_empty {st : CacheState} {now : Nat} {d : Clone} (hempty : st.manifest = [])
    (hbound : ∀ g, d.applied = some g → g ≤ st.generation) : CloneInv remote st now d := by
  refine ⟨hbound, fun _ branch hbranch => ?_⟩
  rw [hempty] at hbranch
  cases hbranch

theorem Forgotten.bound {d : Clone} (h : Forgotten d) (n : Nat) :
    ∀ g, d.applied = some g → g ≤ n := by
  intro g hg
  rcases h with hnone | hzero
  · rw [hnone] at hg
    cases hg
  · rw [hzero] at hg
    cases hg
    exact Nat.zero_le n

/-- The clones at the first generation after a loss. -/
theorem Forgotten.cloneInv {st : CacheState} {now : Nat} {d : Clone} (h : Forgotten d)
    (hempty : st.generation = 0 → st.manifest = []) : CloneInv remote st now d := by
  by_cases hzero : st.generation = 0
  · exact cloneInv_empty (hempty hzero) (h.bound _)
  · refine ⟨h.bound _, fun happlied => ?_⟩
    rcases h with hnone | hsome
    · rw [hnone] at happlied
      cases happlied
    · rw [hsome] at happlied
      exact absurd (Option.some.inj happlied).symm hzero

/-- The state of a refresh that succeeds, and the clones under it. -/
theorem selected_success {previous : Option CacheState} {generation : Nat} {publish : Bool}
    (h : Leads remote w c previous) (hinv : Inv remote w) (hordered : Ordered w.now env)
    (hpublish : publish = false → ∃ st, previous = some st ∧ st.manifest = remote env.snapshot)
    (hnext : nextGeneration previous (remote env.snapshot) publish = some generation) :
    Selected remote w c (successState clock previous generation (remote env.snapshot) publish env)
      env.directAt := by
  obtain ⟨hdecision, hsnapshot, hcompleted, hdirect⟩ := hordered
  have hend : env.snapshot ≤ env.directAt := Nat.le_trans hcompleted hdirect
  have hstart : w.now ≤ env.snapshot := Nat.le_trans hdecision hsnapshot
  cases publish with
  | false =>
    obtain ⟨st, rfl, hsame⟩ := hpublish rfl
    obtain ⟨hfile, hcaller⟩ := h
    obtain ⟨hstate, hclones⟩ := hinv st hfile
    have hgeneration : st.generation = generation := Option.some.inj hnext
    have hkeep : ∀ d : Clone, CloneInv remote st w.now d → CloneInv remote
        (successState clock (some st) generation (remote env.snapshot) false env) env.directAt d := by
      intro d hd
      refine ⟨fun g hg => hgeneration ▸ hd.bound g hg, fun happlied branch hbranch => ?_⟩
      change ((remote env.snapshot).lookup branch).isSome = true at hbranch
      rw [← hsame] at hbranch
      have hcovers := hd.covers (hgeneration ▸ happlied)
      exact hcovers.mono (Nat.le_trans hstart hend) branch hbranch
    refine ⟨⟨?_, hend, fun branch hbranch => ⟨?_, rfl⟩, fun _ => rfl, fun hzero => ?_⟩,
      fun d hd henabled => hkeep d (hclones d hd henabled), hkeep c hcaller⟩
    · exact Nat.le_trans hstate.order (Nat.le_trans hstate.past hstart)
    · change ((remote env.snapshot).lookup branch).isSome = true at hbranch
      change (remote st.first).lookup branch = (remote env.snapshot).lookup branch
      rw [← hsame] at hbranch ⊢
      exact (hstate.known branch hbranch).1
    · exact hsame.symm.trans (hstate.empty (hgeneration.trans hzero))
  | true =>
    have hempty : generation = 0 → remote env.snapshot = [] := by
      intro hzero
      cases previous with
      | none =>
        have hone : (if remote env.snapshot = [] then 0 else 1) = generation := Option.some.inj hnext
        by_contra hne
        rw [if_neg hne, hzero] at hone
        cases hone
      | some st =>
        rw [nextGeneration, if_neg (fun hfalse => (by cases hfalse))] at hnext
        split at hnext
        · cases hnext
          cases hzero
        · cases hnext
    have hclone : ∀ d : Clone, (∀ st, previous = some st → CloneInv remote st w.now d) →
        (previous = none → Forgotten d) → CloneInv remote
          (successState clock previous generation (remote env.snapshot) true env) env.directAt d := by
      intro d hsome hnone
      cases previous with
      | none => exact (hnone rfl).cloneInv hempty
      | some st =>
        rw [nextGeneration, if_neg (fun hfalse => (by cases hfalse))] at hnext
        split at hnext
        · cases hnext
          have hd := hsome st rfl
          refine ⟨fun g hg => Nat.le_succ_of_le (hd.bound g hg), fun happlied => ?_⟩
          exact absurd (hd.bound _ happlied) (Nat.not_succ_le_self _)
        · cases hnext
    refine ⟨⟨Nat.le_refl _, hend, fun _ _ => ⟨rfl, rfl⟩, fun _ => rfl, hempty⟩,
      fun d hd henabled => hclone d ?_ ?_, hclone c ?_ ?_⟩
    · rintro old rfl
      exact (hinv old h.1).2 d hd henabled
    · rintro rfl
      exact h.2.1 d hd henabled
    · rintro old rfl
      exact h.2
    · rintro rfl
      exact h.2.2

theorem failureState_good {previous : Option CacheState} {e : GitError}
    (h : Leads remote w c previous) (hinv : Inv remote w) (hordered : Ordered w.now env) :
    Selected remote w c (failureState clock previous e c.interval env) env.directAt := by
  obtain ⟨hdecision, hsnapshot, hcompleted, hdirect⟩ := hordered
  have hend : env.snapshot ≤ env.directAt := Nat.le_trans hcompleted hdirect
  have hlater : w.now ≤ env.directAt := Nat.le_trans (Nat.le_trans hdecision hsnapshot) hend
  have hattempt : attemptOf e ≠ .success := by cases e <;> exact fun hfalse => (by cases hfalse)
  cases previous with
  | none =>
    refine ⟨⟨Nat.le_refl _, hend, fun _ hbranch => (by cases hbranch), fun hs => absurd hs hattempt,
      fun _ => rfl⟩, fun d hd henabled => ?_, ?_⟩
    · exact (h.2.1 d hd henabled).cloneInv fun _ => rfl
    · exact h.2.2.cloneInv fun _ => rfl
  | some st =>
    obtain ⟨hstate, hclones⟩ := hinv st h.1
    have hkeep : ∀ d : Clone, CloneInv remote st w.now d → CloneInv remote
        (failureState clock (some st) e c.interval env) env.directAt d :=
      fun d hd => ⟨(hd.mono hlater).bound, (hd.mono hlater).covers⟩
    exact ⟨⟨hstate.order, Nat.le_trans hstate.past hlater, hstate.known,
      fun hs => absurd hs hattempt, hstate.empty⟩,
      fun d hd henabled => hkeep d (hclones d hd henabled), hkeep c h.2⟩

theorem refreshAsLeader_good {previous : Option CacheState} {forceRepair : Bool}
    (hremote : Advances remote) (hordered : Ordered w.now env) (hinv : Inv remote w)
    (h : Leads remote w c previous) :
    Good remote clock w k c env (refreshAsLeader remote clock w k c previous forceRepair env) := by
  have hlater : w.now ≤ env.directAt :=
    Nat.le_trans hordered.1 (Nat.le_trans hordered.2.1 (Nat.le_trans hordered.2.2.1 hordered.2.2.2))
  have hold := h.hold hinv hlater
  have htrust : ∀ (repair : Bool) g st,
      (if repair then none else previous.map CacheState.generation) = some g →
        w.file = .usable st → g = st.generation := by
    intro repair g st hg hfile
    split at hg
    · cases hg
    · cases previous with
      | none => cases hg
      | some old =>
        have heq := h.1.symm.trans hfile
        cases heq
        exact (Option.some.inj hg).symm
  have hdirect : ∀ (cache : List (Nat × Manifest)) (repair : Bool), Good remote clock w k c env
      (directFallback remote { w with cache := cache } k c
        (if repair then none else previous.map CacheState.generation) env) :=
    fun cache repair => @directFallback_good remote clock { w with cache := cache } k c env _ hremote
      hordered hold (htrust repair)
  rw [refreshAsLeader]
  dsimp only
  generalize hrepair : (previous.any (fun st => st.generation > 0 ∧ validateActiveGeneration w.cache
    st.generation st.manifest env.activeReadable = false) || forceRepair) = repair
  split
  · refine ⟨_, rfl, inv_set fun st hfile => ?_, fun hready => (by cases hready)⟩
    obtain ⟨hstate, hclones, hcaller⟩ := hold st hfile
    exact ⟨hstate, hclones, fun henabled => ⟨(hcaller henabled).bound, (hcaller henabled).covers⟩⟩
  · rename_i e _ _
    have hfailed := @failureState_good remote clock w c env previous e h hinv hordered
    split
    · refine ⟨c, rfl, inv_set fun st hfile => ?_, fun hready => (by cases hready)⟩
      cases hfile
      exact ⟨hfailed.state, hfailed.clones, fun _ => hfailed.caller⟩
    · exact ⟨c, rfl, inv_set hold, fun hready => (by cases hready)⟩
  split
  · exact hdirect w.cache repair
  split
  · exact hdirect w.cache repair
  rename_i generation hnext
  have hpublish : (previous.all (fun st => st.manifest ≠ remote env.snapshot) || repair) = false →
      ∃ st, previous = some st ∧ st.manifest = remote env.snapshot := by
    intro hfalse
    rw [Bool.or_eq_false_iff] at hfalse
    cases previous with
    | none => cases hfalse.1
    | some st => exact ⟨st, rfl, by simpa using hfalse.1⟩
  have hselected := @selected_success remote clock w c env previous generation _ h hinv hordered
    hpublish hnext
  have hselect : ∀ cache : List (Nat × Manifest), Good remote clock w k c env
      (selectGeneration remote { w with cache := cache } k c
        (successState clock previous generation (remote env.snapshot)
          (previous.all (fun st => st.manifest ≠ remote env.snapshot) || repair) env)
        (if repair then none else previous.map CacheState.generation) env) :=
    fun cache => @selectGeneration_good remote clock { w with cache := cache } k c env _ _ hremote
      hordered hold (htrust repair) ⟨hselected.state, hselected.clones, hselected.caller⟩ rfl rfl
  split
  · split
    · exact hdirect _ repair
    · split
      · exact hdirect _ repair
      · exact hselect _
  · exact hselect w.cache

/-- A state that is fresh, and was fetched within the interval. -/
theorem reuseState_good {st : CacheState} (hremote : Advances remote) (hordered : Ordered w.now env)
    (hinv : Inv remote w) (hfile : w.file = .usable st) (hcaller : CloneInv remote st w.now c)
    (hsuccess : st.attempt = .success) (hage : clock env.decision ≤ clock st.last + c.interval) :
    Good remote clock w k c env (reuseState remote clock w k c st env) := by
  obtain ⟨hstate, hclones⟩ := hinv st hfile
  have hlater : w.now ≤ env.directAt :=
    Nat.le_trans hordered.1 (Nat.le_trans hordered.2.1 (Nat.le_trans hordered.2.2.1 hordered.2.2.2))
  have hlead : Leads remote w c (some st) := ⟨hfile, hcaller⟩
  have hready : ∀ (refs : Text → Option Text) (applied : Option Nat)
      (cache : List (Nat × Manifest)), Covers remote st env.directAt refs →
      (∀ g, applied = some g → g ≤ st.generation) → Good remote clock w k c env
        (⟨w.now, w.file, cache,
          w.clones.set k ⟨c.interval, applied, c.disabled, c.retries, refs⟩⟩, .ready) := by
    intro refs applied cache hcovers hbound
    refine ⟨_, rfl, inv_set fun st' hfile' => ?_, fun _ => ⟨st.last, ?_, hage, fun branch hbranch => ?_⟩⟩
    · have heq := hfile.symm.trans hfile'
      cases heq
      exact ⟨hstate.mono hlater, fun d hd henabled => (hclones d hd henabled).mono hlater,
        fun _ => ⟨hbound, fun _ => hcovers⟩⟩
    · exact Nat.le_trans hstate.past hordered.1
    · rw [hstate.success hsuccess] at hbranch
      exact hcovers.at_last hremote (hstate.mono hlater) hbranch
  rw [reuseState]
  split
  · rename_i holder
    -- No clone remembers more than what the file selects.
    cases happlied : c.applied with
    | none => rw [happlied] at holder; cases holder
    | some g =>
      rw [happlied] at holder
      have hle := hcaller.bound g happlied
      have hlt : st.generation < g := of_decide_eq_true holder
      exact absurd hle (Nat.not_le_of_lt hlt)
  split
  · rename_i hequal
    exact hready c.refs c.applied w.cache ((hcaller.covers hequal).mono hlater) hcaller.bound
  split
  · exact refreshAsLeader_good hremote hordered hinv hlead
  rename_i hvalid
  split
  · rename_i hempty
    refine hready c.refs (some st.generation) w.cache (fun branch hbranch => ?_) ?_
    · rw [hempty] at hbranch
      cases hbranch
    · intro g hg
      cases hg
      exact Nat.le_refl _
  rename_i hmanifest
  split
  · exact refreshAsLeader_good hremote hordered hinv hlead
  · have hpositive : st.generation > 0 := by
      by_contra hzero
      exact hmanifest (hstate.empty (Nat.eq_zero_of_not_pos hzero))
    have hcache : (w.cache.lookup st.generation).getD [] = st.manifest := by
      by_contra hne
      refine hvalid ⟨hpositive, ?_⟩
      rw [validateActiveGeneration]
      exact decide_eq_false fun hboth => hne hboth.2
    rw [hcache]
    refine hready _ (some st.generation) _ (fun branch hbranch => ?_) ?_
    · refine ⟨st.last, hstate.order, Nat.le_trans hstate.past hlater, ?_⟩
      rw [fetchRefs_of_isSome hbranch, (hstate.known branch hbranch).2]
    · intro g hg
      cases hg
      exact Nat.le_refl _

theorem fetchForPull_good (hremote : Advances remote) (hordered : Ordered w.now env)
    (hinv : Inv remote w) (hc : w.clones[k]? = some c)
    (hcalm : reachesState c env = true →
      (w.file = .missing → ∀ d ∈ w.clones, d.disabled = false →
        d.applied = none ∨ d.applied = some 0) ∧
      ∀ st, w.file = .usable st → successIsFresh st (clock env.decision) c.interval = true →
        clock env.decision ≤ clock st.last + c.interval) :
    Good remote clock w k c env (fetchForPull remote clock w k c env) := by
  have hmem : c ∈ w.clones := List.mem_of_getElem? hc
  have hlater : w.now ≤ env.directAt :=
    Nat.le_trans hordered.1 (Nat.le_trans hordered.2.1 (Nat.le_trans hordered.2.2.1 hordered.2.2.2))
  -- Nothing but the count of its retries has changed when a clone answers without a fetch.
  have hcounted : ∀ n st, w.file = .usable st → StateInv remote st env.directAt ∧
      (∀ d ∈ w.clones, d.disabled = false → CloneInv remote st env.directAt d) ∧
      (c.disabled = false → CloneInv remote st env.directAt { c with retries := n }) := by
    intro n st hfile
    obtain ⟨hstate, hclones⟩ := hinv st hfile
    refine ⟨hstate.mono hlater, fun d hd henabled => (hclones d hd henabled).mono hlater,
      fun henabled => ?_⟩
    have hcaller := (hclones c hmem henabled).mono hlater
    exact ⟨hcaller.bound, hcaller.covers⟩
  have hdirect : ∀ n, Good remote clock w k c env
      (directFallback remote w k { c with retries := n } none env) :=
    fun n => @directFallback_good remote clock w k { c with retries := n } env none hremote hordered
      (hcounted n) (fun _ _ hnone => (by cases hnone))
  rw [fetchForPull]
  split
  · exact hdirect c.retries
  rename_i henabled
  split
  · exact hdirect c.retries
  rename_i hdiscovered
  split
  · rw [contended]
    split
    · exact ⟨_, rfl, inv_set (hcounted _), fun hready => (by cases hready)⟩
    · exact ⟨_, rfl, inv_set (hcounted _), fun hready => (by cases hready)⟩
  · exact hdirect c.retries
  rename_i hlock
  rw [Bool.not_eq_true] at henabled
  rw [Bool.not_eq_false] at hdiscovered
  have hreaches : reachesState c env = true := by
    rw [reachesState, henabled, hdiscovered, hlock]
    rfl
  obtain ⟨hmissing, hfresh⟩ := hcalm hreaches
  dsimp only
  split
  · rename_i hfile
    have hforgotten := hmissing hfile
    exact @refreshAsLeader_good remote clock w k { c with retries := 0 } env none false hremote
      hordered hinv ⟨hfile, hforgotten, hforgotten c hmem henabled⟩
  · exact hdirect 0
  · rename_i st hfile
    have hcaller := (hinv st hfile).2 c hmem henabled
    split
    · exact ⟨_, rfl, inv_set (hcounted 0), fun hready => (by cases hready)⟩
    split
    · rename_i hsuccess
      have hattempt := (of_decide_eq_true hsuccess).1
      exact @reuseState_good remote clock w k { c with retries := 0 } env st hremote hordered hinv
        hfile ⟨hcaller.bound, hcaller.covers⟩ hattempt (hfresh st hfile hsuccess)
    · exact @refreshAsLeader_good remote clock w k { c with retries := 0 } env (some st) false
        hremote hordered hinv ⟨hfile, hcaller.bound, hcaller.covers⟩

end Calls

section Runs
variable {remote : Nat → Manifest} {clock : Nat → Nat} {w w' : World} {a : Action}

instance decidableCalm (clock : Nat → Nat) (w : World) : ∀ a, Decidable (Calm clock w a)
  | .call k env =>
    match hc : w.clones[k]? with
    | none => isTrue fun c h => (by cases hc.symm.trans h)
    | some c =>
      match hfile : w.file with
      | .missing =>
        decidable_of_iff (reachesState c env = true → ∀ d ∈ w.clones, d.disabled = false →
            d.applied = none ∨ d.applied = some 0)
          ⟨fun h c' hc' hr => by
              cases hc.symm.trans hc'
              exact ⟨fun _ => h hr, fun st hst => (by cases hfile.symm.trans hst)⟩,
            fun h hr => (h c hc hr).1 hfile⟩
      | .unusable =>
        isTrue fun c' hc' hr => ⟨fun hm => (by cases hfile.symm.trans hm),
          fun st hst => (by cases hfile.symm.trans hst)⟩
      | .usable st =>
        decidable_of_iff (reachesState c env = true →
            successIsFresh st (clock env.decision) c.interval = true →
              clock env.decision ≤ clock st.last + c.interval)
          ⟨fun h c' hc' hr => by
              cases hc.symm.trans hc'
              refine ⟨fun hm => (by cases hfile.symm.trans hm), fun st' hst => ?_⟩
              cases hfile.symm.trans hst
              exact h hr,
            fun h hr => (h c hc hr).2 st hfile⟩
  | .restart _ _ | .loseState | .spoilState | .damageCache _ => isTrue trivial

/-- What a calm action keeps. -/
theorem inv_step (hremote : Advances remote) (hinv : Inv remote w) (hcalm : Calm clock w a)
    (h : step remote clock w a = some w') : Inv remote w' := by
  cases a with
  | call k env =>
    rw [step] at h
    split at h
    · cases h
    rename_i c hc
    split at h
    · rename_i hordered
      cases h
      obtain ⟨_, _, hafter, _⟩ := fetchForPull_good hremote hordered hinv hc (hcalm c hc)
      exact hafter
    · cases h
  | restart k interval =>
    obtain ⟨c, hc, rfl⟩ := Option.map_eq_some_iff.mp h
    refine inv_set fun st hfile => ?_
    obtain ⟨hstate, hclones⟩ := hinv st hfile
    exact ⟨hstate, hclones, fun _ => ⟨fun _ hnone => (by cases hnone), fun hnone => (by cases hnone)⟩⟩
  | loseState =>
    cases h
    exact fun _ hfile => (by cases hfile)
  | spoilState =>
    cases h
    exact fun _ hfile => (by cases hfile)
  | damageCache cache =>
    cases h
    exact hinv

theorem readyRecent_of_calm (hremote : Advances remote) (hinv : Inv remote w)
    (hcalm : Calm clock w a) : ReadyRecent remote clock w a := by
  cases a with
  | call k env =>
    intro c hc hordered hready after hafter
    obtain ⟨d, hset, _, hrecent⟩ := fetchForPull_good hremote hordered hinv hc (hcalm c hc)
    rw [hset, List.getElem?_set_self (List.getElem?_eq_some_iff.mp hc).1] at hafter
    cases hafter
    exact hrecent hready
  | restart _ _ => trivial
  | loseState => trivial
  | spoilState => trivial
  | damageCache _ => trivial

/-- In every run of the clones of a workspace that is calm, whoever is told to be ready has
branches at least as new as the remote had within the interval before the call. -/
theorem fetchCache_recent (remote : Nat → Manifest) (clock : Nat → Nat) (hremote : Advances remote)
    (w : World) (hinitial : Initial w) (as : List Action)
    (hcalm : Along (step remote clock) (Calm clock) w as) :
    Along (step remote clock) (ReadyRecent remote clock) w as := by
  have hinv : Inv remote w := fun st hfile => (by cases hinitial.1.symm.trans hfile)
  exact along_mono (fun _ _ _ hinv hcalm h => inv_step hremote hinv hcalm h)
    (fun _ _ hinv hcalm => readyRecent_of_calm hremote hinv hcalm) hinv hcalm

def sampleRemote (t : Nat) : Manifest :=
  if t < 10 then [("main".toList, "c1".toList)] else [("main".toList, "c2".toList)]

def sampleClock (t : Nat) : Nat := 1000 * t

/-- A call at an instant at which every command succeeds. -/
def sampleCall (k t : Nat) : Action :=
  .call k ⟨true, .acquired, t, 0, true, true, none, t, true, true, true, true, t, true, true, true, true, true,
    true, none, t⟩

def sampleWorld : World where
  now := 0
  file := .missing
  cache := []
  clones := [⟨30000, none, false, 0, fun _ => none⟩, ⟨30000, none, false, 0, fun _ => none⟩]

theorem advances_sampleRemote : Advances sampleRemote := by
  have hlookup : ∀ t branch, (sampleRemote t).lookup branch =
      if branch = "main".toList then some (if t < 10 then "c1".toList else "c2".toList) else none := by
    intro t branch
    have hone : ∀ c : Text, List.lookup branch [("main".toList, c)] =
        if branch = "main".toList then some c else none := by
      intro c
      rw [FileTree.lookup_cons_ite]
      rfl
    rw [sampleRemote]
    split
    · exact hone _
    · exact hone _
  refine ⟨fun t t' branch hle hsome => ?_, fun t t' t'' branch hle hle' hsome hsame => ?_⟩
  · rw [hlookup] at hsome ⊢
    split at hsome
    · rename_i hmain
      rw [if_pos hmain]
      rfl
    · cases hsome
  · rw [hlookup] at hsome
    rw [hlookup, hlookup] at hsame
    rw [hlookup, hlookup]
    split at hsome
    · rename_i hmain
      rw [if_pos hmain, if_pos hmain] at hsame
      rw [if_pos hmain, if_pos hmain]
      by_cases hearly : t < 10
      · by_cases hlate : t'' < 10
        · rw [if_pos hearly, if_pos (Nat.lt_of_le_of_lt hle' hlate)]
        · rw [if_pos hearly, if_neg hlate] at hsame
          exact absurd hsame (by decide)
      · rw [if_neg hearly, if_neg (fun h => hearly (Nat.lt_of_le_of_lt hle h))]
    · cases hsome

/-- One clone publishes, the other fetches when the remote has advanced, and the first imports what
the second has published. -/
theorem fetchCache_recent_shared :
    Along (step sampleRemote sampleClock) (Calm sampleClock) sampleWorld
        [sampleCall 0 1, sampleCall 1 40, sampleCall 0 50] ∧
      (run (step sampleRemote sampleClock) sampleWorld
        [sampleCall 0 1, sampleCall 1 40, sampleCall 0 50]).map
          (fun w => w.clones.map fun c => (c.applied, c.refs "main".toList)) =
        some [(some 2, some "c2".toList), (some 2, some "c2".toList)] ∧
      Along (step sampleRemote sampleClock) (ReadyRecent sampleRemote sampleClock) sampleWorld
        [sampleCall 0 1, sampleCall 1 40, sampleCall 0 50] := by
  have hcalm : Along (step sampleRemote sampleClock) (Calm sampleClock) sampleWorld
      [sampleCall 0 1, sampleCall 1 40, sampleCall 0 50] := by decide +kernel
  refine ⟨hcalm, by decide +kernel, ?_⟩
  exact fetchCache_recent sampleRemote sampleClock advances_sampleRemote sampleWorld
    ⟨rfl, by decide +kernel⟩ _ hcalm

/-- The import of the second clone fails, and the repair publishes the same branches once more. -/
example : (run (step sampleRemote sampleClock) sampleWorld [sampleCall 0 1, .call 1
    ⟨true, .acquired, 5, 0, true, false, none, 5, true, true, true, true, 5, true, true, true, true,
      true, true, none, 5⟩]).map
        (fun w => w.clones.map fun c => (c.applied, c.refs "main".toList)) =
    some [(some 1, some "c1".toList), (some 2, some "c1".toList)] := by
  decide +kernel

/-- The state file is lost, the count of the generations begins anew, and the first clone takes the
generation it has applied for the one that another has published since. -/
theorem not_recent_lostState :
    Advances sampleRemote ∧ Monotone sampleClock ∧ Initial sampleWorld ∧
      ¬ Along (step sampleRemote sampleClock) (ReadyRecent sampleRemote sampleClock) sampleWorld
        [sampleCall 0 1, .loseState, sampleCall 1 40, sampleCall 0 50] := by
  refine ⟨advances_sampleRemote, fun t t' hle => Nat.mul_le_mul_left 1000 hle,
    ⟨rfl, by decide +kernel⟩, fun h => ?_⟩
  obtain ⟨t, hcalled, hage, hrefs⟩ :=
    (((h.2 _ rfl).2 _ rfl).2 _ rfl).1 _ rfl (by decide +kernel) (by decide +kernel) _ rfl
  have hlate : ∀ t', 20 ≤ t' → (sampleRemote t').lookup "main".toList = some "c2".toList := by
    intro t' ht'
    rw [sampleRemote, if_neg (by omega)]
    rfl
  have hrecent : 20 ≤ t := by
    change 1000 * 50 ≤ 1000 * t + 30000 at hage
    omega
  obtain ⟨t', hle, -, -, hsame⟩ := hrefs "main".toList (by rw [hlate t hrecent]; rfl)
  rw [hlate t' (Nat.le_trans hrecent hle)] at hsame
  exact absurd hsame (by decide +kernel)

end Runs

end FetchCache
