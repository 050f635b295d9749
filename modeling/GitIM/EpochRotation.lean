import GitIM.CommitChain
import GitIM.FileTree
import GitIM.Runs
import Mathlib.Logic.Function.Basic

/-!
# Epoch rotation

Any number of clients and one remote repository. A branch is named by its epoch
number. A rotation writes the redirect commit that seals the old branch and a root
commit with a snapshot of its tree, and publishes both with one atomic push; the
remote takes fast-forward pushes only. Clients commit messages, push behind the fence,
fire, clean up after a failed fire and follow redirects, each from its own clone.

A daemon has a sync cycle and a rotation task. The task holds the commit lock, which
the handlers and the rewriting steps of the cycle take too; fetch, fence check and push
of the cycle take no lock.
-/

namespace EpochRotation

open CommitChain FileTree Runs

section Chains
variable {Message : Type}

/-- What a commit does to messages and to `gitim.epoch.yaml`. -/
inductive EpochChange (Message : Type) where
  | messages (ms : List Message)
  /-- The root commit of an epoch with the tree of the sealed branch. -/
  | snapshot (epoch : Nat) (ms : List Message)
  /-- The redirect commit. -/
  | redirect (target : Nat)
  deriving DecidableEq

abbrev Chain (Message : Type) := Branch (EpochChange Message)

/-- Branches with their tips, on the remote or as tracking branches. -/
abbrev Refs (Message : Type) := List (Nat × Chain Message)

inductive EpochFile where
  | active (epoch : Nat)
  | redirected (target : Nat)
  deriving DecidableEq

def EpochChange.epochFile? : EpochChange Message → Option EpochFile
  | .messages _ => none
  | .snapshot epoch _ => some (.active epoch)
  | .redirect target => some (.redirected target)

def EpochChange.carried : EpochChange Message → List Message
  | .messages ms | .snapshot _ ms => ms
  | .redirect _ => []

/-- The epoch file in the tree of a chain: the last one written. -/
def epochFile (chain : Chain Message) : Option EpochFile :=
  chain.reverse.findSome? (·.change.epochFile?)

def redirectOf (chain : Chain Message) : Option Nat :=
  match epochFile chain with
  | some (.redirected target) => some target
  | _ => none

/-- The epoch of an active branch; without an epoch file it is the first. -/
def currentEpoch (chain : Chain Message) : Nat :=
  match epochFile chain with
  | some (.active epoch) => epoch
  | _ => 1

/-- The messages in the tree of a chain. -/
def messagesOf (chain : Chain Message) : List Message := chain.flatMap (·.change.carried)

def maxFollowHops : Nat := 32

/-- Walk the redirects until a branch without one; `none` after too many hops. -/
def resolveActiveBranch (refs : Refs Message) : Nat → Nat → Option Nat
  | 0, _ => none
  | hops + 1, branch =>
    match (refs.lookup branch).bind redirectOf with
    | some target => resolveActiveBranch refs hops target
    | none => some branch

end Chains

section Clients
variable {Message : Type}

/-- A clone: the checked-out branch and the tracking branches. -/
structure Client (Message : Type) where
  head : Nat
  branch : Chain Message
  tracking : Refs Message
  /-- `epoch_fence_and_follow` has let the sync cycle push. -/
  fenceOpen : Bool
  /-- The new branch of a fire that has written its two commits and not pushed them yet. -/
  firing : Option (Nat × Chain Message)
  deriving DecidableEq

inductive PushOutcome where
  | ok
  /-- The remote takes the push and the client sees an error. -/
  | lost
  | failed
  deriving DecidableEq

inductive Action (Message : Type) where
  | commit (m : Message)
  | fetch
  | openFence
  | push (outcome : PushOutcome)
  | rebase
  /-- The content-aware resolution of a conflicting rebase. -/
  | resolve
  /-- The divergence safety net. -/
  | reset
  | endCycle
  | fire (fetched : Bool)
  | firePush (outcome : PushOutcome) (cleaned : Bool)
  | cleanup
  | follow (fetched rebased : Bool)
  | contentReplay (fetched committed : Bool)
  deriving DecidableEq

/-- What the rotation task does before its push; the cycle follows too. -/
def Action.rotates : Action Message → Bool
  | .fire _ | .follow _ _ => true
  | _ => false

/-- The tracking branch of the checked-out branch. -/
def upstream (c : Client Message) : Chain Message := (c.tracking.lookup c.head).getD []

def isRedirect : EpochChange Message → Bool
  | .redirect _ => true
  | _ => false

variable [DecidableEq Message]

/-- What the remote checks for one branch. -/
def FastForward (origin : Refs Message) (branch : Nat) (chain : Chain Message) : Prop :=
  ∀ old ∈ origin.lookup branch, old <+: chain

instance (origin : Refs Message) (branch : Nat) (chain : Chain Message) :
    Decidable (FastForward origin branch chain) :=
  inferInstanceAs (Decidable (∀ old ∈ origin.lookup branch, old <+: chain))

def setRef (branch : Nat) (chain : Chain Message) (refs : Refs Message) : Refs Message :=
  upsert (fun _ => chain) branch refs

/-- Reset onto origin only if all local commits are seals. -/
def cleanupFailedFire (c : Client Message) : Client Message :=
  if ∀ x ∈ aheadOf c.branch (upstream c), isRedirect x.change then { c with branch := upstream c }
  else c

/-- Fence check: neither HEAD nor the tracking branch is redirected. -/
def fenceOpens (c : Client Message) : Prop :=
  redirectOf c.branch = none ∧ redirectOf (upstream c) = none

instance (c : Client Message) : Decidable (fenceOpens c) := inferInstanceAs (Decidable (_ ∧ _))

/-- The two commits of a fire, on top of the local branch and as a new root. -/
def writeFire (next : Nat) (c : Client Message) : Client Message :=
  let newBranch := currentEpoch (upstream c) + 1
  { c with
    branch := c.branch ++ [⟨next + 1, .redirect newBranch⟩]
    firing := some (newBranch, [⟨next, .snapshot newBranch (messagesOf c.branch)⟩]) }

/-- The other branch that a follow switches to, with its tip. -/
def followTarget (c : Client Message) : Option (Nat × Chain Message) := do
  let target ← resolveActiveBranch c.tracking maxFollowHops c.head
  if target = c.head then none
  else (c.tracking.lookup target).map (target, ·)

def unpushed (c : Client Message) : Chain Message := aheadOf c.branch (upstream c)

/-- One step of a client: the new remote, the new counter and the new clone. -/
def clientStep (origin : Refs Message) (next : Nat) (c : Client Message) :
    Action Message → Option (Refs Message × Nat × Client Message)
  | .commit m =>
    if c.firing = none then
      some (origin, next + 1, { c with branch := c.branch ++ [⟨next, .messages [m]⟩] })
    else none
  | .fetch => some (origin, next, { c with tracking := origin, fenceOpen := false })
  | .openFence =>
    if fenceOpens c then some (origin, next, { c with fenceOpen := true }) else none
  | .push outcome =>
    if c.fenceOpen then
      match outcome with
      | .ok =>
        if FastForward origin c.head c.branch then
          some (setRef c.head c.branch origin, next,
            { c with tracking := setRef c.head c.branch c.tracking, fenceOpen := false })
        else none
      | .lost =>
        if FastForward origin c.head c.branch then some (setRef c.head c.branch origin, next, c)
        else none
      | .failed => some (origin, next, c)
    else none
  | .rebase =>
    if c.firing = none then
      some (origin, next + (replayed (upstream c) c.branch).length,
        { c with branch := rebaseOnto next (upstream c) c.branch, fenceOpen := false })
    else none
  | .resolve =>
    if c.fenceOpen ∧ c.firing = none then
      some (origin, next + 1,
        { c with branch := upstream c ++ commitAll next [.messages (messagesOf (unpushed c))] })
    else none
  | .reset =>
    if c.firing = none then
      some (origin, next, { c with branch := upstream c, fenceOpen := false })
    else none
  | .endCycle => some (origin, next, { c with fenceOpen := false })
  | .fire fetched =>
    if c.firing = none ∧ unpushed c = [] then
      let d := if fetched then { c with tracking := origin } else c
      some (if redirectOf (upstream d) = none then (origin, next + 2, writeFire next d)
        else (origin, next, d))
    else none
  | .firePush outcome cleaned =>
    match c.firing with
    | some (newBranch, orphan) =>
      let pushBoth := fun refs => setRef newBranch orphan (setRef c.head c.branch refs)
      let failed := if cleaned then cleanupFailedFire { c with firing := none }
        else { c with firing := none }
      let accepted := FastForward origin c.head c.branch ∧ FastForward origin newBranch orphan
      match outcome with
      | .ok =>
        if accepted then
          some (pushBoth origin, next,
            { c with
              head := newBranch
              branch := orphan
              tracking := pushBoth c.tracking
              firing := none })
        else none
      | .lost => if accepted then some (pushBoth origin, next, failed) else none
      | .failed => some (origin, next, failed)
    | none => none
  | .cleanup =>
    if c.fenceOpen = false ∧ c.firing = none then some (origin, next, cleanupFailedFire c)
    else none
  | .follow fetched rebased =>
    if c.firing = none then
      if fetched then
        let d := { c with tracking := origin }
        match followTarget d with
        | some (target, tip) =>
          if rebased then
            some (origin, next + (unpushed d).length,
              { d with head := target, branch := tip ++ commitAll next (changes (unpushed d)) })
          else some (origin, next, d)
        | none => some (origin, next, d)
      else some (origin, next, c)
    else none
  | .contentReplay fetched committed =>
    if c.fenceOpen = false ∧ c.firing = none then
      if fetched then
        let d := { c with tracking := origin }
        match followTarget d with
        | some (target, tip) =>
          some (origin, next + 1,
            { d with
              head := target
              branch := if committed
                then tip ++ commitAll next [.messages (messagesOf (unpushed d))] else tip })
        | none => some (origin, next, d)
      else some (origin, next, c)
    else none

end Clients

section Worlds
variable {Message : Type} [DecidableEq Message]

structure World (Message : Type) where
  origin : Refs Message
  clients : Nat → Client Message
  next : Nat

def step (w : World Message) (a : Nat × Action Message) : Option (World Message) :=
  (clientStep w.origin w.next (w.clients a.1) a.2).map fun (origin, next, c) =>
    ⟨origin, Function.update w.clients a.1 c, next⟩

/-- The rotation task of a client acts only while its sync cycle is not between a fence check that
let it push and the end of its pushes. -/
def Apart (w : World Message) (a : Nat × Action Message) : Prop :=
  a.2.rotates → (w.clients a.1).fenceOpen = false

instance (w : World Message) (a : Nat × Action Message) : Decidable (Apart w a) :=
  inferInstanceAs (Decidable (_ → _))

/-- One branch without an epoch file, and clients that have just cloned it. -/
def started (history : List (List Message)) : World Message :=
  let chain := commitAll 0 (history.map .messages)
  ⟨[(1, chain)], fun _ => ⟨1, chain, [(1, chain)], false, none⟩, history.length⟩

end Worlds

end EpochRotation
