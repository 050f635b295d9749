import GitIM.AssetAccounts
import Mathlib.Logic.Function.Basic

/-!
# The life of an asset workspace

A token is registered with the slot of a workspace root, activates it, and is revoked when
it is deactivated. Token entries own their slot; the path index only knows it, so a slot
that no token and no call holds is gone. The calls run side by side: a step is one critical
section of the registry, of a slot or of the store, or one look at the flag of a token.
-/

namespace AssetLifecycle

open TextLines Checked Runs AssetAccounting

section Data

structure Handle where
  root : Text
  store : AssetStore
  deriving DecidableEq

/-- The state of the store of a root. Its leases are the tickets that hold one. -/
structure StoreState where
  accounting : AccountingState
  closing : Bool
  deriving DecidableEq

structure RegisteredWorkspace where
  requestedRoot : Text
  binding : Text
  token : Nat
  handle : Handle
  deriving DecidableEq

/-- `locked`: an activation is opening the store under the lock of the slot. -/
structure WorkspaceLifecycleSlot where
  canonicalRoot : Text
  active : Option RegisteredWorkspace
  deactivating : Bool
  locked : Bool
  deriving DecidableEq

inductive TicketKind where
  | store
  | hashLock
  | stager (validated : Bool)
  | staged
  deriving DecidableEq

/-- What has been obtained under a token and is still in hand. -/
structure Ticket where
  token : Nat
  handle : Handle
  kind : TicketKind
  deriving DecidableEq

def TicketKind.leases : TicketKind → Bool
  | .stager _ | .staged => true
  | _ => false

inductive Reply where
  | store (handle : Handle)
  | deactivated (done : Bool)
  deriving DecidableEq

abbrev Answer := Except AssetError Reply

/-- What a call answers that has to clean up first: an error, or whether it deactivated. -/
abbrev Verdict := Except AssetError Bool

inductive Request where
  | activateWorkspace (token : Nat) (root binding : Text)
  | openRegisteredStore (token : Nat) (root binding : Text)
  | deactivateWorkspace (token : Nat)
  | tryDeactivateWorkspace (token : Nat)
  deriving DecidableEq

def Request.token : Request → Nat
  | .activateWorkspace t _ _ | .openRegisteredStore t _ _ | .deactivateWorkspace t
  | .tryDeactivateWorkspace t => t

def Request.deactivates : Request → Bool
  | .deactivateWorkspace _ | .tryDeactivateWorkspace _ => true
  | _ => false

/-- Where a call stands; what it does next. -/
inductive Phase where
  | start
  | looking
  | waiting (slot : Nat)
  | opened (slot : Nat) (handle : Handle)
  | found (slot : Nat) (handle : Handle)
  | unregistered
  | refused (slot : Nat)
  | claimed (slot : Nat)
  | closed (slot : Nat)
  | idle (slot : Nat)
  | revoked (slot : Nat)
  | invalidated (slot : Nat) (verdict : Verdict)
  | taken (slot : Nat) (verdict : Verdict)
  | reopened (slot : Nat) (verdict : Verdict)
  | unclaiming (slot : Nat) (verdict : Verdict)
  | releasing (slot : Nat) (verdict : Verdict)
  | dropping (slot : Nat) (verdict : Verdict)
  | sweeping (slot : Nat) (verdict : Verdict)
  | done (answer : Answer)
  deriving DecidableEq

/-- The slot that a call owns a share of. -/
def Phase.slot : Phase → Option Nat
  | .waiting s | .opened s _ | .found s _ | .refused s | .claimed s | .closed s | .idle s
  | .revoked s | .invalidated s _ | .taken s _ | .reopened s _ | .unclaiming s _ | .releasing s _
  | .dropping s _ => some s
  | _ => none

def Phase.isDone : Phase → Bool
  | .done _ => true
  | _ => false

/-- `since`: the workspace was active for this request when the call began, and no deactivation of
its token has begun up to now or up to the answer. -/
structure Call where
  request : Request
  phase : Phase
  since : Bool
  deriving DecidableEq

/-- The registry, the flags of the tokens and the stores. `opened` and `gone` record what has been
answered: the activations that have succeeded with no deactivation of the token begun, and the
tokens that have been deactivated. -/
structure Shared where
  tokens : List (Nat × Nat)
  paths : Text → Option Nat
  slots : Nat → WorkspaceLifecycleSlot
  next : Nat
  revoked : Nat → Bool
  states : Text → StoreState
  tickets : List Ticket
  opened : List (Nat × Text × Text)
  gone : List Nat

structure Service where
  shared : Shared
  calls : List Call

end Data

section Stores
variable (limits : AssetLimits) (sh : Shared)

/-- What the file system answers while a store is opened. -/
structure OpenEnv where
  found : OpEnv
  prepared : Except FileFault Unit
  repaired : Except FileFault Listing
  after : OpEnv

def inflight (root : Text) : Bool :=
  sh.tickets.any fun k => k.handle.root = root ∧ k.kind.leases = true

def setState (root : Text) (state : StoreState) : Shared :=
  { sh with states := Function.update sh.states root state }

/-- The accounts once the files of the store have been repaired and counted. -/
def recoverAccounts (acc : AccountingState) (store : AssetStore) (env : OpenEnv) :
    Except AssetError AccountingState :=
  if acc.initialized then .ok acc
  else do
    env.prepared.mapError FileFault.error
    let ledger ← countFiles store env.repaired
    .ok { acc with committed := ledger.1, objects := ledger.2, initialized := true }

/-- `open_store`: the accounts of the store as they are left, and the handle. -/
def openStore (acc : AccountingState) (root binding : Text) (leased : Bool) (env : OpenEnv) :
    AccountingState × Except AssetError Handle :=
  match openAccounts acc binding limits (if leased then .error .staleBinding else .ok ()) env.found with
  | .error e => (acc, .error e)
  | .ok next =>
    match recoverAccounts next ⟨binding, limits, next.generation⟩ env with
    | .error e => (next, .error e)
    | .ok ready =>
      match validateCurrent ⟨binding, limits, next.generation⟩ ready env.after with
      | .error e => (ready, .error e)
      | .ok _ => (ready, .ok ⟨root, ⟨binding, limits, next.generation⟩⟩)

/-- `invalidate_workspace_store`; a generation that cannot be counted up stays. -/
def invalidateWorkspaceStore (root : Text) : Shared × Except AssetError Unit :=
  match nextGeneration (sh.states root).accounting none (sh.states root).accounting.limits with
  | .ok acc => (setState sh root { sh.states root with accounting := acc }, .ok ())
  | .error e => (sh, .error e)

def validateHandle (handle : Handle) : Except AssetError Unit :=
  validateAccounting handle.store (sh.states handle.root).accounting

def setClosing (root : Text) (closing : Bool) : Shared :=
  setState sh root { sh.states root with closing := closing }

end Stores

section Calls
variable (limits : AssetLimits) (sh : Shared)

def setSlot (slot : Nat) (value : WorkspaceLifecycleSlot) : Shared :=
  { sh with slots := Function.update sh.slots slot value }

def revoke (token : Nat) : Shared := { sh with revoked := Function.update sh.revoked token true }

def register (token slot : Nat) : Shared := { sh with tokens := (token, slot) :: sh.tokens }

def addTicket (ticket : Ticket) : Shared := { sh with tickets := sh.tickets ++ [ticket] }

/-- A slot that a token or a call owns. -/
def live (held : Nat → Bool) (slot : Nat) : Bool :=
  sh.tokens.any (fun e => e.2 = slot) || held slot

def freshSlot (root : Text) : WorkspaceLifecycleSlot := ⟨root, none, false, false⟩

/-- `lifecycle_slot_for_activation`. -/
def lifecycleSlotForActivation (held : Nat → Bool) (root : Text) (token : Nat) : Shared × Nat :=
  match sh.tokens.lookup token with
  | some slot => (sh, slot)
  | none =>
    match (sh.paths root).filter (live sh held) with
    | some slot => (register sh token slot, slot)
    | none => (register { setSlot sh sh.next (freshSlot root) with
        paths := Function.update sh.paths root (some sh.next)
        next := sh.next + 1 } token sh.next, sh.next)

/-- A call that owns a slot may enter its critical section. -/
def free (slot : Nat) : Bool := (sh.slots slot).locked = false

/-- An activation that has succeeded: its answer is recorded. -/
def activated (token : Nat) (root binding : Text) (handle : Handle) (deactivated : Bool) : Shared :=
  { addTicket sh ⟨token, handle, .store⟩ with
    opened := if deactivated then sh.opened else (token, root, binding) :: sh.opened }

def alreadyBound : AssetError :=
  .invariant "asset workspace token is already bound to another namespace".toList

def alreadyActive : AssetError :=
  .invariant "asset workspace path is already active under another token".toList

def RegisteredWorkspace.serves (r : RegisteredWorkspace) (token : Nat) (root binding : Text) : Bool :=
  r.token = token ∧ r.requestedRoot = root ∧ r.binding = binding

/-- The critical section of an activation; if it opens the store it keeps the lock of the slot. -/
def activateLocked (token : Nat) (root binding : Text) (slot : Nat) (deactivated : Bool)
    (env : OpenEnv) : Shared × Phase :=
  let state := sh.slots slot
  if state.canonicalRoot ≠ root then (sh, .dropping slot (.error alreadyBound))
  else match state.active with
    | some r =>
      if r.serves token root binding then
        (activated sh token root binding r.handle deactivated, .done (.ok (.store r.handle)))
      else if r.token ≠ token then (sh, .releasing slot (.error alreadyActive))
      else (sh, .done (.error alreadyActive))
    | none =>
      if sh.revoked token then (sh, .releasing slot (.error .staleBinding))
      else
        let acc := (sh.states root).accounting
        let leased := (sh.states root).closing || inflight sh root
        let opened := setState sh root
          { sh.states root with accounting := (openStore limits acc root binding leased env).1 }
        match (openStore limits acc root binding leased env).2 with
        | .error e => (opened, .releasing slot (.error e))
        | .ok handle => (setSlot opened slot { state with locked := true }, .opened slot handle)

/-- The store is open: the token may have been revoked in the meantime. -/
def activateOpened (token : Nat) (root binding : Text) (slot : Nat) (handle : Handle)
    (deactivated : Bool) : Shared × Phase :=
  let state := sh.slots slot
  if sh.revoked token then
    (setSlot (invalidateWorkspaceStore sh root).1 slot { state with locked := false },
      .releasing slot (.error (match (invalidateWorkspaceStore sh root).2 with
        | .error e => e
        | .ok _ => .staleBinding)))
  else
    (activated (setSlot sh slot { state with
        active := some ⟨root, binding, token, handle⟩
        locked := false }) token root binding handle deactivated, .done (.ok (.store handle)))

/-- The critical sections of an activation. -/
def activateStep (held : Nat → Bool) (deactivated : Bool) (token : Nat) (root binding : Text)
    (env : OpenEnv) : Phase → Option (Shared × Phase)
  | .start => some (if sh.revoked token then (sh, .done (.error .staleBinding)) else (sh, .looking))
  | .looking =>
    let found := lifecycleSlotForActivation sh held root token
    some (found.1, .waiting found.2)
  | .waiting slot =>
    if free sh slot = true ∧ (sh.slots slot).deactivating = false then
      some (activateLocked limits sh token root binding slot deactivated env)
    else none
  | .opened slot handle => some (activateOpened sh token root binding slot handle deactivated)
  | _ => none

/-- The critical sections of `open_registered_store`. -/
def openStep (token : Nat) (root binding : Text) : Phase → Option (Shared × Phase)
  | .start => some (if sh.revoked token then (sh, .done (.error .staleBinding)) else (sh, .looking))
  | .looking =>
    match sh.tokens.lookup token with
    | none => some (sh, .done (.error .staleBinding))
    | some slot => some (sh, .waiting slot)
  | .waiting slot =>
    if free sh slot = true ∧ (sh.slots slot).deactivating = false then
      match (sh.slots slot).active.filter fun r => r.serves token root binding with
      | none => some (sh, .dropping slot (.error .staleBinding))
      | some r => some (sh, .found slot r.handle)
    else none
  | .found slot handle =>
    if sh.revoked token then some (sh, .dropping slot (.error .staleBinding))
    else match validateHandle sh handle with
      | .error e => some (sh, .dropping slot (.error e))
      | .ok _ => some (addTicket sh ⟨token, handle, .store⟩, .done (.ok (.store handle)))
  | _ => none

/-- What becomes of the persistence of a store that is deactivated: waiting, or only trying. -/
def closeStep (waits : Bool) (slot : Nat) : Option (Shared × Phase) :=
  let root := (sh.slots slot).canonicalRoot
  if waits then
    if (sh.states root).closing then none
    else some (setClosing sh root true, .closed slot)
  else if (sh.states root).closing = true ∨ inflight sh root = true then
    some (sh, .unclaiming slot (.error .staleBinding))
  else some (setClosing sh root true, .idle slot)

/-- The critical sections of a deactivation. -/
def deactivateStep (waits : Bool) (token : Nat) : Phase → Option (Shared × Phase)
  | .start => some (sh, .looking)
  | .looking =>
    match sh.tokens.lookup token with
    | none => some (sh, .unregistered)
    | some slot => some (sh, .waiting slot)
  | .unregistered => some (revoke sh token, .done (.ok (.deactivated false)))
  | .waiting slot =>
    let state := sh.slots slot
    if free sh slot = false then none
    else if state.deactivating then
      some (sh, .done (if waits then .ok (.deactivated false) else .error .staleBinding))
    else match state.active.filter fun r => r.token = token with
      | none => some (sh, .refused slot)
      | some _ => some (setSlot sh slot { state with deactivating := true }, .claimed slot)
  | .refused slot => some (revoke sh token, .releasing slot (.ok false))
  | .claimed slot => closeStep sh waits slot
  | .closed slot =>
    if inflight sh (sh.slots slot).canonicalRoot then none else some (sh, .idle slot)
  | .idle slot => some (revoke sh token, .revoked slot)
  | .revoked slot =>
    let invalidation := invalidateWorkspaceStore sh (sh.slots slot).canonicalRoot
    some (invalidation.1, .invalidated slot (invalidation.2.map fun _ => true))
  | .invalidated slot verdict =>
    let state := sh.slots slot
    if free sh slot then
      some (setSlot sh slot { state with active := state.active.filter fun r => r.token ≠ token },
        .taken slot verdict)
    else none
  | .taken slot verdict =>
    some (setClosing sh (sh.slots slot).canonicalRoot false, .reopened slot verdict)
  | .reopened slot verdict =>
    if free sh slot then
      some (setSlot sh slot { sh.slots slot with deactivating := false }, .releasing slot verdict)
    else none
  | .unclaiming slot verdict =>
    if free sh slot then
      some (setSlot sh slot { sh.slots slot with deactivating := false }, .done (verdict.map .deactivated))
    else none
  | _ => none

/-- `release_lifecycle_slot_after_transition` and `prune_lifecycle_slot_after_transition`: the
entry of the token, the share of the call, the entry of the path. -/
def cleanupStep (held : Nat → Bool) (token : Nat) : Phase → Option (Shared × Phase)
  | .releasing slot verdict =>
    some (if sh.tokens.lookup token = some slot then
      { sh with tokens := sh.tokens.filter fun e => e.1 ≠ token } else sh, .dropping slot verdict)
  | .dropping slot verdict => some (sh, .sweeping slot verdict)
  | .sweeping slot verdict =>
    let root := (sh.slots slot).canonicalRoot
    let swept := if sh.paths root = some slot ∧ live sh held slot = false then
      { sh with paths := Function.update sh.paths root none } else sh
    some ({ swept with
      gone := if verdict = .ok true then token :: sh.gone else sh.gone },
        .done (verdict.map .deactivated))
  | _ => none

def callStep (held : Nat → Bool) (deactivated : Bool) (env : OpenEnv) (request : Request)
    (phase : Phase) : Option (Shared × Phase) :=
  match cleanupStep sh held request.token phase with
  | some result => some result
  | none =>
    match request with
    | .activateWorkspace token root binding =>
      activateStep limits sh held deactivated token root binding env phase
    | .openRegisteredStore token root binding => openStep sh token root binding phase
    | .deactivateWorkspace token => deactivateStep sh true token phase
    | .tryDeactivateWorkspace token => deactivateStep sh false token phase

end Calls

section Tickets
variable (sh : Shared)

/-- What is done with something obtained under a token: an operation of a store handle, a staged
asset or a hash lock that begins with its check; taking a hash lock; the check of an upload that
has its lease; the end of an upload, which checks nothing. -/
inductive Operation where
  | operate (outcome : Except FileFault Unit)
  | lockHash (outcome : Except FileFault Unit)
  | openStaging (outcome : Except FileFault Unit)
  | finishStaging (outcome : Except FileFault Unit)

def checked (handle : Handle) (outcome : Except FileFault Unit) : Except AssetError Unit := do
  validateHandle sh handle
  outcome.mapError FileFault.error

def setTicket (k : Nat) (ticket : Ticket) : Shared :=
  { sh with tickets := sh.tickets.set k ticket }

def dropTicket (k : Nat) : Shared := { sh with tickets := sh.tickets.eraseIdx k }

def operateStep (k : Nat) (ticket : Ticket) : Operation → Option (Shared × Except AssetError Unit)
  | .operate outcome => some (sh, checked sh ticket.handle outcome)
  | .lockHash outcome =>
    if ticket.kind = .store then
      match checked sh ticket.handle outcome with
      | .error e => some (sh, .error e)
      | .ok _ => some (addTicket sh { ticket with kind := .hashLock }, .ok ())
    else none
  | .openStaging outcome =>
    if ticket.kind = .stager false then
      match checked sh ticket.handle outcome with
      | .error e => some (dropTicket sh k, .error e)
      | .ok _ => some (setTicket sh k { ticket with kind := .stager true }, .ok ())
    else none
  | .finishStaging outcome =>
    if ticket.kind = .stager true then
      match outcome with
      | .error e => some (dropTicket sh k, .error e.error)
      | .ok _ => some (setTicket sh k { ticket with kind := .staged }, .ok ())
    else none

/-- An upload takes a lease; nothing begins while the store is being closed. -/
def beginStaging (ticket : Ticket) : Option (Shared × Except AssetError Unit) :=
  if ticket.kind = .store then
    some (if (sh.states ticket.handle.root).closing then (sh, .error .staleBinding)
      else (addTicket sh { ticket with kind := .stager false }, .ok ()))
  else none

end Tickets

section System
variable (limits : AssetLimits)

inductive Action where
  | begin (request : Request)
  | advance (call : Nat) (env : OpenEnv)
  | cancel (call : Nat)
  | operate (ticket : Nat) (operation : Operation)
  | beginStaging (ticket : Nat)
  | dropTicket (ticket : Nat)

variable (s : Service)

def held (slot : Nat) : Bool := s.calls.any fun c => c.phase.slot = some slot

/-- A deactivation of the token is under way. -/
def deactivating (token : Nat) : Bool :=
  s.calls.any fun c => c.request.token = token ∧ c.request.deactivates = true ∧ c.phase.isDone = false

/-- A deactivation begins: what has been answered so far is no longer owed. -/
def Call.withdraw (token : Nat) (c : Call) : Call :=
  if c.request.token = token ∧ c.phase.isDone = false then { c with since := false } else c

def beginCall (request : Request) : Service :=
  if request.deactivates then
    { shared := { s.shared with opened := s.shared.opened.filter fun o => o.1 ≠ request.token }
      calls := s.calls.map (Call.withdraw request.token) ++ [⟨request, .start, false⟩] }
  else
    { s with calls := s.calls ++ [⟨request, .start, match request with
        | .openRegisteredStore token root binding => (token, root, binding) ∈ s.shared.opened
        | _ => false⟩] }

def withCall (i : Nat) (c : Call) (result : Shared × Phase) : Service :=
  { shared := result.1, calls := s.calls.set i { c with phase := result.2 } }

/-- A caller gives up on a deactivation that waits. -/
def cancelStep (sh : Shared) (request : Request) (phase : Phase) : Option (Shared × Phase) :=
  match request, phase with
  | .deactivateWorkspace _, .claimed slot => some (sh, .unclaiming slot (.error .store))
  | .deactivateWorkspace _, .closed slot =>
    some (setClosing sh (sh.slots slot).canonicalRoot false, .unclaiming slot (.error .store))
  | _, _ => none

def withShared (result : Shared × Except AssetError Unit) : Service × Except AssetError Unit :=
  ({ s with shared := result.1 }, result.2)

/-- The service behind an action, and the answer of an operation. -/
def act : Action → Option (Service × Except AssetError Unit)
  | .begin request => some (beginCall s request, .ok ())
  | .advance i env => s.calls[i]?.bind fun c =>
      (callStep limits s.shared (held s) (deactivating s c.request.token) env c.request c.phase).map
        fun result => (withCall s i c result, .ok ())
  | .cancel i => s.calls[i]?.bind fun c =>
      (cancelStep s.shared c.request c.phase).map fun result => (withCall s i c result, .ok ())
  | .operate k operation => s.shared.tickets[k]?.bind fun ticket =>
      (operateStep s.shared k ticket operation).map (withShared s)
  | .beginStaging k => s.shared.tickets[k]?.bind fun ticket =>
      (beginStaging s.shared ticket).map (withShared s)
  | .dropTicket k => some ({ s with shared := dropTicket s.shared k }, .ok ())

def step (a : Action) : Option Service := (act limits s a).map Prod.fst

def initialShared : Shared :=
  { tokens := []
    paths := fun _ => none
    slots := fun _ => freshSlot []
    next := 0
    revoked := fun _ => false
    states := fun _ => ⟨emptyAccounts, false⟩
    tickets := []
    opened := []
    gone := [] }

def initialService : Service := ⟨initialShared, []⟩

end System

end AssetLifecycle
