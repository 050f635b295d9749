import GitIM.FileTree
import GitIM.TextScan
import GitIM.Checked
import GitIM.Runs

/-!
# The accounts of the asset store

A workspace counts the bytes and objects that are stored, and the bytes that uploads in
flight have reserved. Every counter changes under the lock of the accounts, one critical
section after the other; a new generation of the store resets them while reservations of
the old one are still held. A reservation belongs to one upload, which claims bytes and
writes them in turn.
-/

namespace AssetAccounting

open TextLines TextScan FileTree Checked Runs

section Accounts

def word : Nat := 18446744073709551616

def checkedAdd (a b : Nat) : Option Nat := if a + b < word then some (a + b) else none

def checkedSub (a b : Nat) : Option Nat := if b ≤ a then some (a - b) else none

inductive AssetError where
  | invalid (message : Text)
  | quotaExceeded (used quota : Nat)
  | staleBinding
  | invariant (message : Text)
  | store
  deriving DecidableEq

structure AssetLimits where
  workspaceQuotaBytes : Nat
  minFreeBytes : Nat
  maxFileBytes : Nat
  maxRequestBytes : Nat
  maxFiles : Nat
  tempTtl : Nat
  uploadSlots : Nat
  peerSlots : Nat
  deriving DecidableEq

structure AssetUsage where
  bytes : Nat
  objects : Nat
  deriving DecidableEq

structure AccountingState where
  activeBinding : Option Text
  generation : Nat
  committed : AssetUsage
  reserved : Nat
  unmaterialized : Nat
  limits : Option AssetLimits
  initialized : Bool
  objects : List (Text × Nat)
  deriving DecidableEq

structure AssetReservation where
  bytes : Nat
  unmaterialized : Nat
  generation : Nat
  released : Bool
  deriving DecidableEq

/-- A handle of the store. -/
structure AssetStore where
  binding : Text
  limits : AssetLimits
  generation : Nat
  deriving DecidableEq

/-- How the work on files goes wrong. -/
inductive FileFault where
  | invalid (message : Text)
  | staleBinding
  | store
  deriving DecidableEq

def FileFault.error : FileFault → AssetError
  | .invalid message => .invalid message
  | .staleBinding => .staleBinding
  | .store => .store

/-- What the file system answers during an operation. -/
structure OpEnv where
  layout : Except FileFault Unit
  manifestMatches : Bool
  space : Except FileFault (Nat × Nat)
  deriving DecidableEq

variable (store : AssetStore) (acc : AccountingState)

def validateAccounting : Except AssetError Unit :=
  refuse (¬(acc.initialized = true ∧ acc.generation = store.generation ∧
    acc.activeBinding = some store.binding)) .staleBinding

def validateCurrent (env : OpEnv) : Except AssetError Unit := do
  validateAccounting store acc
  env.layout.mapError FileFault.error
  refuse (env.manifestMatches = false) .staleBinding

def checkFreeSpace (incoming used available total : Nat) : Except AssetError Unit :=
  refuse ((checkedSub available incoming).all
      (· < max store.limits.minFreeBytes (total / 20)) = true)
    (.quotaExceeded used store.limits.workspaceQuotaBytes)

def orError {α : Type} (x : Option α) (e : AssetError) : Except AssetError α :=
  match x with
  | some a => .ok a
  | none => .error e

def quotaError : AssetError := .quotaExceeded acc.committed.bytes store.limits.workspaceQuotaBytes

/-- `reserve`: the accounts and the new reservation. -/
def reserve (env : OpEnv) (incoming : Nat) :
    Except AssetError (AccountingState × AssetReservation) := do
  validateCurrent store acc env
  let space ← env.space.mapError FileFault.error
  let pending ← orError (checkedAdd acc.reserved incoming) (quotaError store acc)
  let claimed ← orError (checkedAdd acc.unmaterialized incoming)
    (.invariant "asset unmaterialized byte count overflow".toList)
  checkFreeSpace store claimed acc.committed.bytes space.1 space.2
  .ok ({ acc with reserved := pending, unmaterialized := claimed },
    ⟨incoming, incoming, store.generation, false⟩)

def foreign (r : AssetReservation) : Bool := r.generation ≠ store.generation ∨ r.released

/-- The new totals of `extend_reservation`. -/
def extendTotals (env : OpEnv) (r : AssetReservation) (incoming : Nat) :
    Except AssetError (Nat × Nat) := do
  validateCurrent store acc env
  refuse (foreign store r = true) .staleBinding
  let space ← env.space.mapError FileFault.error
  let reserved ← orError (checkedAdd acc.reserved incoming) (quotaError store acc)
  let claimed ← orError (checkedAdd acc.unmaterialized incoming) (quotaError store acc)
  checkFreeSpace store claimed acc.committed.bytes space.1 space.2
  .ok (reserved, claimed)

/-- An operation on a reservation: what it leaves of the accounts and of the reservation, and its
answer. -/
abbrev Result := AccountingState × AssetReservation × Except AssetError Unit

def extendReservation (env : OpEnv) (r : AssetReservation) (incoming : Nat) : Result :=
  match extendTotals store acc env r incoming with
  | .error e => (acc, r, .error e)
  | .ok (reserved, claimed) =>
    match checkedAdd r.bytes incoming with
    | none => (acc, r, .error (.invariant "asset reservation byte count overflow".toList))
    | some bytes =>
      match checkedAdd r.unmaterialized incoming with
      -- the bytes of the reservation have been counted by now
      | none => (acc, { r with bytes := bytes },
          .error (.invariant "asset reservation disk claim overflow".toList))
      | some claim => ({ acc with reserved := reserved, unmaterialized := claimed },
          { r with bytes := bytes, unmaterialized := claim }, .ok ())

def materializeTotals (r : AssetReservation) (written : Nat) : Except AssetError (Nat × Nat) := do
  validateAccounting store acc
  refuse (foreign store r = true) .staleBinding
  let claim ← orError (checkedSub r.unmaterialized written)
    (.invariant "asset reservation disk claim underflow".toList)
  let claimed ← orError (checkedSub acc.unmaterialized written)
    (.invariant "asset unmaterialized byte count underflow".toList)
  .ok (claim, claimed)

def materializeReservation (r : AssetReservation) (written : Nat) : Result :=
  match materializeTotals store acc r written with
  | .error e => (acc, r, .error e)
  | .ok (claim, claimed) =>
    ({ acc with unmaterialized := claimed }, { r with unmaterialized := claim }, .ok ())

/-- The usage with one more object. -/
def addObject (usage : AssetUsage) (size : Nat) (overflow overflowCount : AssetError) :
    Except AssetError AssetUsage := do
  let bytes ← orError (checkedAdd usage.bytes size) overflow
  let objects ← orError (checkedAdd usage.objects 1) overflowCount
  .ok ⟨bytes, objects⟩

/-- The committed usage and objects with an object, unless it is known. -/
def withObject (hash : Text) (size : Nat) :
    Except AssetError (AssetUsage × List (Text × Nat)) :=
  if (acc.objects.lookup hash).isSome then .ok (acc.committed, acc.objects)
  else do
    let usage ← addObject acc.committed size
      (.invariant "asset committed byte count overflow".toList)
      (.invariant "asset committed object count overflow".toList)
    .ok (usage, upsert (fun _ => size) hash acc.objects)

/-- The totals without a reservation. -/
def withoutReservation (r : AssetReservation) (what : Text) : Except AssetError (Nat × Nat) := do
  let reserved ← orError (checkedSub acc.reserved r.bytes)
    (.invariant ("asset reservation ".toList ++ (what ++ " underflow".toList)))
  let claimed ← orError (checkedSub acc.unmaterialized r.unmaterialized)
    (.invariant ("asset reservation ".toList ++ (what ++ " disk claim underflow".toList)))
  .ok (reserved, claimed)

def commitTotals (r : AssetReservation) (hash : Text) (size : Nat) :
    Except AssetError ((Nat × Nat) × AssetUsage × List (Text × Nat)) := do
  let totals ← withoutReservation acc r "commit".toList
  let ledger ← withObject acc hash size
  .ok (totals, ledger)

def commit (r : AssetReservation) (hash : Text) (size : Nat) : Result :=
  if acc.generation ≠ r.generation then (acc, { r with released := true }, .error .staleBinding)
  else match commitTotals acc r hash size with
    | .error e => (acc, r, .error e)
    | .ok (totals, ledger) =>
      ({ acc with
          reserved := totals.1
          unmaterialized := totals.2
          committed := ledger.1
          objects := ledger.2 }, { r with released := true }, .ok ())

def releaseInner (r : AssetReservation) : Result :=
  if r.released then (acc, r, .ok ())
  else if acc.generation ≠ r.generation then (acc, { r with released := true }, .ok ())
  else match withoutReservation acc r "release".toList with
    | .error e => (acc, r, .error e)
    | .ok totals => ({ acc with reserved := totals.1, unmaterialized := totals.2 },
        { r with released := true }, .ok ())

end Accounts

section Ledger

def hexDigit (c : Char) : Bool := ('0' ≤ c ∧ c ≤ '9') ∨ ('a' ≤ c ∧ c ≤ 'f')

def validShard (name : Text) : Bool := name.length = 2 ∧ name.all hexDigit

def validHash (hash : Text) : Bool := hash.length = 64 ∧ hash.all hexDigit

structure FileEntry where
  isFile : Bool
  len : Nat
  deriving DecidableEq

structure Shard where
  name : Text
  isDir : Bool
  entries : List (Text × FileEntry)
  deriving DecidableEq

/-- The directories of objects; a directory lists a name once. -/
structure Listing where
  shards : List Shard
  names : (shards.map Shard.name).Nodup
  files : ∀ shard ∈ shards, (shard.entries.map Prod.fst).Nodup

theorem nothing_listed : ∀ shard ∈ ([] : List Shard), (shard.entries.map Prod.fst).Nodup :=
  fun _ h => absurd h List.not_mem_nil

variable (limits : AssetLimits)

def regularObject (shard : Text) (entry : Text × FileEntry) : Option (Text × Nat) :=
  if validHash entry.1 = true ∧ shard <+: entry.1 ∧ entry.2.isFile = true ∧
      entry.2.len ≤ limits.maxFileBytes then some (entry.1, entry.2.len)
  else none

def shardObjects (shard : Shard) : List (Text × Nat) :=
  if shard.isDir = true ∧ validShard shard.name = true then
    shard.entries.filterMap (regularObject limits shard.name)
  else []

def countObject (ledger : AssetUsage × List (Text × Nat)) (object : Text × Nat) :
    Except AssetError (AssetUsage × List (Text × Nat)) := do
  let usage ← addObject ledger.1 object.2 .store .store
  .ok (usage, upsert (fun _ => object.2) object.1 ledger.2)

def scanRegularObjectLedger (listing : Listing) : Except AssetError (AssetUsage × List (Text × Nat)) :=
  (listing.shards.flatMap (shardObjects limits)).foldlM countObject (⟨0, 0⟩, [])

end Ledger

section System

/-- What the owner of a reservation may do next: claim bytes, write what it has claimed, or only
let go. -/
inductive Hold where
  | settled
  | claimed (bytes : Nat)
  | doomed
  deriving DecidableEq

structure Held where
  reservation : AssetReservation
  hold : Hold
  deriving DecidableEq

structure WorkspaceAssetState where
  accounting : AccountingState
  reservations : List Held
  deriving DecidableEq

def emptyAccounts : AccountingState := ⟨none, 0, ⟨0, 0⟩, 0, 0, none, false, []⟩

def initial : WorkspaceAssetState := ⟨emptyAccounts, []⟩

/-- One critical section. Opening a store that is not current is two of them: its accounts are
reset first, and counted behind a repair of its files. -/
inductive Action where
  | reserve (store : AssetStore) (env : OpEnv) (incoming : Nat)
  | newStager (store : AssetStore) (env : OpEnv)
  | extend (i : Nat) (store : AssetStore) (env : OpEnv) (incoming : Nat)
  | materialize (i : Nat) (store : AssetStore)
  | commit (i : Nat) (hash : Text) (size : Nat)
  | release (i : Nat)
  | drop (i : Nat)
  | registerExistingObject (store : AssetStore) (hash : Text) (size : Nat)
  | reconcileAccounting (store : AssetStore) (listing : Except FileFault Listing)
  | recover (store : AssetStore) (env : OpEnv) (repaired : Except FileFault Listing)
  | openWithState (binding : Text) (limits : AssetLimits) (closed : Except FileFault Unit)
      (env : OpEnv)
  | recoverUnderGate (store : AssetStore) (repaired : Except FileFault Listing)
  | invalidateWorkspaceStore

/-- The accounts with the ledger of the files. -/
def countFiles (store : AssetStore) (listing : Except FileFault Listing) :
    Except AssetError (AssetUsage × List (Text × Nat)) := do
  let files ← listing.mapError FileFault.error
  scanRegularObjectLedger store.limits files

/-- The accounts of a new generation. -/
def nextGeneration (acc : AccountingState) (binding : Option Text) (limits : Option AssetLimits) :
    Except AssetError AccountingState := do
  let generation ← orError (checkedAdd acc.generation 1)
    (.invariant "asset store generation overflow".toList)
  .ok ⟨binding, generation, ⟨0, 0⟩, 0, 0, limits, false, []⟩

/-- The first part of `open_with_state`; a store that is open with this binding stays as it is. -/
def openAccounts (acc : AccountingState) (binding : Text) (limits : AssetLimits)
    (closed : Except FileFault Unit) (env : OpEnv) : Except AssetError AccountingState := do
  refuse (trim binding = []) (.invalid "asset namespace binding is empty".toList)
  closed.mapError FileFault.error
  refuse (acc.initialized = true ∧ acc.limits = none)
    (.invariant "initialized asset store is missing limits".toList)
  refuse (acc.initialized = true ∧ acc.limits ≠ some limits)
    (.invalid "asset store is already open with incompatible limits".toList)
  if acc.initialized = true ∧ acc.activeBinding = some binding then do
    env.layout.mapError FileFault.error
    if env.manifestMatches then .ok acc
    else nextGeneration acc (some binding) (some limits)
  else nextGeneration acc (some binding) (some limits)

variable (s : WorkspaceAssetState)

def withAccounts (acc : AccountingState) : WorkspaceAssetState := { s with accounting := acc }

def withLedger (ledger : AssetUsage × List (Text × Nat)) : AccountingState :=
  { s.accounting with committed := ledger.1, objects := ledger.2 }

/-- The state behind an operation on the reservation `i`. -/
def settle (i : Nat) (result : Result) (hold : Hold) : WorkspaceAssetState :=
  { accounting := result.1
    reservations := s.reservations.set i ⟨result.2.1, hold⟩ }

/-- A step that fails before it writes. -/
def unlessError {α : Type} (x : Except AssetError α) (f : α → WorkspaceAssetState) :
    WorkspaceAssetState × Except AssetError Unit :=
  match x with
  | .ok a => (f a, .ok ())
  | .error e => (s, .error e)

/-- A step on a reservation that its owner still has. -/
def onHeld (i : Nat) (f : Held → Option (WorkspaceAssetState × Except AssetError Unit)) :
    Option (WorkspaceAssetState × Except AssetError Unit) :=
  s.reservations[i]?.bind f

def afterExtend (i : Nat) (store : AssetStore) (env : OpEnv) (incoming : Nat) (h : Held) :
    Option (WorkspaceAssetState × Except AssetError Unit) :=
  let result := extendReservation store s.accounting env h.reservation incoming
  if h.hold = .doomed then none
  else some (settle s i result (if result.2.2 = .ok () then .claimed incoming else h.hold), result.2.2)

def afterMaterialize (i : Nat) (store : AssetStore) (h : Held) :
    Option (WorkspaceAssetState × Except AssetError Unit) :=
  match h.hold with
  | .claimed written =>
    let result := materializeReservation store s.accounting h.reservation written
    some (settle s i result (if result.2.2 = .ok () then .settled else .claimed written), result.2.2)
  | _ => none

/-- `commit` and `release` consume the reservation: what is left of it is dropped. -/
def afterLast (i : Nat) (op : AssetReservation → Result) (h : Held) :
    Option (WorkspaceAssetState × Except AssetError Unit) :=
  if h.hold = .doomed then none
  else some (settle s i (op h.reservation) .doomed, (op h.reservation).2.2)

def afterDrop (i : Nat) (h : Held) : Option (WorkspaceAssetState × Except AssetError Unit) :=
  let result := releaseInner s.accounting h.reservation
  some ({ settle s i result .doomed with reservations := s.reservations.eraseIdx i }, result.2.2)

def addHeld (acc : AccountingState) (r : AssetReservation) (hold : Hold) : WorkspaceAssetState :=
  { s with accounting := acc, reservations := s.reservations ++ [⟨r, hold⟩] }

/-- The state behind a critical section, and its answer; `none` if no owner does this. -/
def act : Action → Option (WorkspaceAssetState × Except AssetError Unit)
  | .reserve store env incoming =>
    some (unlessError s (reserve store s.accounting env incoming) fun result =>
      addHeld s result.1 result.2 (.claimed incoming))
  | .newStager store env =>
    some (unlessError s (validateCurrent store s.accounting env) fun _ =>
      addHeld s s.accounting ⟨0, 0, store.generation, false⟩ .settled)
  | .extend i store env incoming => onHeld s i (afterExtend s i store env incoming)
  | .materialize i store => onHeld s i (afterMaterialize s i store)
  | .commit i hash size => onHeld s i (afterLast s i fun r => commit s.accounting r hash size)
  | .release i => onHeld s i (afterLast s i (releaseInner s.accounting))
  | .drop i => onHeld s i (afterDrop s i)
  | .registerExistingObject store hash size =>
    some (unlessError s (do
      validateAccounting store s.accounting
      withObject s.accounting hash size) fun ledger => withAccounts s (withLedger s ledger))
  | .reconcileAccounting store listing =>
    some (unlessError s (do
      let ledger ← countFiles store listing
      validateAccounting store s.accounting
      .ok ledger) fun ledger => withAccounts s (withLedger s ledger))
  | .recover store env repaired =>
    some (unlessError s (do
      validateCurrent store s.accounting env
      countFiles store repaired) fun ledger =>
        withAccounts s { withLedger s ledger with initialized := true })
  | .openWithState binding limits closed env =>
    some (unlessError s (openAccounts s.accounting binding limits closed env) (withAccounts s))
  | .recoverUnderGate store repaired =>
    some (unlessError s (do
      let ledger ← countFiles store repaired
      refuse (s.accounting.generation ≠ store.generation) .staleBinding
      .ok ledger) fun ledger => withAccounts s { withLedger s ledger with initialized := true })
  | .invalidateWorkspaceStore =>
    some (unlessError s (nextGeneration s.accounting none s.accounting.limits) (withAccounts s))

def step (a : Action) : Option WorkspaceAssetState := (act s a).map Prod.fst

end System

end AssetAccounting
