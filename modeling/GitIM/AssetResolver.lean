import GitIM.TextScan
import Mathlib.Data.Char
import Mathlib.Data.List.Lex
import Mathlib.Data.List.Sort
import Mathlib.Data.Prod.Lex

/-!
# Resolving an asset over the fleet

`resolve_get` looks for an object in the local store and then asks the peers of the workspace:
first those that are the origin, one after the other, then the rest in windows that are probed
before they are asked. Probes may answer in any order. The lock of the object is handed over to
the store with the first body that is the right one, and the search ends there.
-/

namespace AssetResolver

open TextLines TextScan

section Peers

abbrev Bytes := List UInt8

/-- The base address of a peer and its name for the workspace. -/
abbrev Endpoint := Text × Text

structure AssetPeer where
  nodeId : Text
  runtimeId : Option Text
  baseUrl : Text
  remoteWorkspaceSlug : Text
  deriving DecidableEq

def peerKey (peer : AssetPeer) : Endpoint := (peer.baseUrl, peer.remoteWorkspaceSlug)

def isExact (origin : Text) (peer : AssetPeer) : Bool := peer.runtimeId = some origin

def orderKey (origin : Text) (peer : AssetPeer) : Bool ×ₗ Text ×ₗ Text ×ₗ Text :=
  toLex (!isExact origin peer, toLex (peer.nodeId, toLex (peer.remoteWorkspaceSlug, peer.baseUrl)))

/-- The peers whose endpoint is inserted into a set of endpoints, when they are taken in order. -/
def retainNew (seen : List Endpoint) : List AssetPeer → List AssetPeer
  | [] => []
  | peer :: rest =>
    if peerKey peer ∈ seen then retainNew seen rest
    else peer :: retainNew (peerKey peer :: seen) rest

def orderPeers (origin : Text) (peers : List AssetPeer) : List AssetPeer :=
  retainNew [] (peers.insertionSort fun a b => orderKey origin a ≤ orderKey origin b)

end Peers

section Errors

/-- Errors of a resolution. The last one stands for all that the store can fail with. -/
inductive AssetError where
  | missing
  | originUnavailable
  | hashMismatch
  | peerInvalid (message : Text)
  | tooLarge
  | requestTooLarge
  | invariant (message : Text)
  | store (code : Text)
  deriving DecidableEq

structure AttemptSummary where
  hashMismatch : Bool
  peerInvalid : Option Text
  unavailable : Bool
  missing : Bool
  deriving DecidableEq

def AttemptSummary.default : AttemptSummary := ⟨false, none, false, false⟩

def AttemptSummary.observe (summary : AttemptSummary) : AssetError → Except AssetError AttemptSummary
  | .hashMismatch => .ok { summary with hashMismatch := true }
  | .peerInvalid message => .ok { summary with peerInvalid := some (summary.peerInvalid.getD message) }
  | .originUnavailable => .ok { summary with unavailable := true }
  | .missing => .ok { summary with missing := true }
  | error => .error error

def AttemptSummary.finalError (summary : AttemptSummary) : AssetError :=
  if summary.hashMismatch then .hashMismatch
  else match summary.peerInvalid with
    | some message => .peerInvalid message
    | none =>
      if summary.unavailable then .originUnavailable
      else if summary.missing then .missing
      else .originUnavailable

end Errors

section Responses

/-- What arrives of a body: a chunk, a framing error, or nothing for too long. -/
inductive BodyEvent where
  | chunk (bytes : Bytes)
  | broken
  | stalled
  deriving DecidableEq

/-- Header names are in lower case; a value is missing if it is not text. -/
structure Response where
  status : Nat
  headers : List (Text × Option Text)
  body : List BodyEvent
  deriving DecidableEq

/-- What comes of a request: no response, because the address is refused, the connection fails or
the headers take too long, or a response. -/
inductive Reply where
  | unanswered
  | answered (response : Response)
  deriving DecidableEq

def peerInvalid (message : String) : AssetError := .peerInvalid message.toList

def headerValues (headers : List (Text × Option Text)) (name : String) : List (Option Text) :=
  (headers.filter fun header => header.1 = name.toList).map Prod.snd

/-- The only value of a header. Of the two functions of this kind, one refuses commas. -/
def singletonValue (refuseCommas : Bool) (headers : List (Text × Option Text)) (name : String) :
    Except AssetError (Option Text) :=
  match headerValues headers name with
  | [] => .ok none
  | _ :: _ :: _ => .error (peerInvalid "peer repeated a singleton response header")
  | [none] => .error (peerInvalid "peer response header is invalid")
  | [some value] =>
    if value = [] ∨ trim value ≠ value ∨ (refuseCommas = true ∧ ',' ∈ value) then
      .error (peerInvalid "peer response header is invalid")
    else .ok (some value)

def singletonHeader := singletonValue true

def singletonHeaderWithCommas := singletonValue false

def parseSize (text : Text) : Option Nat :=
  let digits := (stripPrefix ['+'] text).getD text
  if digits ≠ [] ∧ digits.all Char.isDigit ∧ Nat.ofDigitChars 10 digits 0 < 2 ^ 64 then
    some (Nat.ofDigitChars 10 digits 0)
  else none

def check (accepted : Bool) (message : String) : Except AssetError Unit :=
  if accepted then .ok () else .error (peerInvalid message)

def required {α : Type} (value : Option α) (message : String) : Except AssetError α :=
  match value with
  | none => .error (peerInvalid message)
  | some a => .ok a

def peerCacheControl : Text := "private, immutable, max-age=31536000".toList

def hasHeader (headers : List (Text × Option Text)) (name : String) : Bool :=
  headerValues headers name ≠ []

end Responses

section Transfers

/-- When the time of one candidate ends. -/
inductive Deadline where
  | met
  | whileFetching
  | whileSettling
  deriving DecidableEq

inductive LocalCheck where
  | present (size : Nat)
  | missing
  | corrupt
  | failed (error : AssetError)
  deriving DecidableEq

/-- What a resolution meets: the libraries, its limits, the network and the local store. -/
structure Env where
  sha256 : Bytes → Text
  isMime : Text → Bool
  statusText : Nat → Text
  maxFileBytes : Nat
  maxRequestBytes : Nat
  headConcurrency : Nat
  positive : 0 < headConcurrency
  head : Endpoint → Reply
  get : Endpoint → Reply
  deadline : Endpoint → Deadline
  /-- The order in which the probes of a window answer. -/
  arrival : List (AssetPeer × Nat) → List (AssetPeer × Nat)
  arrival_perm : ∀ window, (arrival window).Perm window
  firstLook : LocalCheck
  lockFault : Option AssetError
  lockedLook : LocalCheck
  clientFault : Option AssetError
  /-- What the store fails with when a body is staged, before a chunk or at the end. -/
  stagingFault : Endpoint → Nat → Option AssetError
  persistFault : Endpoint → Option AssetError

structure AssetMetadata where
  sha256 : Text
  size : Nat
  deriving DecidableEq

variable (env : Env)

def validatePeerResponse (response : Response) (hash : Text) : Except AssetError Nat := do
  let headers := response.headers
  let length ← singletonHeader headers "content-length"
  let length ← required length "peer omitted content-length"
  let size ← required (parseSize length) "peer content-length is invalid"
  check (size ≤ env.maxFileBytes) "peer object exceeds the transfer limit"
  let mediaType ← singletonHeader headers "content-type"
  let mediaType ← required mediaType "peer omitted content-type"
  check (env.isMime mediaType) "peer content-type is invalid"
  let etag ← singletonHeader headers "etag"
  check (etag = some ("\"sha256-".toList ++ (hash ++ ['"']))) "peer asset etag is invalid"
  let options ← singletonHeader headers "x-content-type-options"
  check (options = some "nosniff".toList) "peer omitted the nosniff metadata"
  let cache ← singletonHeaderWithCommas headers "cache-control"
  check (cache = some peerCacheControl) "peer immutable cache metadata is invalid"
  let ranges ← singletonHeader headers "accept-ranges"
  check (ranges = some "bytes".toList) "peer range metadata is invalid"
  check (!hasHeader headers "content-encoding") "peer content encoding is not supported"
  check (!hasHeader headers "transfer-encoding" && !hasHeader headers "content-range")
    "peer returned partial or ambiguous framing metadata"
  .ok size

def sendPeerRequest (reply : Reply) : Except AssetError Response :=
  match reply with
  | .unanswered => .error .originUnavailable
  | .answered response =>
    if response.status = 200 then .ok response
    else if response.status = 404 then .error .missing
    else if (500 ≤ response.status ∧ response.status < 600) ∨ response.status = 408 ∨
        response.status = 429 then .error .originUnavailable
    else .error (.peerInvalid ("peer returned unexpected status ".toList ++
      env.statusText response.status))

def probeCandidate (hash : Text) (peer : AssetPeer) : Except AssetError Unit := do
  let response ← sendPeerRequest env (env.head (peerKey peer))
  let _ ← validatePeerResponse env response hash
  .ok ()

/-- The body is written to a file as it arrives. -/
def stageStream (endpoint : Endpoint) (step : Nat) (staged : Bytes) :
    List BodyEvent → Except AssetError Bytes
  | [] =>
    match env.stagingFault endpoint step with
    | some error => .error error
    | none => .ok staged
  | .broken :: _ => .error (peerInvalid "peer response body framing is invalid")
  | .stalled :: _ => .error .originUnavailable
  | .chunk bytes :: rest =>
    if env.maxFileBytes < staged.length + bytes.length then .error .tooLarge
    else if env.maxRequestBytes < staged.length + bytes.length then .error .requestTooLarge
    else match env.stagingFault endpoint step with
      | some error => .error error
      | none => stageStream endpoint (step + 1) (staged ++ bytes) rest

def transferLimit (staged : Except AssetError Bytes) : Except AssetError Bytes :=
  match staged with
  | .error .tooLarge => .error (peerInvalid "peer object exceeds the transfer limit")
  | .error .requestTooLarge => .error (peerInvalid "peer object exceeds the transfer limit")
  | other => other

/-- The body of a peer, once it is complete and has the hash that was asked for. -/
def fetchBody (hash : Text) (peer : AssetPeer) : Except AssetError Bytes := do
  let response ← sendPeerRequest env (env.get (peerKey peer))
  let declaredSize ← validatePeerResponse env response hash
  let staged ← transferLimit (stageStream env (peerKey peer) 0 [] response.body)
  check (staged.length = declaredSize) "peer content length does not match the response body"
  if env.sha256 staged = hash then .ok staged else .error .hashMismatch

/-- A download: its result, whether the lock is still there, and what the store has got. A task of
its own finishes the storing, also when the time of the candidate ends before. -/
structure Download where
  result : Except AssetError AssetMetadata
  hashLock : Bool
  stored : List (Text × Bytes)

def settle (hash : Text) (peer : AssetPeer) (staged : Bytes) : Download :=
  match env.persistFault (peerKey peer), env.deadline (peerKey peer) with
  | some _, .whileSettling => ⟨.error .originUnavailable, false, []⟩
  | some error, _ => ⟨.error error, false, []⟩
  | none, .whileSettling => ⟨.error .originUnavailable, false, [(hash, staged)]⟩
  | none, _ => ⟨.ok ⟨hash, staged.length⟩, false, [(hash, staged)]⟩

def downloadCandidate (hash : Text) (peer : AssetPeer) (hashLock : Bool) : Download :=
  if env.deadline (peerKey peer) = .whileFetching then ⟨.error .originUnavailable, hashLock, []⟩
  else match fetchBody env hash peer with
    | .error error => ⟨.error error, hashLock, []⟩
    | .ok staged =>
      if hashLock then settle env hash peer staged
      else ⟨.error (.invariant "fleet hash lock was already consumed".toList), false, []⟩

end Transfers

section Search
variable (env : Env)

structure SearchState where
  summary : AttemptSummary
  hashLock : Bool
  downloads : List Endpoint
  stored : List (Text × Bytes)

abbrev Found := Except AssetError (AssetMetadata × AssetPeer)

/-- Peers are asked one after the other until one has the object or the lock is gone. -/
def tryPeers (hash : Text) : List AssetPeer → SearchState → Option Found × SearchState
  | [], s => (none, s)
  | peer :: rest, s =>
    let download := downloadCandidate env hash peer s.hashLock
    let asked := SearchState.mk s.summary download.hashLock (s.downloads ++ [peerKey peer])
      (s.stored ++ download.stored)
    match download.result with
    | .ok metadata => (some (.ok (metadata, peer)), asked)
    | .error error =>
      match s.summary.observe error with
      | .error error => (some (.error error), asked)
      | .ok summary =>
        let observed := SearchState.mk summary asked.hashLock asked.downloads asked.stored
        if observed.hashLock then tryPeers hash rest observed
        else (some (.error summary.finalError), observed)

/-- The probes of a window as they come in. -/
def collectProbes (hash : Text) (summary : AttemptSummary) :
    List (AssetPeer × Nat) → Except AssetError (AttemptSummary × List (AssetPeer × Nat))
  | [] => .ok (summary, [])
  | probe :: rest =>
    match probeCandidate env hash probe.1 with
    | .ok () => (collectProbes hash summary rest).map fun (summary, available) =>
        (summary, probe :: available)
    | .error error => do
      let summary ← summary.observe error
      collectProbes hash summary rest

def fetchFallbacks (hash : Text) (peers : List AssetPeer) (s : SearchState) :
    Option Found × SearchState :=
  if _h : peers = [] then (none, s)
  else
    let window := peers.take env.headConcurrency
    match collectProbes env hash s.summary (env.arrival window.zipIdx) with
    | .error error => (some (.error error), s)
    | .ok (summary, available) =>
      let inOrder := (available.insertionSort fun a b => a.2 ≤ b.2).map Prod.fst
      match tryPeers env hash inOrder (SearchState.mk summary s.hashLock s.downloads s.stored) with
      | (some found, s) => (some found, s)
      | (none, s) => fetchFallbacks hash (peers.drop env.headConcurrency) s
termination_by peers.length
decreasing_by
  have positive : 0 < env.headConcurrency := env.positive
  have nonempty : 0 < peers.length := List.length_pos_iff.mpr _h
  rw [List.length_drop]
  omega

def fetchCandidates (origin hash : Text) (peers : List AssetPeer) (s : SearchState) :
    Found × SearchState :=
  let peers := orderPeers origin peers
  let exact' := peers.filter (isExact origin)
  match tryPeers env hash exact' s with
  | (some found, s) => (found, s)
  | (none, s) =>
    let fallbacks := retainNew (exact'.map peerKey) (peers.filter fun peer => !isExact origin peer)
    match fetchFallbacks env hash fallbacks s with
    | (some found, s) => (found, s)
    | (none, s) => (.error s.summary.finalError, s)

inductive AssetLocality where
  | localStore
  | remote
  deriving DecidableEq

structure ResolvedReplica where
  metadata : AssetMetadata
  peer : AssetPeer
  locality : AssetLocality
  deriving DecidableEq

def localReplica (hash workspaceSlug : Text) (size : Nat) : ResolvedReplica :=
  ⟨⟨hash, size⟩, ⟨"local".toList, none, [], workspaceSlug⟩, .localStore⟩

/-- A resolution: its result, the endpoints that were downloaded from, and what was stored. -/
structure Resolution where
  result : Except AssetError ResolvedReplica
  downloads : List Endpoint
  stored : List (Text × Bytes)

def ended (result : Except AssetError ResolvedReplica) : Resolution := ⟨result, [], []⟩

/-- A local look that finds nothing lets the resolution go on; so does corrupt data. -/
def LocalCheck.andThen (look : LocalCheck) (hash workspaceSlug : Text) (next : Resolution) :
    Resolution :=
  match look with
  | .present size => ended (.ok (localReplica hash workspaceSlug size))
  | .missing => next
  | .corrupt => next
  | .failed error => ended (.error error)

def unlessFault (fault : Option AssetError) (next : Resolution) : Resolution :=
  match fault with
  | some error => ended (.error error)
  | none => next

def resolveGet (workspaceSlug workspaceIdentity origin hash : Text) (peers : List AssetPeer) :
    Resolution :=
  env.firstLook.andThen hash workspaceSlug
    (if workspaceIdentity = [] then ended (.error .missing)
    else unlessFault env.lockFault
      (env.lockedLook.andThen hash workspaceSlug
        (unlessFault env.clientFault
          (let (found, s) := fetchCandidates env origin hash peers
            ⟨AttemptSummary.default, true, [], []⟩
          ⟨found.map fun (metadata, peer) => ⟨metadata, peer, .remote⟩, s.downloads, s.stored⟩))))

end Search

end AssetResolver
