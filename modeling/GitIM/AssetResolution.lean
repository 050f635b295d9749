import GitIM.AssetResolver

/-!
# One good peer is enough

A resolution ends with the first peer, in the order of `order_peers`, that serves the body that was
asked for and is the origin or passes its probe. Whatever the peers before it answer is put into
the summary of errors. The one thing that ends the search without the object is a store that takes
longer with a verified body than the time of a candidate: the lock is gone then.
-/

namespace AssetResolution

open TextLines TextScan AssetResolver

section Ordering
variable {origin : Text}

theorem retainNew_sublist (seen : List Endpoint) (peers : List AssetPeer) :
    (retainNew seen peers).Sublist peers := by
  induction peers generalizing seen with
  | nil => exact .slnil
  | cons p rest ih =>
    rw [retainNew]
    split
    · exact (ih seen).cons p
    · exact (ih (peerKey p :: seen)).cons_cons p

theorem retainNew_fresh (seen : List Endpoint) (peers : List AssetPeer) :
    ∀ p ∈ retainNew seen peers, peerKey p ∉ seen := by
  induction peers generalizing seen with
  | nil => exact fun _ h => by cases h
  | cons p rest ih =>
    rw [retainNew]
    split
    · exact ih seen
    · rename_i fresh
      intro q hq
      rcases List.mem_cons.mp hq with rfl | later
      · exact fresh
      · exact fun old => ih (peerKey p :: seen) q later (List.mem_cons_of_mem _ old)

theorem retainNew_nodup (seen : List Endpoint) (peers : List AssetPeer) :
    ((retainNew seen peers).map peerKey).Nodup := by
  induction peers generalizing seen with
  | nil => exact List.nodup_nil
  | cons p rest ih =>
    rw [retainNew]
    split
    · exact ih seen
    · refine List.nodup_cons.mpr ⟨?_, ih (peerKey p :: seen)⟩
      intro again
      obtain ⟨q, hq, same⟩ := List.mem_map.mp again
      exact retainNew_fresh _ rest q hq (same ▸ List.mem_cons_self)

/-- Peers with different endpoints that have not been seen are all retained. -/
theorem retainNew_all (seen : List Endpoint) (peers : List AssetPeer)
    (fresh : ∀ p ∈ peers, peerKey p ∉ seen) (distinct : (peers.map peerKey).Nodup) :
    retainNew seen peers = peers := by
  induction peers generalizing seen with
  | nil => rfl
  | cons p rest ih =>
    obtain ⟨different, distinctRest⟩ := List.nodup_cons.mp distinct
    rw [retainNew, if_neg (fresh p List.mem_cons_self), ih (peerKey p :: seen) ?_ distinctRest]
    intro q hq old
    rcases List.mem_cons.mp old with same | seenBefore
    · exact different (same ▸ List.mem_map_of_mem hq)
    · exact fresh q (List.mem_cons_of_mem p hq) seenBefore

/-- Every endpoint keeps its first peer. -/
theorem retainNew_first (seen : List Endpoint) (peers : List AssetPeer) {p : AssetPeer}
    (hp : p ∈ peers) (fresh : peerKey p ∉ seen) :
    ∃ q ∈ retainNew seen peers, peerKey q = peerKey p ∧
      ∀ {r : AssetPeer → AssetPeer → Prop}, peers.Pairwise r → q = p ∨ r q p := by
  induction peers generalizing seen with
  | nil => cases hp
  | cons x rest ih =>
    rw [retainNew]
    by_cases same : peerKey x = peerKey p
    · rw [if_neg (same ▸ fresh)]
      refine ⟨x, List.mem_cons_self, same, ?_⟩
      intro r ordered
      rcases List.mem_cons.mp hp with rfl | later
      · exact .inl rfl
      · exact .inr ((List.pairwise_cons.mp ordered).1 p later)
    · have later : p ∈ rest := (List.mem_cons.mp hp).resolve_left fun h => same (h ▸ rfl)
      split
      · obtain ⟨q, hq, key, first⟩ := ih seen later fresh
        exact ⟨q, hq, key, fun ordered => first (List.pairwise_cons.mp ordered).2⟩
      · have freshNow : peerKey p ∉ peerKey x :: seen := by
          intro old
          rcases List.mem_cons.mp old with same' | old
          · exact same same'.symm
          · exact fresh old
        obtain ⟨q, hq, key, first⟩ := ih (peerKey x :: seen) later freshNow
        exact ⟨q, List.mem_cons_of_mem x hq, key,
          fun ordered => first (List.pairwise_cons.mp ordered).2⟩

theorem sorted_peers (origin : Text) (peers : List AssetPeer) :
    (peers.insertionSort fun a b => orderKey origin a ≤ orderKey origin b).Pairwise
      fun a b => orderKey origin a ≤ orderKey origin b := by
  have total : Std.Total (fun a b : AssetPeer => orderKey origin a ≤ orderKey origin b) :=
    ⟨fun a b => le_total (orderKey origin a) (orderKey origin b)⟩
  have trans : IsTrans AssetPeer (fun a b => orderKey origin a ≤ orderKey origin b) :=
    ⟨fun _ _ _ => le_trans⟩
  exact List.pairwise_insertionSort _ peers

theorem orderPeers_nodup (peers : List AssetPeer) :
    ((orderPeers origin peers).map peerKey).Nodup := retainNew_nodup [] _

theorem mem_of_orderPeers {peers : List AssetPeer} {p : AssetPeer}
    (h : p ∈ orderPeers origin peers) : p ∈ peers :=
  (List.mem_insertionSort _).mp ((retainNew_sublist [] _).subset h)

theorem isExact_of_le {a b : AssetPeer} (le : orderKey origin a ≤ orderKey origin b)
    (hb : isExact origin b = true) : isExact origin a = true := by
  have first : (!isExact origin a) ≤ (!isExact origin b) := by
    rcases Prod.Lex.le_iff.mp le with lt | ⟨same, -⟩
    · exact le_of_lt lt
    · exact le_of_eq same
  rw [hb] at first
  revert first
  cases isExact origin a <;> decide

/-- Behind a peer that is not the origin there is none that is. -/
theorem orderPeers_split (peers : List AssetPeer) :
    orderPeers origin peers = (orderPeers origin peers).filter (isExact origin) ++
      (orderPeers origin peers).filter fun p => !isExact origin p := by
  have sorted : (orderPeers origin peers).Pairwise
      fun a b => isExact origin b = true → isExact origin a = true :=
    ((sorted_peers origin peers).sublist (retainNew_sublist [] _)).imp isExact_of_le
  generalize orderPeers origin peers = l at sorted
  induction l with
  | nil => rfl
  | cons p rest ih =>
    obtain ⟨before, sortedRest⟩ := List.pairwise_cons.mp sorted
    by_cases hp : isExact origin p = true
    · rw [List.filter_cons_of_pos hp, List.filter_cons_of_neg (by simp [hp]), List.cons_append,
        ← ih sortedRest]
    · have none : rest.filter (isExact origin) = [] := by
        rw [List.filter_eq_nil_iff]
        exact fun q hq exact' => hp (before q hq exact')
      have all : rest.filter (fun q => !isExact origin q) = rest := by
        rw [List.filter_eq_self]
        intro q hq
        have not : ¬ isExact origin q = true := fun exact' => hp (before q hq exact')
        simpa using not
      rw [List.filter_cons_of_neg hp, none, List.filter_cons_of_pos (by simpa using hp), all,
        List.nil_append]

/-- A peer is represented by one with its endpoint, which is the origin if the peer is. -/
theorem represented (origin : Text) {peers : List AssetPeer} {p : AssetPeer} (hp : p ∈ peers) :
    ∃ q ∈ orderPeers origin peers, peerKey q = peerKey p ∧
      (isExact origin p = true → isExact origin q = true) := by
  obtain ⟨q, hq, key, first⟩ :=
    retainNew_first [] (peers.insertionSort fun a b => orderKey origin a ≤ orderKey origin b)
      ((List.mem_insertionSort _).mpr hp) List.not_mem_nil
  refine ⟨q, hq, key, ?_⟩
  intro exact'
  rcases first (sorted_peers origin peers) with rfl | le
  · exact exact'
  · exact isExact_of_le le exact'

end Ordering

section Bodies
variable (env : Env)

/-- No operation of the local store, nor the setup of the client, ends in an error. -/
structure StoreNeverFails : Prop where
  firstLook : ∀ error, env.firstLook ≠ .failed error
  lock : env.lockFault = none
  lockedLook : ∀ error, env.lockedLook ≠ .failed error
  client : env.clientFault = none
  staging : ∀ endpoint step, env.stagingFault endpoint step = none
  persist : ∀ endpoint, env.persistFault endpoint = none

/-- The errors that a summary takes in. -/
def Observed : AssetError → Prop
  | .missing | .originUnavailable | .hashMismatch | .peerInvalid _ => True
  | _ => False

theorem observe_ok (summary : AttemptSummary) {error : AssetError} (h : Observed error) :
    ∃ next, summary.observe error = .ok next := by
  cases error with
  | missing => exact ⟨_, rfl⟩
  | originUnavailable => exact ⟨_, rfl⟩
  | hashMismatch => exact ⟨_, rfl⟩
  | peerInvalid message => exact ⟨_, rfl⟩
  | tooLarge => cases h
  | requestTooLarge => cases h
  | invariant message => cases h
  | store code => cases h

/-- A computation all of whose errors a summary takes in. -/
def Mild {α : Type} (x : Except AssetError α) : Prop := ∀ error, x = .error error → Observed error

theorem mild_ok {α : Type} (a : α) : Mild (.ok a : Except AssetError α) := fun _ h => by cases h

theorem mild_error {α : Type} {error : AssetError} (h : Observed error) :
    Mild (.error error : Except AssetError α) := by
  intro e he
  cases he
  exact h

theorem mild_bind {α β : Type} {x : Except AssetError α} {f : α → Except AssetError β}
    (hx : Mild x) (hf : ∀ a, Mild (f a)) : Mild (x >>= f) := by
  cases x with
  | error error => exact mild_error (hx error rfl)
  | ok a => exact hf a

theorem mild_check (accepted : Bool) (message : String) : Mild (check accepted message) := by
  rw [check]
  split
  · exact mild_ok ()
  · exact mild_error trivial

theorem mild_required {α : Type} (value : Option α) (message : String) :
    Mild (required value message) := by
  cases value with
  | none => exact mild_error trivial
  | some a => exact mild_ok a

theorem mild_singletonValue (refuseCommas : Bool) (headers : List (Text × Option Text))
    (name : String) : Mild (singletonValue refuseCommas headers name) := by
  rw [singletonValue]
  split
  · exact mild_ok none
  · exact mild_error trivial
  · exact mild_error trivial
  · split
    · exact mild_error trivial
    · exact mild_ok _

theorem mild_validatePeerResponse (response : Response) (hash : Text) :
    Mild (validatePeerResponse env response hash) := by
  refine mild_bind (mild_singletonValue _ _ _) fun length => ?_
  refine mild_bind (mild_required _ _) fun text => mild_bind (mild_required _ _) fun size => ?_
  refine mild_bind (mild_check _ _) fun _ => mild_bind (mild_singletonValue _ _ _) fun _ => ?_
  refine mild_bind (mild_required _ _) fun _ => mild_bind (mild_check _ _) fun _ => ?_
  refine mild_bind (mild_singletonValue _ _ _) fun _ => mild_bind (mild_check _ _) fun _ => ?_
  refine mild_bind (mild_singletonValue _ _ _) fun _ => mild_bind (mild_check _ _) fun _ => ?_
  refine mild_bind (mild_singletonValue _ _ _) fun _ => mild_bind (mild_check _ _) fun _ => ?_
  refine mild_bind (mild_singletonValue _ _ _) fun _ => mild_bind (mild_check _ _) fun _ => ?_
  exact mild_bind (mild_check _ _) fun _ => mild_bind (mild_check _ _) fun _ => mild_ok size

theorem mild_sendPeerRequest (reply : Reply) : Mild (sendPeerRequest env reply) := by
  cases reply with
  | unanswered => exact mild_error trivial
  | answered response =>
    rw [sendPeerRequest]
    split
    · exact mild_ok response
    · split
      · exact mild_error trivial
      · split
        · exact mild_error trivial
        · exact mild_error trivial

theorem mild_probeCandidate (hash : Text) (peer : AssetPeer) :
    Mild (probeCandidate env hash peer) :=
  mild_bind (mild_sendPeerRequest env _) fun response =>
    mild_bind (mild_validatePeerResponse env response hash) fun _ => mild_ok ()

/-- The bytes of a body that is complete. -/
def bodyBytes : List BodyEvent → Option Bytes
  | [] => some []
  | .chunk bytes :: rest => (bodyBytes rest).map fun later => bytes ++ later
  | .broken :: _ => none
  | .stalled :: _ => none

/-- A peer answers a download with the body that was asked for, with valid headers and within the
limits. -/
def ServesBody (hash : Text) (peer : AssetPeer) (bytes : Bytes) : Prop :=
  ∃ response, env.get (peerKey peer) = .answered response ∧ response.status = 200 ∧
    validatePeerResponse env response hash = .ok bytes.length ∧
    bodyBytes response.body = some bytes ∧ bytes.length ≤ env.maxFileBytes ∧
    bytes.length ≤ env.maxRequestBytes ∧ env.sha256 bytes = hash

variable {env}

theorem stageStream_ok_iff (never : StoreNeverFails env) (endpoint : Endpoint)
    (events : List BodyEvent) (step : Nat) (staged result : Bytes)
    (small : staged.length ≤ env.maxFileBytes ∧ staged.length ≤ env.maxRequestBytes) :
    stageStream env endpoint step staged events = .ok result ↔
      ∃ bytes, bodyBytes events = some bytes ∧ result = staged ++ bytes ∧
        result.length ≤ env.maxFileBytes ∧ result.length ≤ env.maxRequestBytes := by
  induction events generalizing step staged with
  | nil =>
    rw [stageStream, never.staging]
    constructor
    · intro h
      cases h
      exact ⟨[], rfl, (List.append_nil _).symm, small⟩
    · rintro ⟨bytes, hbytes, rfl, -⟩
      cases hbytes
      rw [List.append_nil]
  | cons event rest ih =>
    cases event with
    | broken =>
      constructor
      · exact fun h => by cases h
      · rintro ⟨bytes, hbytes, -⟩
        cases hbytes
    | stalled =>
      constructor
      · exact fun h => by cases h
      · rintro ⟨bytes, hbytes, -⟩
        cases hbytes
    | chunk bytes =>
      rw [stageStream]
      by_cases fits : staged.length + bytes.length ≤ env.maxFileBytes ∧
          staged.length + bytes.length ≤ env.maxRequestBytes
      · rw [if_neg (Nat.not_lt.mpr fits.1), if_neg (Nat.not_lt.mpr fits.2), never.staging]
        rw [ih (step + 1) (staged ++ bytes) (by rw [List.length_append]; exact fits)]
        constructor
        · rintro ⟨later, hlater, rfl, limits⟩
          refine ⟨bytes ++ later, ?_, List.append_assoc _ _ _, limits⟩
          rw [bodyBytes, hlater, Option.map_some]
        · rintro ⟨all, hall, rfl, limits⟩
          obtain ⟨later, hlater, rfl⟩ := Option.map_eq_some_iff.mp hall
          exact ⟨later, hlater, (List.append_assoc _ _ _).symm, limits⟩
      · have refused : ∀ result, ¬ (∃ all, bodyBytes (.chunk bytes :: rest) = some all ∧
            result = staged ++ all ∧ result.length ≤ env.maxFileBytes ∧
            result.length ≤ env.maxRequestBytes) := by
          rintro result ⟨all, hall, rfl, fileLimit, requestLimit⟩
          obtain ⟨later, -, rfl⟩ := Option.map_eq_some_iff.mp hall
          simp only [List.length_append] at fileLimit requestLimit
          omega
        rw [iff_false_right (refused result)]
        split
        · exact fun h => by cases h
        · rw [if_pos (by omega)]
          exact fun h => by cases h

/-- Without errors of the store, a stream ends in a limit or in an error of the peer. -/
theorem mild_transferLimit (never : StoreNeverFails env) (endpoint : Endpoint)
    (events : List BodyEvent) (step : Nat) (staged : Bytes) :
    Mild (transferLimit (stageStream env endpoint step staged events)) := by
  induction events generalizing step staged with
  | nil =>
    rw [stageStream, never.staging]
    exact mild_ok staged
  | cons event rest ih =>
    cases event with
    | broken => exact mild_error trivial
    | stalled => exact mild_error trivial
    | chunk bytes =>
      rw [stageStream]
      split
      · exact mild_error trivial
      · split
        · exact mild_error trivial
        · rw [never.staging]
          exact ih (step + 1) (staged ++ bytes)

theorem mild_fetchBody (never : StoreNeverFails env) (hash : Text) (peer : AssetPeer) :
    Mild (fetchBody env hash peer) := by
  refine mild_bind (mild_sendPeerRequest env _) fun response => ?_
  refine mild_bind (mild_validatePeerResponse env response hash) fun size => ?_
  refine mild_bind (mild_transferLimit never _ _ _ _) fun staged => mild_bind (mild_check _ _) fun _ => ?_
  split
  · exact mild_ok staged
  · exact mild_error trivial

theorem bind_ok_iff {α β : Type} {x : Except AssetError α} {f : α → Except AssetError β} {b : β} :
    x >>= f = .ok b ↔ ∃ a, x = .ok a ∧ f a = .ok b := by
  cases x with
  | error error =>
    constructor
    · exact fun h => by cases h
    · rintro ⟨a, h, -⟩
      cases h
  | ok a =>
    constructor
    · exact fun h => ⟨a, rfl, h⟩
    · rintro ⟨a', h, hf⟩
      cases h
      exact hf

theorem check_ok_iff {accepted : Bool} {message : String} {u : Unit} :
    check accepted message = .ok u ↔ accepted = true := by
  cases accepted with
  | false => exact ⟨fun h => (by cases h), fun h => (by cases h)⟩
  | true => exact ⟨fun _ => rfl, fun _ => rfl⟩

theorem sendPeerRequest_ok_iff {reply : Reply} {response : Response} :
    sendPeerRequest env reply = .ok response ↔
      reply = .answered response ∧ response.status = 200 := by
  cases reply with
  | unanswered => exact ⟨fun h => (by cases h), fun h => (by cases h.1)⟩
  | answered other =>
    rw [sendPeerRequest]
    constructor
    · intro h
      split at h
      · rename_i ok
        cases h
        exact ⟨rfl, ok⟩
      · split at h
        · cases h
        · split at h
          · cases h
          · cases h
    · rintro ⟨h, ok⟩
      cases h
      rw [if_pos ok]

theorem transferLimit_ok_iff {staged : Except AssetError Bytes} {bytes : Bytes} :
    transferLimit staged = .ok bytes ↔ staged = .ok bytes := by
  cases staged with
  | ok other => exact Iff.rfl
  | error error =>
    constructor
    · intro h
      cases error with
      | tooLarge => cases h
      | requestTooLarge => cases h
      | _ => exact h
    · exact fun h => by cases h

theorem fetchBody_ok_iff (never : StoreNeverFails env) (hash : Text) (peer : AssetPeer)
    (bytes : Bytes) : fetchBody env hash peer = .ok bytes ↔ ServesBody env hash peer bytes := by
  have stage := fun events result =>
    stageStream_ok_iff never (peerKey peer) events 0 [] result ⟨Nat.zero_le _, Nat.zero_le _⟩
  simp only [fetchBody, bind_ok_iff, sendPeerRequest_ok_iff, transferLimit_ok_iff, check_ok_iff, stage,
    List.nil_append]
  constructor
  · rintro ⟨response, ⟨answered, ok⟩, size, valid, staged, ⟨all, complete, rfl, limits⟩, _, sized, hashed⟩
    split at hashed
    · rename_i same
      cases hashed
      have length : bytes.length = size := of_decide_eq_true sized
      exact ⟨response, answered, ok, length ▸ valid, complete, limits.1, limits.2, same⟩
    · cases hashed
  · rintro ⟨response, answered, ok, valid, complete, fileLimit, requestLimit, same⟩
    refine ⟨response, ⟨answered, ok⟩, bytes.length, valid, bytes,
      ⟨bytes, complete, rfl, fileLimit, requestLimit⟩, (), decide_eq_true rfl, ?_⟩
    rw [if_pos same]

end Bodies

section Downloads
variable {env : Env}

/-- A peer serves the body before the time of the candidate ends. -/
def serves (env : Env) (hash : Text) (peer : AssetPeer) : Bool :=
  env.deadline (peerKey peer) ≠ .whileFetching && (fetchBody env hash peer).isOk

theorem serves_iff (never : StoreNeverFails env) (hash : Text) (peer : AssetPeer) :
    serves env hash peer = true ↔
      env.deadline (peerKey peer) ≠ .whileFetching ∧ ∃ bytes, ServesBody env hash peer bytes := by
  rw [serves, Bool.and_eq_true, decide_eq_true_iff]
  have isOk : (fetchBody env hash peer).isOk = true ↔ ∃ bytes, ServesBody env hash peer bytes := by
    simp only [← fetchBody_ok_iff never]
    cases fetchBody env hash peer with
    | error error => simp [Except.isOk, Except.toBool]
    | ok bytes => simp [Except.isOk, Except.toBool]
  rw [isOk]

/-- What a download with the lock comes to. -/
inductive Downloaded (env : Env) (hash : Text) (peer : AssetPeer) : Download → Prop where
  | refused (error : AssetError) (h : Observed error) (unserved : serves env hash peer = false) :
    Downloaded env hash peer ⟨.error error, true, []⟩
  | served (bytes : Bytes) (body : ServesBody env hash peer bytes)
    (ok : serves env hash peer = true) (met : env.deadline (peerKey peer) = .met) :
    Downloaded env hash peer ⟨.ok ⟨hash, bytes.length⟩, false, [(hash, bytes)]⟩
  | late (bytes : Bytes) (body : ServesBody env hash peer bytes)
    (ok : serves env hash peer = true) (missed : env.deadline (peerKey peer) = .whileSettling) :
    Downloaded env hash peer ⟨.error .originUnavailable, false, [(hash, bytes)]⟩

theorem downloaded (never : StoreNeverFails env) (hash : Text) (peer : AssetPeer) :
    Downloaded env hash peer (downloadCandidate env hash peer true) := by
  rw [downloadCandidate]
  split
  · rename_i fetching
    exact .refused _ trivial (by simp [serves, fetching])
  · rename_i inTime
    cases body : fetchBody env hash peer with
    | error error => exact .refused error (mild_fetchBody never hash peer error body) (by
        simp [serves, body, Except.isOk, Except.toBool])
    | ok bytes =>
      have right : ServesBody env hash peer bytes := (fetchBody_ok_iff never hash peer bytes).mp body
      have ok : serves env hash peer = true := (serves_iff never hash peer).mpr ⟨inTime, bytes, right⟩
      simp only [if_true, settle, never.persist]
      cases time : env.deadline (peerKey peer) with
      | met => exact .served bytes right ok time
      | whileFetching => exact absurd time inTime
      | whileSettling => exact .late bytes right ok time

/-- What a search over peers comes to, when `good` is the first peer that serves the body. -/
structure Searched (env : Env) (hash : Text) (peers : List AssetPeer) (good : Option AssetPeer)
    (s : SearchState) (r : Option Found × SearchState) : Prop where
  unfound : good = none → r.1 = none ∧ r.2.hashLock = true ∧ r.2.stored = s.stored
  found : ∀ p, good = some p → ∃ bytes, ServesBody env hash p bytes ∧
    r.2.stored = s.stored ++ [(hash, bytes)] ∧
    (env.deadline (peerKey p) = .met → r.1 = some (.ok (⟨hash, bytes.length⟩, p))) ∧
    (env.deadline (peerKey p) ≠ .met → ∃ error, r.1 = some (.error error))
  tried : ∃ tried : List AssetPeer, tried.Sublist peers ∧ r.2.downloads = s.downloads ++ tried.map peerKey

theorem searched_tryPeers (never : StoreNeverFails env) (hash : Text) (peers : List AssetPeer)
    (s : SearchState) (held : s.hashLock = true) :
    Searched env hash peers (peers.find? (serves env hash)) s (tryPeers env hash peers s) := by
  induction peers generalizing s with
  | nil => exact ⟨fun _ => ⟨rfl, held, rfl⟩, fun _ h => (by cases h), [], .slnil, by simp [tryPeers]⟩
  | cons p rest ih =>
    have download := downloaded never hash p
    unfold tryPeers
    rw [held]
    generalize downloadCandidate env hash p true = d at download
    cases download with
    | refused error observed unserved =>
      obtain ⟨summary, hsummary⟩ := observe_ok s.summary observed
      rw [List.find?_cons_of_neg (by simp [unserved])]
      simp only [hsummary, if_true]
      obtain ⟨unfound, found, tried, sub, downloads⟩ := ih
        (SearchState.mk summary true (s.downloads ++ [peerKey p]) (s.stored ++ [])) rfl
      simp only [List.append_nil] at unfound found downloads ⊢
      refine ⟨unfound, found, p :: tried, sub.cons_cons p, ?_⟩
      rw [downloads, List.append_assoc]
      rfl
    | served bytes body ok met =>
      rw [List.find?_cons_of_pos ok]
      refine ⟨fun h => (by cases h), ?_, [p], ?_, rfl⟩
      · rintro q ⟨⟩
        exact ⟨bytes, body, rfl, fun _ => rfl, fun missed => absurd met missed⟩
      · exact List.singleton_sublist.mpr List.mem_cons_self
    | late bytes body ok missed =>
      rw [List.find?_cons_of_pos ok]
      have unavailable : Observed .originUnavailable := trivial
      obtain ⟨summary, hsummary⟩ := observe_ok s.summary unavailable
      simp only [hsummary]
      refine ⟨fun h => (by cases h), ?_, [p], ?_, rfl⟩
      · rintro q ⟨⟩
        exact ⟨bytes, body, rfl, fun met => (by cases missed.symm.trans met), fun _ => ⟨_, rfl⟩⟩
      · exact List.singleton_sublist.mpr List.mem_cons_self

def probeOk (env : Env) (hash : Text) (peer : AssetPeer) : Bool :=
  (probeCandidate env hash peer).isOk

theorem collectProbes_eq (env : Env) (hash : Text) (probes : List (AssetPeer × Nat)) (summary : AttemptSummary) :
    ∃ next, collectProbes env hash summary probes =
      .ok (next, probes.filter fun probe => probeOk env hash probe.1) := by
  induction probes generalizing summary with
  | nil => exact ⟨summary, rfl⟩
  | cons probe rest ih =>
    rw [collectProbes]
    cases answer : probeCandidate env hash probe.1 with
    | ok u =>
      obtain ⟨next, hnext⟩ := ih summary
      refine ⟨next, ?_⟩
      have passes : probeOk env hash probe.1 = true := by rw [probeOk, answer]; rfl
      rw [List.filter_cons, if_pos passes, hnext]
      rfl
    | error error =>
      obtain ⟨observed, hobserved⟩ :=
        observe_ok summary (mild_probeCandidate env hash probe.1 error answer)
      obtain ⟨next, hnext⟩ := ih observed
      refine ⟨next, ?_⟩
      have fails : ¬ probeOk env hash probe.1 = true := by rw [probeOk, answer]; exact fun h => by cases h
      rw [List.filter_cons, if_neg fails, ← hnext]
      simp only [hobserved]
      rfl

/-- In whatever order the probes answer, the peers that pass are asked in the order of the window. -/
theorem available_inOrder (keep : AssetPeer → Bool) (window : List AssetPeer)
    (arrived : List (AssetPeer × Nat)) (perm : arrived.Perm window.zipIdx) :
    (((arrived.filter fun probe => keep probe.1).insertionSort fun a b => a.2 ≤ b.2).map Prod.fst) =
      window.filter keep := by
  have total : Std.Total (fun a b : AssetPeer × Nat => a.2 ≤ b.2) := ⟨fun a b => Nat.le_total a.2 b.2⟩
  have trans : IsTrans (AssetPeer × Nat) (fun a b => a.2 ≤ b.2) := ⟨fun _ _ _ => Nat.le_trans⟩
  have inOrder : window.zipIdx.Pairwise fun a b => a.2 ≤ b.2 := by
    have indices : (window.zipIdx.map Prod.snd).Pairwise (· ≤ ·) := by
      rw [List.zipIdx_map_snd]
      exact List.pairwise_le_range'
    exact List.pairwise_map.mp indices
  have kept : (window.zipIdx.filter fun probe => keep probe.1).Pairwise fun a b => a.2 ≤ b.2 :=
    inOrder.sublist List.filter_sublist
  have same : (arrived.filter fun probe => keep probe.1).insertionSort (fun a b => a.2 ≤ b.2) =
      window.zipIdx.filter fun probe => keep probe.1 := by
    refine List.Perm.eq_of_pairwise ?_ (List.pairwise_insertionSort _ _) kept
      ((List.perm_insertionSort _ _).trans (perm.filter _))
    intro a b ha hb le ge
    have ha : a ∈ window.zipIdx :=
      perm.subset (List.mem_of_mem_filter ((List.mem_insertionSort _).mp ha))
    have hb : b ∈ window.zipIdx := List.mem_of_mem_filter hb
    have index : a.2 = b.2 := Nat.le_antisymm le ge
    have hpa := List.mem_zipIdx_iff_getElem?.mp ha
    rw [index, List.mem_zipIdx_iff_getElem?.mp hb] at hpa
    exact Prod.ext (Option.some.inj hpa).symm index
  rw [same]
  have front : window.zipIdx.map Prod.fst = window := List.zipIdx_map_fst 0 window
  conv_rhs => rw [← front, List.filter_map]
  rfl

/-- A search over two lists, of which the second is only asked when the first has nothing. -/
theorem Searched.append {hash : Text} {first rest : List AssetPeer} {good good' : Option AssetPeer}
    {s : SearchState} {r r' : Option Found × SearchState} (searched : Searched env hash first good s r)
    (next : r.1 = none → Searched env hash rest good' r.2 r')
    (stop : ∀ found, r.1 = some found → r' = r) :
    Searched env hash (first ++ rest) (good.or good') s r' := by
  obtain ⟨unfound, found, tried, sub, downloads⟩ := searched
  cases good with
  | none =>
    obtain ⟨none, held, stored⟩ := unfound rfl
    obtain ⟨unfound', found', tried', sub', downloads'⟩ := next none
    refine ⟨?_, ?_, tried ++ tried', sub.append sub', ?_⟩
    · intro h
      obtain ⟨none', held', stored'⟩ := unfound' h
      exact ⟨none', held', stored'.trans stored⟩
    · intro p hp
      rw [← stored]
      exact found' p hp
    · rw [downloads', downloads, List.map_append, List.append_assoc]
  | some p =>
    obtain ⟨bytes, body, stored, met, missed⟩ := found p rfl
    have ends : ∃ answer, r.1 = some answer := by
      by_cases time : env.deadline (peerKey p) = .met
      · exact ⟨_, met time⟩
      · obtain ⟨error, h⟩ := missed time
        exact ⟨_, h⟩
    obtain ⟨answer, h⟩ := ends
    rw [stop answer h]
    refine ⟨fun h => (by cases h), ?_, tried, sub.trans (List.sublist_append_left _ _), downloads⟩
    rintro q ⟨⟩
    exact ⟨bytes, body, stored, met, missed⟩

/-- A search over what passes a test is one over the whole list for what passes both. -/
theorem Searched.of_filter {hash : Text} {peers : List AssetPeer} {keep : AssetPeer → Bool}
    {good : Option AssetPeer} {s : SearchState} {r : Option Found × SearchState}
    (searched : Searched env hash (peers.filter keep) good s r) : Searched env hash peers good s r := by
  obtain ⟨unfound, found, tried, sub, downloads⟩ := searched
  exact ⟨unfound, found, tried, sub.trans List.filter_sublist, downloads⟩

def probedAndServes (env : Env) (hash : Text) (peer : AssetPeer) : Bool :=
  probeOk env hash peer && serves env hash peer

theorem fetchFallbacks_nil (hash : Text) (s : SearchState) :
    fetchFallbacks env hash [] s = (none, s) := by
  rw [fetchFallbacks, dif_pos rfl]

/-- One window, and the windows behind it if nothing was found. -/
theorem fetchFallbacks_window (env : Env) (hash : Text) {peers : List AssetPeer} (nonempty : peers ≠ [])
    (s : SearchState) :
    ∃ summary, ∃ r, r = tryPeers env hash
        ((peers.take env.headConcurrency).filter (probeOk env hash))
        (SearchState.mk summary s.hashLock s.downloads s.stored) ∧
      (∀ found, r.1 = some found → fetchFallbacks env hash peers s = r) ∧
      (r.1 = none → fetchFallbacks env hash peers s =
        fetchFallbacks env hash (peers.drop env.headConcurrency) r.2) := by
  obtain ⟨summary, collected⟩ := collectProbes_eq env hash
    (env.arrival (peers.take env.headConcurrency).zipIdx) s.summary
  have inOrder := available_inOrder (probeOk env hash) (peers.take env.headConcurrency) _
    (env.arrival_perm _)
  refine ⟨summary, _, rfl, ?_, ?_⟩
  · intro found h
    conv_lhs => unfold fetchFallbacks
    rw [dif_neg nonempty]
    simp only [collected, inOrder]
    split
    · rename_i answer
      rw [answer]
    · rename_i answer
      rw [answer] at h
      cases h
  · intro h
    conv_lhs => unfold fetchFallbacks
    rw [dif_neg nonempty]
    simp only [collected, inOrder]
    split
    · rename_i answer
      rw [answer] at h
      cases h
    · rename_i answer
      rw [answer]

theorem searched_fetchFallbacks (never : StoreNeverFails env) (hash : Text) (count : Nat)
    (peers : List AssetPeer) (small : peers.length ≤ count) (s : SearchState)
    (held : s.hashLock = true) :
    Searched env hash peers (peers.find? (probedAndServes env hash)) s
      (fetchFallbacks env hash peers s) := by
  induction count generalizing peers s with
  | zero =>
    have empty : peers = [] := List.length_eq_zero_iff.mp (Nat.le_zero.mp small)
    subst empty
    rw [fetchFallbacks_nil]
    exact ⟨fun _ => ⟨rfl, held, rfl⟩, fun _ h => (by cases h), [], .slnil, by simp⟩
  | succ count ih =>
    by_cases nonempty : peers = []
    · subst nonempty
      exact ih [] (Nat.zero_le _) s held
    obtain ⟨summary, r, hr, stop, goOn⟩ := fetchFallbacks_window env hash nonempty s
    have window := searched_tryPeers never hash
      ((peers.take env.headConcurrency).filter (probeOk env hash))
      (SearchState.mk summary s.hashLock s.downloads s.stored) held
    rw [← hr] at window
    have goodFirst : ((peers.take env.headConcurrency).filter (probeOk env hash)).find?
        (serves env hash) = (peers.take env.headConcurrency).find? (probedAndServes env hash) := by
      rw [List.find?_filter]
      congr 1
      funext p
      simp [probedAndServes]
    rw [goodFirst] at window
    have whole : Searched env hash
        (peers.take env.headConcurrency ++ peers.drop env.headConcurrency)
        ((peers.take env.headConcurrency).find? (probedAndServes env hash) |>.or
          ((peers.drop env.headConcurrency).find? (probedAndServes env hash))) s
        (fetchFallbacks env hash peers s) := by
      have same : Searched env hash (peers.take env.headConcurrency)
          ((peers.take env.headConcurrency).find? (probedAndServes env hash)) s r :=
        ⟨window.unfound, window.found, window.of_filter.tried⟩
      refine same.append ?_ stop
      intro unfound
      rw [goOn unfound]
      have fewer : (peers.drop env.headConcurrency).length ≤ count := by
        have positive := env.positive
        have some : 0 < peers.length := List.length_pos_iff.mpr nonempty
        rw [List.length_drop]
        omega
      apply ih _ fewer
      cases good : (peers.take env.headConcurrency).find? (probedAndServes env hash) with
      | none => exact (window.unfound good).2.1
      | some p =>
        obtain ⟨bytes, -, -, met, missed⟩ := window.found p good
        by_cases time : env.deadline (peerKey p) = .met
        · rw [met time] at unfound
          cases unfound
        · obtain ⟨error, h⟩ := missed time
          rw [h] at unfound
          cases unfound
    rw [← List.find?_append, List.take_append_drop] at whole
    exact whole

end Downloads

section Resolutions
variable {env : Env}

/-- A peer that has the object: the origin, or one that passes its probe, serves the body in time. -/
def hasObject (env : Env) (origin hash : Text) (peer : AssetPeer) : Bool :=
  (isExact origin peer || probeOk env hash peer) && serves env hash peer

/-- The search over all peers, with the final error when none has the object. -/
theorem searched_fetchCandidates (never : StoreNeverFails env) (origin hash : Text)
    (peers : List AssetPeer) (s : SearchState) (held : s.hashLock = true) :
    ∃ r, Searched env hash (orderPeers origin peers)
        ((orderPeers origin peers).find? (hasObject env origin hash)) s r ∧
      fetchCandidates env origin hash peers s = (r.1.getD (.error r.2.summary.finalError), r.2) := by
  generalize hexact : (orderPeers origin peers).filter (isExact origin) = exact'
  generalize hrest : (orderPeers origin peers).filter (fun p => !isExact origin p) = rest
  have split : orderPeers origin peers = exact' ++ rest := by
    rw [← hexact, ← hrest]
    exact orderPeers_split peers
  have distinct : ((exact' ++ rest).map peerKey).Nodup := split ▸ orderPeers_nodup peers
  rw [List.map_append] at distinct
  obtain ⟨-, distinctRest, apart⟩ := List.nodup_append.mp distinct
  have all : retainNew (exact'.map peerKey) rest = rest := by
    apply retainNew_all _ _ ?_ distinctRest
    intro p hp old
    exact apart _ old _ (List.mem_map_of_mem hp) rfl
  have first := searched_tryPeers never hash exact' s held
  have goodFirst : exact'.find? (serves env hash) = exact'.find? (hasObject env origin hash) := by
    rw [← hexact, List.find?_filter, List.find?_filter]
    congr 1
    funext p
    by_cases h : isExact origin p = true
    · simp [hasObject, h]
    · simp [h]
  have goodRest : rest.find? (probedAndServes env hash) = rest.find? (hasObject env origin hash) := by
    rw [← hrest, List.find?_filter, List.find?_filter]
    congr 1
    funext p
    by_cases h : isExact origin p = true
    · simp [h]
    · simp [hasObject, probedAndServes, h]
  rw [goodFirst] at first
  rw [split, List.find?_append]
  unfold fetchCandidates
  simp only [hexact, hrest, all]
  rcases asked : tryPeers env hash exact' s with ⟨found, s₁⟩
  rw [asked] at first
  cases found with
  | some found => exact ⟨_, first.append (fun h => (by cases h)) (fun _ _ => rfl), rfl⟩
  | none =>
    have unfound : exact'.find? (hasObject env origin hash) = none := by
      cases good : exact'.find? (hasObject env origin hash) with
      | none => rfl
      | some p =>
        obtain ⟨bytes, -, -, met, missed⟩ := first.found p good
        by_cases time : env.deadline (peerKey p) = .met
        · cases met time
        · obtain ⟨error, h⟩ := missed time
          cases h
    have second := searched_fetchFallbacks never hash rest.length rest (Nat.le_refl _) s₁
      (first.unfound unfound).2.1
    rw [goodRest] at second
    refine ⟨fetchFallbacks env hash rest s₁, first.append (fun _ => second) (fun _ h => (by cases h)), ?_⟩
    dsimp only
    rcases fetchFallbacks env hash rest s₁ with ⟨found, s₂⟩
    cases found with
    | some found => rfl
    | none => rfl

theorem hasObject_iff (never : StoreNeverFails env) (origin hash : Text) (peer : AssetPeer) :
    hasObject env origin hash peer = true ↔
      (isExact origin peer = true ∨ probeCandidate env hash peer = .ok ()) ∧
        env.deadline (peerKey peer) ≠ .whileFetching ∧ ∃ bytes, ServesBody env hash peer bytes := by
  have probe : probeOk env hash peer = true ↔ probeCandidate env hash peer = .ok () := by
    rw [probeOk]
    cases probeCandidate env hash peer with
    | error error => exact ⟨fun h => (by cases h), fun h => (by cases h)⟩
    | ok u => exact ⟨fun _ => rfl, fun _ => rfl⟩
  rw [hasObject, Bool.and_eq_true, Bool.or_eq_true, serves_iff never, probe]

/-- Whether a peer has the object is a matter of its endpoint, and of being the origin. -/
theorem hasObject_of_key {origin hash : Text} {p q : AssetPeer} (key : peerKey q = peerKey p)
    (exact' : isExact origin p = true → isExact origin q = true)
    (h : hasObject env origin hash p = true) : hasObject env origin hash q = true := by
  rw [hasObject, Bool.and_eq_true, Bool.or_eq_true] at h ⊢
  have sameProbe : probeOk env hash q = probeOk env hash p := by
    rw [probeOk, probeOk, probeCandidate, probeCandidate, key]
  have sameBody : serves env hash q = serves env hash p := by
    rw [serves, serves, fetchBody, fetchBody, key]
  rw [sameProbe, sameBody]
  exact ⟨h.1.imp_left exact', h.2⟩

theorem exists_hasObject_iff {origin hash : Text} {peers : List AssetPeer} :
    (∃ p, (orderPeers origin peers).find? (hasObject env origin hash) = some p) ↔
      ∃ p ∈ peers, hasObject env origin hash p = true := by
  constructor
  · rintro ⟨p, found⟩
    exact ⟨p, mem_of_orderPeers (List.mem_of_find?_eq_some found), List.find?_some found⟩
  · rintro ⟨p, hp, good⟩
    obtain ⟨q, hq, key, exact'⟩ := represented origin hp
    have goodQ : hasObject env origin hash q = true := hasObject_of_key key exact' good
    cases found : (orderPeers origin peers).find? (hasObject env origin hash) with
    | none => exact absurd goodQ (List.find?_eq_none.mp found q hq)
    | some first => exact ⟨first, rfl⟩

/-- The object is in the local store, when the resolution starts or when it holds the lock. -/
def IsLocal (env : Env) (workspaceIdentity : Text) : Prop :=
  (∃ size, env.firstLook = .present size) ∨
    workspaceIdentity ≠ [] ∧ ∃ size, env.lockedLook = .present size

/-- Without errors of the store, a resolution ends locally, ends for want of an identity of the
workspace, or asks the peers. -/
inductive Resolved (env : Env) (workspaceSlug workspaceIdentity origin hash : Text)
    (peers : List AssetPeer) : Resolution → Prop where
  | here (size : Nat) (present : IsLocal env workspaceIdentity) :
    Resolved env workspaceSlug workspaceIdentity origin hash peers
      (ended (.ok (localReplica hash workspaceSlug size)))
  | unnamed (absent : ¬ IsLocal env workspaceIdentity) (unnamed : workspaceIdentity = []) :
    Resolved env workspaceSlug workspaceIdentity origin hash peers (ended (.error .missing))
  | fleet (absent : ¬ IsLocal env workspaceIdentity) (named : workspaceIdentity ≠ [])
    (found : Found) (s : SearchState) (asked : fetchCandidates env origin hash peers
      ⟨AttemptSummary.default, true, [], []⟩ = (found, s)) :
    Resolved env workspaceSlug workspaceIdentity origin hash peers
      ⟨found.map fun (metadata, peer) => ⟨metadata, peer, .remote⟩, s.downloads, s.stored⟩

/-- A look of the store either finds the object or lets the resolution go on. -/
theorem andThen_cases (look : LocalCheck) (unfailed : ∀ error, look ≠ .failed error)
    (hash workspaceSlug : Text) (next : Resolution) :
    (∃ size, look = .present size ∧
        look.andThen hash workspaceSlug next = ended (.ok (localReplica hash workspaceSlug size))) ∨
      (∀ size, look ≠ .present size) ∧ look.andThen hash workspaceSlug next = next := by
  cases look with
  | present size => exact .inl ⟨size, rfl, rfl⟩
  | missing => exact .inr ⟨fun _ h => (by cases h), rfl⟩
  | corrupt => exact .inr ⟨fun _ h => (by cases h), rfl⟩
  | failed error => exact absurd rfl (unfailed error)

theorem resolved (never : StoreNeverFails env) (workspaceSlug workspaceIdentity origin hash : Text)
    (peers : List AssetPeer) :
    Resolved env workspaceSlug workspaceIdentity origin hash peers
      (resolveGet env workspaceSlug workspaceIdentity origin hash peers) := by
  rw [resolveGet]
  rcases andThen_cases env.firstLook never.firstLook hash workspaceSlug _ with
    ⟨size, present, h⟩ | ⟨absent, h⟩
  · rw [h]
    exact .here size (.inl ⟨size, present⟩)
  rw [h]
  split
  · rename_i unnamed
    refine .unnamed ?_ unnamed
    rintro (⟨size, present⟩ | ⟨named, -⟩)
    · exact absent size present
    · exact named unnamed
  · rename_i named
    simp only [never.lock, never.client, unlessFault]
    rcases andThen_cases env.lockedLook never.lockedLook hash workspaceSlug _ with
      ⟨size, present, h⟩ | ⟨absentStill, h⟩
    · rw [h]
      exact .here size (.inr ⟨named, size, present⟩)
    · rw [h]
      refine .fleet ?_ named _ _ rfl
      rintro (⟨size, present⟩ | ⟨-, size, present⟩)
      · exact absent size present
      · exact absentStill size present

/-- A resolution succeeds exactly if the object is local, or if the first peer that has it sees its
body stored in time; whatever the other peers answer, this is the peer that serves, no endpoint is
asked twice for a body, and what is stored has the hash that was asked for. -/
theorem resolveGet_first (env : Env) (never : StoreNeverFails env)
    (workspaceSlug workspaceIdentity origin hash : Text) (peers : List AssetPeer) :
    let r := resolveGet env workspaceSlug workspaceIdentity origin hash peers
    let first := (orderPeers origin peers).find? (hasObject env origin hash)
    ((∃ replica, r.result = .ok replica) ↔ IsLocal env workspaceIdentity ∨
        workspaceIdentity ≠ [] ∧ ∃ p, first = some p ∧ env.deadline (peerKey p) = .met) ∧
      ((∃ p, first = some p) ↔ ∃ p ∈ peers,
        (isExact origin p = true ∨ probeCandidate env hash p = .ok ()) ∧
          env.deadline (peerKey p) ≠ .whileFetching ∧ ∃ bytes, ServesBody env hash p bytes) ∧
      r.downloads.Nodup ∧
      (∀ replica, r.result = .ok replica → replica.locality = .remote →
        first = some replica.peer ∧
          ∃ bytes, r.stored = [(hash, bytes)] ∧ replica.metadata = ⟨hash, bytes.length⟩) ∧
      ∀ stored ∈ r.stored, stored.1 = hash ∧ env.sha256 stored.2 = hash := by
  have someFirst : (∃ p, (orderPeers origin peers).find? (hasObject env origin hash) = some p) ↔
      ∃ p ∈ peers, (isExact origin p = true ∨ probeCandidate env hash p = .ok ()) ∧
        env.deadline (peerKey p) ≠ .whileFetching ∧ ∃ bytes, ServesBody env hash p bytes := by
    rw [exists_hasObject_iff]
    simp only [hasObject_iff never]
  have result := resolved never workspaceSlug workspaceIdentity origin hash peers
  dsimp only
  generalize resolveGet env workspaceSlug workspaceIdentity origin hash peers = r at result
  cases result with
  | here size present =>
    refine ⟨⟨fun _ => .inl present, fun _ => ⟨_, rfl⟩⟩, someFirst, List.nodup_nil, ?_, ?_⟩
    · rintro replica ⟨⟩ remote
      cases remote
    · exact fun _ h => by cases h
  | unnamed absent unnamed =>
    refine ⟨⟨?_, ?_⟩, someFirst, List.nodup_nil, fun _ h => (by cases h), fun _ h => (by cases h)⟩
    · rintro ⟨replica, h⟩
      cases h
    · rintro (present | ⟨named, -⟩)
      · exact absurd present absent
      · exact absurd unnamed named
  | fleet absent named found s asked =>
    obtain ⟨answer, searched, h⟩ := searched_fetchCandidates never origin hash peers
      ⟨AttemptSummary.default, true, [], []⟩ rfl
    rw [asked] at h
    obtain ⟨rfl, rfl⟩ := Prod.mk.inj h
    obtain ⟨unfound, foundFirst, tried, sub, downloads⟩ := searched
    have onceAsked : answer.2.downloads.Nodup := by
      rw [downloads]
      exact (orderPeers_nodup peers).sublist (sub.map peerKey)
    cases good : (orderPeers origin peers).find? (hasObject env origin hash) with
    | none =>
      obtain ⟨none, -, stored⟩ := unfound good
      rw [good] at someFirst
      refine ⟨⟨?_, ?_⟩, someFirst, onceAsked, ?_, ?_⟩
      · rintro ⟨replica, h⟩
        rw [none] at h
        cases h
      · rintro (present | ⟨-, p, h, -⟩)
        · exact absurd present absent
        · cases h
      · intro replica h
        rw [none] at h
        cases h
      · intro pair h
        rw [stored] at h
        cases h
    | some p =>
      obtain ⟨bytes, body, stored, met, missed⟩ := foundFirst p good
      rw [good] at someFirst
      have hashed : env.sha256 bytes = hash := by
        obtain ⟨-, -, -, -, -, -, -, hashed⟩ := body
        exact hashed
      have right : ∀ pair ∈ answer.2.stored, pair.1 = hash ∧ env.sha256 pair.2 = hash := by
        intro pair h
        rw [stored] at h
        obtain rfl := List.mem_singleton.mp h
        exact ⟨rfl, hashed⟩
      by_cases time : env.deadline (peerKey p) = .met
      · rw [met time]
        refine ⟨⟨fun _ => .inr ⟨named, p, rfl, time⟩, fun _ => ⟨_, rfl⟩⟩, someFirst, onceAsked, ?_, right⟩
        rintro replica ⟨⟩ -
        exact ⟨rfl, bytes, stored, rfl⟩
      · obtain ⟨error, h⟩ := missed time
        rw [h]
        refine ⟨⟨?_, ?_⟩, someFirst, onceAsked, fun _ h => (by cases h), right⟩
        · rintro ⟨replica, h⟩
          cases h
        · rintro (present | ⟨-, q, h, metQ⟩)
          · exact absurd present absent
          · cases h
            exact absurd metQ time

/-- The hash of the empty object. -/
def emptyHash : Text := "e3b0c44298fc1c149afbf4c8996fb92427ae41e4649b934ca495991b7852b855".toList

def objectHeaders : List (Text × Option Text) :=
  [("content-length".toList, some "0".toList),
    ("content-type".toList, some "application/octet-stream".toList),
    ("etag".toList, some ("\"sha256-".toList ++ (emptyHash ++ ['"']))),
    ("x-content-type-options".toList, some "nosniff".toList),
    ("cache-control".toList, some peerCacheControl),
    ("accept-ranges".toList, some "bytes".toList)]

/-- A fleet in which every peer but the ones at the given addresses has the empty object. -/
def fleetEnv (without slow : List Text) : Env where
  sha256 bytes := if bytes = [] then emptyHash else []
  isMime text := text = "application/octet-stream".toList
  statusText _ := []
  maxFileBytes := 100
  maxRequestBytes := 100
  headConcurrency := 8
  positive := by decide
  head endpoint := .answered ⟨if endpoint.1 ∈ without then 404 else 200, objectHeaders, []⟩
  get endpoint := .answered ⟨if endpoint.1 ∈ without then 404 else 200, objectHeaders, []⟩
  deadline endpoint := if endpoint.1 ∈ slow then .whileSettling else .met
  arrival window := window.reverse
  arrival_perm := List.reverse_perm
  firstLook := .missing
  lockFault := none
  lockedLook := .missing
  clientFault := none
  stagingFault _ _ := none
  persistFault _ := none

theorem fleetEnv_neverFails (without slow : List Text) : StoreNeverFails (fleetEnv without slow) :=
  ⟨fun _ h => (by cases h), rfl, fun _ h => (by cases h), rfl, fun _ _ => rfl, fun _ => rfl⟩

def peerAt (address : String) (runtimeId : Option Text) : AssetPeer :=
  ⟨address.toList, runtimeId, address.toList, "room".toList⟩

/-- The origin has lost the object, and a peer that passes its probe serves it. -/
theorem resolveGet_first_fallback :
    ∃ replica, (resolveGet (fleetEnv ["a".toList] []) "room".toList "github:1".toList "origin".toList
      emptyHash [peerAt "b" none, peerAt "a" (some "origin".toList)]).result = .ok replica :=
  (resolveGet_first (fleetEnv ["a".toList] []) (fleetEnv_neverFails _ _) "room".toList
    "github:1".toList "origin".toList emptyHash
    [peerAt "b" none, peerAt "a" (some "origin".toList)]).1.mpr
    (.inr ⟨by decide, peerAt "b" none, by decide +kernel, by decide +kernel⟩)

/-- The store takes longer with the body of the first peer than the time of the candidate; the
second peer is not asked any more, although it has the object and the store never fails. -/
theorem not_resolveGet_some :
    StoreNeverFails (fleetEnv [] ["a".toList]) ∧
      isExact "origin".toList (peerAt "b" (some "origin".toList)) = true ∧
      (fleetEnv [] ["a".toList]).deadline (peerKey (peerAt "b" (some "origin".toList))) = .met ∧
      (∃ bytes, ServesBody (fleetEnv [] ["a".toList]) emptyHash
        (peerAt "b" (some "origin".toList)) bytes) ∧
      ∀ replica, (resolveGet (fleetEnv [] ["a".toList]) "room".toList "github:1".toList
        "origin".toList emptyHash [peerAt "a" (some "origin".toList),
          peerAt "b" (some "origin".toList)]).result ≠ .ok replica := by
  have served : serves (fleetEnv [] ["a".toList]) emptyHash
      (peerAt "b" (some "origin".toList)) = true := by decide +kernel
  refine ⟨fleetEnv_neverFails _ _, by decide, by decide +kernel,
    ((serves_iff (fleetEnv_neverFails _ _) _ _).mp served).2, ?_⟩
  intro replica h
  have failed : (resolveGet (fleetEnv [] ["a".toList]) "room".toList "github:1".toList
      "origin".toList emptyHash [peerAt "a" (some "origin".toList),
        peerAt "b" (some "origin".toList)]).result.isOk = false := by decide +kernel
  rw [h] at failed
  cases failed

end Resolutions

end AssetResolution
