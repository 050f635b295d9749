import GitIM.AssetLifecycle
import GitIM.AssetAccounting

/-!
# A workspace has one life per token

What every critical section keeps of the registry, and what a call knows while it is under
way. A token that has been activated stays registered with its slot until it is revoked, as
long as no failed activation takes away an entry that another activation of the token uses.
-/

namespace AssetLifecycle

open TextLines Checked Runs AssetAccounting

section Invariant

variable (sh : Shared)

def root (slot : Nat) : Text := (sh.slots slot).canonicalRoot

def generationOf (root : Text) : Nat := (sh.states root).accounting.generation

def Valid (handle : Handle) : Prop := validateHandle sh handle = .ok ()

/-- Nothing that was obtained under the token is accepted any more. -/
def Stale (token : Nat) : Prop :=
  ∀ k ∈ sh.tickets, k.token = token →
    k.handle.store.generation < generationOf sh k.handle.root ∧
      k.kind ≠ .stager true ∧ k.kind ≠ .staged

def Inactive (token : Nat) : Prop := ∀ slot r, (sh.slots slot).active = some r → r.token ≠ token

/-- The phases in which a deactivation has claimed its slot. -/
def Phase.claims : Phase → Option Nat
  | .claimed s | .closed s | .idle s | .revoked s | .invalidated s _ | .taken s _ | .reopened s _
  | .unclaiming s _ => some s
  | _ => none

/-- The phases in which it has not yet taken the registration. -/
def Phase.owns : Phase → Option Nat
  | .claimed s | .closed s | .idle s | .revoked s | .invalidated s _ => some s
  | _ => none

def Phase.closes : Phase → Option Nat
  | .closed s | .idle s | .revoked s | .invalidated s _ | .taken s _ => some s
  | _ => none

def Phase.quiet : Phase → Option Nat
  | .idle s | .revoked s => some s
  | _ => none

/-- The phases of a deactivation that has revoked its token. -/
def Phase.revokes : Phase → Bool
  | .revoked _ | .invalidated _ _ | .taken _ _ | .reopened _ _ | .releasing _ _ | .dropping _ _
  | .sweeping _ _ => true
  | _ => false

/-- The answer that a call is about to give. -/
def Phase.verdict : Phase → Option Verdict
  | .invalidated _ a | .taken _ a | .reopened _ a | .releasing _ a | .dropping _ a
  | .sweeping _ a => some a
  | _ => none

def Phase.taking : Phase → Bool
  | .invalidated _ _ => true
  | _ => false

/-- The slot on which an activation has not yet been decided. -/
def Phase.pending : Phase → Option Nat
  | .waiting s | .opened s _ => some s
  | _ => none

def Request.activates : Request → Bool
  | .activateWorkspace _ _ _ => true
  | _ => false

/-- The slot that serves a request. -/
def Serves (slot token : Nat) (root' binding : Text) (handle : Handle) : Prop :=
  sh.tokens.lookup token = some slot ∧ root sh slot = root' ∧
    (sh.slots slot).active = some ⟨root', binding, token, handle⟩

/-- How far an answer that is owed has come. -/
def OwedAt (token : Nat) (root' binding : Text) : Phase → Prop
  | .start | .looking => (token, root', binding) ∈ sh.opened
  | .waiting slot => (token, root', binding) ∈ sh.opened ∧ ∃ h, Serves sh slot token root' binding h
  | .found slot h => (token, root', binding) ∈ sh.opened ∧ Serves sh slot token root' binding h
  | .done answer => ∃ h, answer = .ok (.store h)
  | _ => False

structure CallInv (c : Call) : Prop where
  slot : ∀ s, c.phase.slot = some s → s < sh.next ∧ sh.paths (root sh s) = some s
  claim : ∀ s, c.phase.claims = some s → (sh.slots s).deactivating = true
  owner : ∀ s, c.phase.owns = some s →
    ∃ r, (sh.slots s).active = some r ∧ r.token = c.request.token
  closing : ∀ s, c.phase.closes = some s → (sh.states (root sh s)).closing = true
  quiet : ∀ s, c.phase.quiet = some s → inflight sh (root sh s) = false
  revoked : c.request.deactivates = true → c.phase.revokes = true →
    sh.revoked c.request.token = true
  stale : c.phase.verdict = some (.ok true) →
    sh.revoked c.request.token = true ∧ Stale sh c.request.token ∧
      (c.phase.taking = false → Inactive sh c.request.token)
  pending : ∀ s, c.request.activates = true → c.phase.pending = some s →
    sh.revoked c.request.token = false → sh.tokens.lookup c.request.token = some s
  opened : ∀ s h, c.phase = .opened s h → (sh.slots s).locked = true ∧
    (sh.slots s).active = none ∧ (sh.slots s).deactivating = false ∧ h.root = root sh s ∧ Valid sh h
  target : ∀ s h t R b, c.phase = .opened s h → c.request = .activateWorkspace t R b → R = root sh s
  found : ∀ s h, c.phase = .found s h → sh.revoked c.request.token = false →
    ∃ r, (sh.slots s).active = some r ∧ r.token = c.request.token ∧ r.handle = h
  owed : c.since = true → ∃ t R b, c.request = .openRegisteredStore t R b ∧ OwedAt sh t R b c.phase

structure SharedInv : Prop where
  paths : ∀ R s, sh.paths R = some s → s < sh.next ∧ root sh s = R
  tokens : ∀ e ∈ sh.tokens, e.2 < sh.next ∧ sh.paths (root sh e.2) = some e.2
  active : ∀ s r, (sh.slots s).active = some r → s < sh.next ∧ r.requestedRoot = root sh s ∧
    r.handle.root = root sh s ∧ r.handle.store.generation ≤ generationOf sh (root sh s) ∧
    (sh.revoked r.token = false → sh.tokens.lookup r.token = some s ∧ Valid sh r.handle)
  unique : ∀ s r s' r', (sh.slots s).active = some r → (sh.slots s').active = some r' →
    r.token = r'.token → s = s'
  tickets : ∀ k ∈ sh.tickets, k.handle.store.generation ≤ generationOf sh k.handle.root ∧
    (∀ s r, (sh.slots s).active = some r → r.token = k.token → k.handle.root = root sh s) ∧
    (sh.revoked k.token = false → ∃ s r, (sh.slots s).active = some r ∧ r.token = k.token)
  gone : ∀ t ∈ sh.gone, sh.revoked t = true ∧ Stale sh t ∧ Inactive sh t
  opened : ∀ t R b, (t, R, b) ∈ sh.opened → sh.revoked t = false ∧
    ∃ s h, Serves sh s t R b h ∧ (sh.slots s).deactivating = false ∧ (sh.slots s).locked = false

/-- The slot that a call keeps to itself: it has claimed it, or it opens the store of it. -/
def Phase.exclusive : Phase → Option Nat
  | .opened s _ => some s
  | p => p.claims

structure Inv (s : Service) : Prop where
  shared : SharedInv s.shared
  calls : ∀ (i : Nat) c, s.calls[i]? = some c → CallInv s.shared c
  exclusive : ∀ (i j : Nat) c d slot, s.calls[i]? = some c → s.calls[j]? = some d → i ≠ j →
    c.phase.exclusive = some slot → d.phase.exclusive ≠ some slot
  still : ∀ o ∈ s.shared.opened, deactivating s o.1 = false

end Invariant

section Frames
variable {sh : Shared} {c d : Call} {t : Nat}

theorem revoke_revoked (u : Nat) (h : (revoke sh t).revoked u = false) :
    u ≠ t ∧ sh.revoked u = false := by
  simp only [revoke, Function.update_apply] at h
  split at h
  · cases h
  · rename_i hne
    exact ⟨hne, h⟩

theorem revoke_of_revoked (u : Nat) (h : sh.revoked u = true) : (revoke sh t).revoked u = true := by
  simp only [revoke, Function.update_apply]
  split
  · rfl
  · exact h

theorem revoke_self (sh : Shared) (t : Nat) : (revoke sh t).revoked t = true := by
  simp [revoke]

theorem CallInv.revoke (h : CallInv sh d) (t : Nat) : CallInv (revoke sh t) d :=
  { slot := h.slot
    claim := h.claim
    owner := h.owner
    closing := h.closing
    quiet := h.quiet
    revoked := fun hd hp => revoke_of_revoked _ (h.revoked hd hp)
    stale := fun ha => ⟨revoke_of_revoked _ (h.stale ha).1, (h.stale ha).2⟩
    pending := fun s ha hp hr => h.pending s ha hp (revoke_revoked _ hr).2
    opened := h.opened
    target := h.target
    found := fun s hd hp hr => h.found s hd hp (revoke_revoked _ hr).2
    owed := h.owed }

theorem SharedInv.revoke (h : SharedInv sh) (ht : ∀ o ∈ sh.opened, o.1 ≠ t) :
    SharedInv (revoke sh t) :=
  { paths := h.paths
    tokens := h.tokens
    active := fun s r hr => by
      obtain ⟨hlt, hreq, hroot, hgen, hreg⟩ := h.active s r hr
      exact ⟨hlt, hreq, hroot, hgen, fun hlive => hreg (revoke_revoked _ hlive).2⟩
    unique := h.unique
    tickets := fun k hk => by
      obtain ⟨hgen, hroot, hlive⟩ := h.tickets k hk
      exact ⟨hgen, hroot, fun hr => hlive (revoke_revoked _ hr).2⟩
    gone := fun u hu => ⟨revoke_of_revoked _ (h.gone u hu).1, (h.gone u hu).2⟩
    opened := fun u R b ho => by
      obtain ⟨hlive, hserves⟩ := h.opened u R b ho
      refine ⟨?_, hserves⟩
      simp only [AssetLifecycle.revoke, Function.update_apply]
      rw [if_neg (ht _ ho)]
      exact hlive }

/-- Taking the entry of a token out of the registry. -/
def deregister (sh : Shared) (t : Nat) : Shared :=
  { sh with tokens := sh.tokens.filter fun e => e.1 ≠ t }

theorem lookup_deregister {u : Nat} (hu : u ≠ t) :
    (deregister sh t).tokens.lookup u = sh.tokens.lookup u := by
  have h := FileTree.lookup_filter_key (fun x => x ≠ t) sh.tokens u
  rw [if_pos hu] at h
  exact h

/-- Nobody relies on the entry of a token that is revoked and owed nothing. -/
theorem OwedAt.deregister {u : Nat} {R b : Text} {p : Phase} (h : OwedAt sh u R b p)
    (ht : ∀ o ∈ sh.opened, o.1 ≠ t) : OwedAt (deregister sh t) u R b p := by
  cases p with
  | start | looking => exact h
  | waiting slot =>
    obtain ⟨hmem, handle, hlookup, hserves⟩ := h
    exact ⟨hmem, handle, (lookup_deregister (ht _ hmem)).trans hlookup, hserves⟩
  | found slot handle =>
    obtain ⟨hmem, hlookup, hserves⟩ := h
    exact ⟨hmem, (lookup_deregister (ht _ hmem)).trans hlookup, hserves⟩
  | done answer => exact h
  | _ => exact h.elim

theorem CallInv.deregister (h : CallInv sh d) (ht : ∀ o ∈ sh.opened, o.1 ≠ t)
    (hpending : d.request.activates = true → d.request.token = t → d.phase.pending ≠ none →
      sh.revoked t = false → False) : CallInv (deregister sh t) d :=
  { slot := h.slot
    claim := h.claim
    owner := h.owner
    closing := h.closing
    quiet := h.quiet
    revoked := h.revoked
    stale := h.stale
    pending := fun s ha hp hr => by
      by_cases hu : d.request.token = t
      · exact (hpending ha hu (by rw [hp]; exact Option.some_ne_none s) (hu ▸ hr)).elim
      · exact (lookup_deregister hu).trans (h.pending s ha hp hr)
    opened := h.opened
    target := h.target
    found := h.found
    owed := fun hs => by
      obtain ⟨u, R, b, hrequest, howed⟩ := h.owed hs
      exact ⟨u, R, b, hrequest, howed.deregister ht⟩ }

theorem SharedInv.deregister (h : SharedInv sh) (ht : ∀ o ∈ sh.opened, o.1 ≠ t)
    (hactive : ∀ s r, (sh.slots s).active = some r → r.token = t → sh.revoked t = true) :
    SharedInv (deregister sh t) :=
  { paths := h.paths
    tokens := fun e he => h.tokens e (List.mem_of_mem_filter he)
    active := fun s r hr => by
      obtain ⟨hlt, hreq, hroot, hgen, hreg⟩ := h.active s r hr
      refine ⟨hlt, hreq, hroot, hgen, fun hlive => ?_⟩
      have hu : r.token ≠ t := by
        intro hu
        have hrevoked := hactive s r hr hu
        have hlive' : sh.revoked r.token = false := hlive
        rw [hu, hrevoked] at hlive'
        cases hlive'
      exact ⟨(lookup_deregister hu).trans (hreg hlive).1, (hreg hlive).2⟩
    unique := h.unique
    tickets := h.tickets
    gone := h.gone
    opened := fun u R b ho => by
      obtain ⟨hlive, s, handle, ⟨hlookup, hserves⟩, hrest⟩ := h.opened u R b ho
      exact ⟨hlive, s, handle, ⟨(lookup_deregister (ht _ ho)).trans hlookup, hserves⟩, hrest⟩ }

theorem lookup_register {s u : Nat} (hnone : sh.tokens.lookup t = none)
    (h : sh.tokens.lookup u = some s) (slot : Nat) :
    (register sh t slot).tokens.lookup u = some s := by
  have hu : u ≠ t := by
    rintro rfl
    rw [hnone] at h
    cases h
  rw [register, FileTree.lookup_cons_ite, if_neg hu]
  exact h

theorem OwedAt.register {u slot : Nat} {R b : Text} {p : Phase} (h : OwedAt sh u R b p)
    (hnone : sh.tokens.lookup t = none) : OwedAt (register sh t slot) u R b p := by
  cases p with
  | start | looking => exact h
  | waiting s =>
    obtain ⟨hmem, handle, hlookup, hserves⟩ := h
    exact ⟨hmem, handle, lookup_register hnone hlookup slot, hserves⟩
  | found s handle =>
    obtain ⟨hmem, hlookup, hserves⟩ := h
    exact ⟨hmem, lookup_register hnone hlookup slot, hserves⟩
  | done answer => exact h
  | _ => exact h.elim

theorem CallInv.register (h : CallInv sh d) (hnone : sh.tokens.lookup t = none) (slot : Nat) :
    CallInv (register sh t slot) d :=
  { slot := h.slot
    claim := h.claim
    owner := h.owner
    closing := h.closing
    quiet := h.quiet
    revoked := h.revoked
    stale := h.stale
    pending := fun s ha hp hr => lookup_register hnone (h.pending s ha hp hr) slot
    opened := h.opened
    target := h.target
    found := h.found
    owed := fun hs => by
      obtain ⟨u, R, b, hrequest, howed⟩ := h.owed hs
      exact ⟨u, R, b, hrequest, howed.register hnone⟩ }

theorem SharedInv.register (h : SharedInv sh) (hnone : sh.tokens.lookup t = none) {slot : Nat}
    (hslot : slot < sh.next ∧ sh.paths (root sh slot) = some slot) :
    SharedInv (register sh t slot) :=
  { paths := h.paths
    tokens := fun e he => by
      rcases List.mem_cons.mp he with rfl | he
      · exact hslot
      · exact h.tokens e he
    active := fun s r hr => by
      obtain ⟨hlt, hreq, hroot, hgen, hreg⟩ := h.active s r hr
      exact ⟨hlt, hreq, hroot, hgen, fun hlive =>
        ⟨lookup_register hnone (hreg hlive).1 slot, (hreg hlive).2⟩⟩
    unique := h.unique
    tickets := h.tickets
    gone := h.gone
    opened := fun u R b ho => by
      obtain ⟨hlive, s, handle, ⟨hlookup, hserves⟩, hrest⟩ := h.opened u R b ho
      exact ⟨hlive, s, handle, ⟨lookup_register hnone hlookup slot, hserves⟩, hrest⟩ }

/-- A new slot, known by its path. -/
def allocate (sh : Shared) (path : Text) : Shared :=
  { setSlot sh sh.next (freshSlot path) with
    paths := Function.update sh.paths path (some sh.next)
    next := sh.next + 1 }

theorem allocate_slot {path : Text} {s : Nat} (h : s < sh.next) :
    (allocate sh path).slots s = sh.slots s :=
  Function.update_of_ne (Nat.ne_of_lt h) _ _

theorem allocate_root {path : Text} {s : Nat} (h : s < sh.next) :
    root (allocate sh path) s = root sh s := by
  rw [root, allocate_slot h]
  rfl

theorem allocate_active {path : Text} {s : Nat} {r : RegisteredWorkspace}
    (h : ((allocate sh path).slots s).active = some r) : (sh.slots s).active = some r ∧ s ≠ sh.next := by
  by_cases hs : s = sh.next
  · subst hs
    simp [allocate, setSlot, freshSlot] at h
  · rw [show (allocate sh path).slots s = sh.slots s from Function.update_of_ne hs _ _] at h
    exact ⟨h, hs⟩

theorem allocate_path {path : Text} {s : Nat} (h : s < sh.next ∧ sh.paths (root sh s) = some s)
    (hfree : sh.paths path ≠ some s) :
    s < (allocate sh path).next ∧
      (allocate sh path).paths (root (allocate sh path) s) = some s := by
  rw [allocate_root h.1]
  have hne : root sh s ≠ path := by
    intro heq
    exact hfree (heq ▸ h.2)
  exact ⟨Nat.lt_succ_of_lt h.1, (Function.update_of_ne hne _ _).trans h.2⟩

theorem OwedAt.allocate {u : Nat} {R b path : Text} {p : Phase} (h : OwedAt sh u R b p)
    (hslot : ∀ s, p.slot = some s → s < sh.next) : OwedAt (allocate sh path) u R b p := by
  cases p with
  | start | looking => exact h
  | waiting s =>
    obtain ⟨hmem, handle, hlookup, hroot, hactive⟩ := h
    have hlt := hslot s rfl
    exact ⟨hmem, handle, hlookup, (allocate_root hlt).trans hroot,
      (congrArg _ (allocate_slot hlt)).trans hactive⟩
  | found s handle =>
    obtain ⟨hmem, hlookup, hroot, hactive⟩ := h
    have hlt := hslot s rfl
    exact ⟨hmem, hlookup, (allocate_root hlt).trans hroot,
      (congrArg _ (allocate_slot hlt)).trans hactive⟩
  | done answer => exact h
  | _ => exact h.elim

/-- The phases that say something of a slot own it. -/
theorem Phase.revokes_of_verdict {p : Phase} {a : Verdict} (h : p.verdict = some a) :
    p.revokes = true := by
  cases p <;> first | rfl | cases h

theorem Phase.slot_of_claims {p : Phase} {s : Nat} (h : p.claims = some s) : p.slot = some s := by
  cases p <;> first | exact h | cases h

theorem Phase.claims_of_owns {p : Phase} {s : Nat} (h : p.owns = some s) : p.claims = some s := by
  cases p <;> first | exact h | cases h

theorem Phase.claims_of_closes {p : Phase} {s : Nat} (h : p.closes = some s) :
    p.claims = some s := by
  cases p <;> first | exact h | cases h

theorem Phase.closes_of_quiet {p : Phase} {s : Nat} (h : p.quiet = some s) :
    p.closes = some s := by
  cases p <;> first | exact h | cases h

theorem CallInv.allocate {path : Text} (h : CallInv sh d)
    (hfree : ∀ s, d.phase.slot = some s → sh.paths path ≠ some s) :
    CallInv (allocate sh path) d := by
  have hlt : ∀ s, d.phase.slot = some s → s < sh.next := fun s hs => (h.slot s hs).1
  have hclaims : ∀ s, d.phase.claims = some s → s < sh.next :=
    fun s hs => hlt s (Phase.slot_of_claims hs)
  have hcloses : ∀ s, d.phase.closes = some s → s < sh.next :=
    fun s hs => hclaims s (Phase.claims_of_closes hs)
  refine
    { slot := fun s hs => allocate_path (h.slot s hs) (hfree s hs)
      claim := fun s hs => ?_
      owner := fun s hs => ?_
      closing := fun s hs => ?_
      quiet := fun s hs => ?_
      revoked := h.revoked
      stale := fun ha => ?_
      pending := h.pending
      opened := fun s handle hp => ?_
      target := fun s handle u R b hp hrequest => ?_
      found := fun s handle hp hr => ?_
      owed := fun hs => ?_ }
  · rw [allocate_slot (hclaims s hs)]
    exact h.claim s hs
  · rw [allocate_slot (hclaims s (Phase.claims_of_owns hs))]
    exact h.owner s hs
  · rw [allocate_root (hcloses s hs)]
    exact h.closing s hs
  · rw [allocate_root (hcloses s (Phase.closes_of_quiet hs))]
    exact h.quiet s hs
  · obtain ⟨hrevoked, hstale, hinactive⟩ := h.stale ha
    exact ⟨hrevoked, hstale, fun htaking s r hr => hinactive htaking s r (allocate_active hr).1⟩
  · have hs : s < sh.next := hlt s (by rw [hp]; rfl)
    rw [allocate_slot hs, allocate_root hs]
    exact h.opened s handle hp
  · have hs : s < sh.next := hlt s (by rw [hp]; rfl)
    rw [allocate_root hs]
    exact h.target s handle u R b hp hrequest
  · have hs : s < sh.next := hlt s (by rw [hp]; rfl)
    rw [allocate_slot hs]
    exact h.found s handle hp hr
  · obtain ⟨u, R, b, hrequest, howed⟩ := h.owed hs
    exact ⟨u, R, b, hrequest, howed.allocate hlt⟩

theorem SharedInv.allocate {path : Text} (h : SharedInv sh)
    (hfree : ∀ e ∈ sh.tokens, sh.paths path ≠ some e.2) : SharedInv (allocate sh path) := by
  refine
    { paths := fun R s hs => ?_
      tokens := fun e he => allocate_path (h.tokens e he) (hfree e he)
      active := fun s r hr => ?_
      unique := fun s r s' r' hr hr' => h.unique s r s' r' (allocate_active hr).1 (allocate_active hr').1
      tickets := fun k hk => ?_
      gone := fun u hu => ?_
      opened := fun u R b ho => ?_ }
  · by_cases hR : R = path
    · subst hR
      have hs' : sh.next = s := by simpa [AssetLifecycle.allocate, setSlot] using hs
      subst hs'
      refine ⟨Nat.lt_succ_self _, ?_⟩
      simp [root, AssetLifecycle.allocate, setSlot, freshSlot]
    · have hs' : sh.paths R = some s := (Function.update_of_ne hR _ _).symm.trans hs
      obtain ⟨hlt, hroot⟩ := h.paths R s hs'
      exact ⟨Nat.lt_succ_of_lt hlt, (allocate_root hlt).trans hroot⟩
  · obtain ⟨hlt, hrest⟩ := h.active s r (allocate_active hr).1
    rw [allocate_root hlt]
    exact ⟨Nat.lt_succ_of_lt hlt, hrest⟩
  · obtain ⟨hgen, hroot, hlive⟩ := h.tickets k hk
    refine ⟨hgen, fun s r hr hu => ?_, fun hr => ?_⟩
    · have hactive := (allocate_active hr).1
      rw [allocate_root (h.active s r hactive).1]
      exact hroot s r hactive hu
    · obtain ⟨s, r, hactive, hu⟩ := hlive hr
      exact ⟨s, r, (congrArg _ (allocate_slot (h.active s r hactive).1)).trans hactive, hu⟩
  · obtain ⟨hrevoked, hstale, hinactive⟩ := h.gone u hu
    exact ⟨hrevoked, hstale, fun s r hr => hinactive s r (allocate_active hr).1⟩
  · obtain ⟨hlive, s, handle, ⟨hlookup, hroot, hactive⟩, hrest⟩ := h.opened u R b ho
    have hlt := (h.active s _ hactive).1
    refine ⟨hlive, s, handle, ⟨hlookup, (allocate_root hlt).trans hroot,
      (congrArg _ (allocate_slot hlt)).trans hactive⟩, ?_⟩
    rw [allocate_slot hlt]
    exact hrest

/-- Taking out the entry of a path whose slot is gone. -/
def forgetPath (sh : Shared) (path : Text) : Shared :=
  { sh with paths := Function.update sh.paths path none }

theorem forgetPath_path {path : Text} {s : Nat} (h : s < sh.next ∧ sh.paths (root sh s) = some s)
    (hfree : sh.paths path ≠ some s) :
    s < (forgetPath sh path).next ∧
      (forgetPath sh path).paths (root (forgetPath sh path) s) = some s := by
  have hne : root sh s ≠ path := by
    intro heq
    exact hfree (heq ▸ h.2)
  exact ⟨h.1, (Function.update_of_ne hne _ _).trans h.2⟩

theorem CallInv.forgetPath {path : Text} (h : CallInv sh d)
    (hfree : ∀ s, d.phase.slot = some s → sh.paths path ≠ some s) : CallInv (forgetPath sh path) d :=
  { slot := fun s hs => forgetPath_path (h.slot s hs) (hfree s hs)
    claim := h.claim
    owner := h.owner
    closing := h.closing
    quiet := h.quiet
    revoked := h.revoked
    stale := h.stale
    pending := h.pending
    opened := h.opened
    target := h.target
    found := h.found
    owed := h.owed }

theorem SharedInv.forgetPath {path : Text} (h : SharedInv sh)
    (hfree : ∀ e ∈ sh.tokens, sh.paths path ≠ some e.2) : SharedInv (forgetPath sh path) :=
  { paths := fun R s hs => by
      by_cases hR : R = path
      · subst hR
        simp [AssetLifecycle.forgetPath] at hs
      · exact h.paths R s ((Function.update_of_ne hR _ _).symm.trans hs)
    tokens := fun e he => forgetPath_path (h.tokens e he) (hfree e he)
    active := h.active
    unique := h.unique
    tickets := h.tickets
    gone := h.gone
    opened := h.opened }

end Frames

section Slots
variable {sh : Shared} {c d : Call} {slot : Nat} {v : WorkspaceLifecycleSlot}

theorem setSlot_self (sh : Shared) (slot : Nat) (v : WorkspaceLifecycleSlot) :
    (setSlot sh slot v).slots slot = v := by
  simp [setSlot]

theorem setSlot_of_ne {s : Nat} (h : s ≠ slot) : (setSlot sh slot v).slots s = sh.slots s :=
  Function.update_of_ne h _ _

theorem setSlot_root (hroot : v.canonicalRoot = root sh slot) (s : Nat) :
    root (setSlot sh slot v) s = root sh s := by
  by_cases hs : s = slot
  · subst hs
    rw [root, setSlot_self]
    exact hroot
  · rw [root, setSlot_of_ne hs]
    rfl

/-- What may be done to a slot whose registration others rely on: it stays as long as its token is
not revoked, and what is new is registered for a token that is not revoked. -/
structure SlotStep (sh : Shared) (slot : Nat) (v : WorkspaceLifecycleSlot) : Prop where
  root : v.canonicalRoot = root sh slot
  keep : ∀ r, (sh.slots slot).active = some r → sh.revoked r.token = false → v.active = some r
  new : ∀ r, v.active = some r → (sh.slots slot).active = some r ∨ sh.revoked r.token = false

theorem SlotStep.active (hstep : SlotStep sh slot v) {s : Nat} {r : RegisteredWorkspace}
    (h : (sh.slots s).active = some r) (hr : sh.revoked r.token = false) :
    ((setSlot sh slot v).slots s).active = some r := by
  by_cases hs : s = slot
  · subst hs
    rw [setSlot_self]
    exact hstep.keep r h hr
  · rw [setSlot_of_ne hs]
    exact h

theorem SlotStep.active_of (hstep : SlotStep sh slot v) {s : Nat} {r : RegisteredWorkspace}
    (h : ((setSlot sh slot v).slots s).active = some r) :
    (sh.slots s).active = some r ∨ s = slot ∧ v.active = some r ∧ sh.revoked r.token = false := by
  by_cases hs : s = slot
  · subst hs
    rw [setSlot_self] at h
    rcases hstep.new r h with hold | hnew
    · exact .inl hold
    · exact .inr ⟨rfl, h, hnew⟩
  · rw [setSlot_of_ne hs] at h
    exact .inl h

theorem SlotStep.inactive (hstep : SlotStep sh slot v) {t : Nat} (ht : sh.revoked t = true)
    (h : Inactive sh t) : Inactive (setSlot sh slot v) t := by
  intro s r hr
  rcases hstep.active_of hr with hold | ⟨-, -, hnew⟩
  · exact h s r hold
  · intro hu
    rw [hu, ht] at hnew
    cases hnew

theorem SlotStep.serves (hstep : SlotStep sh slot v) {s t : Nat} {R b : Text} {handle : Handle}
    (ht : sh.revoked t = false) (h : Serves sh s t R b handle) :
    Serves (setSlot sh slot v) s t R b handle :=
  ⟨h.1, (setSlot_root hstep.root s).trans h.2.1, hstep.active h.2.2 ht⟩

theorem OwedAt.setSlot {u : Nat} {R b : Text} {p : Phase} (hstep : SlotStep sh slot v)
    (hlive : ∀ o ∈ sh.opened, sh.revoked o.1 = false) (h : OwedAt sh u R b p) :
    OwedAt (setSlot sh slot v) u R b p := by
  cases p with
  | start | looking => exact h
  | waiting s =>
    obtain ⟨hmem, handle, hserves⟩ := h
    exact ⟨hmem, handle, hstep.serves (hlive _ hmem) hserves⟩
  | found s handle =>
    obtain ⟨hmem, hserves⟩ := h
    exact ⟨hmem, hstep.serves (hlive _ hmem) hserves⟩
  | done answer => exact h
  | _ => exact h.elim

theorem Phase.exclusive_of_claims {p : Phase} {s : Nat} (h : p.claims = some s) :
    p.exclusive = some s := by
  cases p <;> first | exact h | cases h

/-- What a call knows does not depend on slots that it has not to itself. -/
theorem CallInv.setSlot (h : CallInv sh d) (hstep : SlotStep sh slot v)
    (hlive : ∀ o ∈ sh.opened, sh.revoked o.1 = false)
    (hexcl : d.phase.exclusive ≠ some slot) : CallInv (setSlot sh slot v) d := by
  have hclaims : ∀ s, d.phase.claims = some s → s ≠ slot := by
    rintro s hs rfl
    exact hexcl (Phase.exclusive_of_claims hs)
  refine
    { slot := fun s hs => ?_
      claim := fun s hs => ?_
      owner := fun s hs => ?_
      closing := fun s hs => ?_
      quiet := fun s hs => ?_
      revoked := h.revoked
      stale := fun ha => ?_
      pending := h.pending
      opened := fun s handle hp => ?_
      target := fun s handle u R b hp hrequest => ?_
      found := fun s handle hp hr => ?_
      owed := fun hs => ?_ }
  · rw [setSlot_root hstep.root]
    exact h.slot s hs
  · rw [setSlot_of_ne (hclaims s hs)]
    exact h.claim s hs
  · rw [setSlot_of_ne (hclaims s (Phase.claims_of_owns hs))]
    exact h.owner s hs
  · rw [setSlot_root hstep.root]
    exact h.closing s hs
  · rw [setSlot_root hstep.root]
    exact h.quiet s hs
  · obtain ⟨hrevoked, hstale, hinactive⟩ := h.stale ha
    exact ⟨hrevoked, hstale, fun htaking => hstep.inactive hrevoked (hinactive htaking)⟩
  · have hs : s ≠ slot := by
      rintro rfl
      exact hexcl (by rw [hp]; rfl)
    rw [setSlot_of_ne hs, setSlot_root hstep.root]
    exact h.opened s handle hp
  · rw [setSlot_root hstep.root]
    exact h.target s handle u R b hp hrequest
  · obtain ⟨r, hactive, hu, hr'⟩ := h.found s handle hp hr
    exact ⟨r, hstep.active hactive (hu ▸ hr), hu, hr'⟩
  · obtain ⟨u, R, b, hrequest, howed⟩ := h.owed hs
    exact ⟨u, R, b, hrequest, howed.setSlot hstep hlive⟩

/-- A registration that is new to its slot. -/
structure Admits (sh : Shared) (slot : Nat) (r : RegisteredWorkspace) : Prop where
  next : slot < sh.next
  requested : r.requestedRoot = root sh slot
  handle : r.handle.root = root sh slot
  generation : r.handle.store.generation ≤ generationOf sh (root sh slot)
  registered : sh.tokens.lookup r.token = some slot
  valid : Valid sh r.handle
  inactive : Inactive sh r.token
  tickets : ∀ k ∈ sh.tickets, k.token ≠ r.token

theorem SharedInv.setSlot (h : SharedInv sh) (hstep : SlotStep sh slot v)
    (hadmitted : ∀ r, v.active = some r → (sh.slots slot).active ≠ some r → Admits sh slot r)
    (hopen : ∀ u R b handle, (u, R, b) ∈ sh.opened → Serves sh slot u R b handle →
      v.deactivating = false ∧ v.locked = false) : SharedInv (setSlot sh slot v) := by
  have hcases : ∀ s r, ((AssetLifecycle.setSlot sh slot v).slots s).active = some r →
      (sh.slots s).active = some r ∨ s = slot ∧ Admits sh slot r := by
    intro s r hr
    by_cases hold : (sh.slots s).active = some r
    · exact .inl hold
    · rcases hstep.active_of hr with hold' | ⟨rfl, hv, -⟩
      · exact .inl hold'
      · exact .inr ⟨rfl, hadmitted r hv hold⟩
  refine
    { paths := fun R s hs => ?_
      tokens := fun e he => ?_
      active := fun s r hr => ?_
      unique := fun s r s' r' hr hr' hu => ?_
      tickets := fun k hk => ?_
      gone := fun u hu => ?_
      opened := fun u R b ho => ?_ }
  · rw [setSlot_root hstep.root]
    exact h.paths R s hs
  · rw [setSlot_root hstep.root]
    exact h.tokens e he
  · rw [setSlot_root hstep.root]
    rcases hcases s r hr with hold | ⟨rfl, hnew⟩
    · exact h.active s r hold
    · exact ⟨hnew.next, hnew.requested, hnew.handle, hnew.generation, fun _ =>
        ⟨hnew.registered, hnew.valid⟩⟩
  · rcases hcases s r hr with hold | ⟨rfl, hnew⟩
    · rcases hcases s' r' hr' with hold' | ⟨rfl, hnew'⟩
      · exact h.unique s r s' r' hold hold' hu
      · exact (hnew'.inactive s r hold hu).elim
    · rcases hcases s' r' hr' with hold' | ⟨rfl, hnew'⟩
      · exact (hnew.inactive s' r' hold' hu.symm).elim
      · rfl
  · obtain ⟨hgen, hroot, hlive⟩ := h.tickets k hk
    refine ⟨hgen, fun s r hr hu => ?_, fun hr => ?_⟩
    · rw [setSlot_root hstep.root]
      rcases hcases s r hr with hold | ⟨rfl, hnew⟩
      · exact hroot s r hold hu
      · exact (hnew.tickets k hk hu.symm).elim
    · obtain ⟨s, r, hactive, hu⟩ := hlive hr
      exact ⟨s, r, hstep.active hactive (hu ▸ hr), hu⟩
  · obtain ⟨hrevoked, hstale, hinactive⟩ := h.gone u hu
    exact ⟨hrevoked, hstale, hstep.inactive hrevoked hinactive⟩
  · obtain ⟨hlive, s, handle, hserves, hflags⟩ := h.opened u R b ho
    refine ⟨hlive, s, handle, hstep.serves hlive hserves, ?_⟩
    by_cases hs : s = slot
    · subst hs
      obtain ⟨hd, hl⟩ := hopen u R b handle ho hserves
      rw [setSlot_self]
      exact ⟨hd, hl⟩
    · rw [setSlot_of_ne hs]
      exact hflags

end Slots

section States
variable {sh : Shared} {d : Call} {R : Text}

def setAccounting (sh : Shared) (R : Text) (acc : AccountingState) : Shared :=
  setState sh R { sh.states R with accounting := acc }

variable {acc : AccountingState}

theorem setState_self (sh : Shared) (R : Text) (st : StoreState) :
    (setState sh R st).states R = st := by
  simp [setState]

theorem setState_of_ne {st : StoreState} {R' : Text} (h : R' ≠ R) :
    (setState sh R st).states R' = sh.states R' :=
  Function.update_of_ne h _ _

theorem setAccounting_closing (R' : Text) :
    ((setAccounting sh R acc).states R').closing = (sh.states R').closing := by
  by_cases h : R' = R
  · subst h
    rw [setAccounting, setState_self]
  · rw [setAccounting, setState_of_ne h]

theorem setAccounting_generation (hgen : generationOf sh R ≤ acc.generation) (R' : Text) :
    generationOf sh R' ≤ generationOf (setAccounting sh R acc) R' := by
  by_cases h : R' = R
  · subst h
    rw [setAccounting, generationOf, generationOf, setState_self]
    exact hgen
  · rw [setAccounting, generationOf, generationOf, setState_of_ne h]

theorem setAccounting_valid {handle : Handle} (hne : handle.root ≠ R) (h : Valid sh handle) :
    Valid (setAccounting sh R acc) handle := by
  rw [Valid, validateHandle, setAccounting, setState_of_ne hne]
  exact h

theorem setAccounting_stale (hgen : generationOf sh R ≤ acc.generation) {t : Nat}
    (h : Stale sh t) : Stale (setAccounting sh R acc) t := by
  intro k hk hu
  obtain ⟨hlt, hkind⟩ := h k hk hu
  exact ⟨hlt.trans_le (setAccounting_generation hgen _), hkind⟩

/-- The accounts of a store change behind everybody's back only if nobody relies on them. -/
theorem CallInv.setAccounting (h : CallInv sh d) (hgen : generationOf sh R ≤ acc.generation)
    (hopened : ∀ s handle, d.phase = .opened s handle → root sh s ≠ R) :
    CallInv (setAccounting sh R acc) d :=
  { slot := h.slot
    claim := h.claim
    owner := h.owner
    closing := fun s hs => (setAccounting_closing _).trans (h.closing s hs)
    quiet := h.quiet
    revoked := h.revoked
    stale := fun ha => by
      obtain ⟨hrevoked, hstale, hinactive⟩ := h.stale ha
      exact ⟨hrevoked, setAccounting_stale hgen hstale, hinactive⟩
    pending := h.pending
    opened := fun s handle hp => by
      obtain ⟨hlocked, hactive, hdeactivating, hroot, hvalid⟩ := h.opened s handle hp
      have hne : handle.root ≠ R := hroot ▸ hopened s handle hp
      exact ⟨hlocked, hactive, hdeactivating, hroot, setAccounting_valid hne hvalid⟩
    target := h.target
    found := h.found
    owed := h.owed }

theorem SharedInv.setAccounting (h : SharedInv sh) (hgen : generationOf sh R ≤ acc.generation)
    (hdead : ∀ s r, (sh.slots s).active = some r → root sh s = R → sh.revoked r.token = true) :
    SharedInv (setAccounting sh R acc) :=
  { paths := h.paths
    tokens := h.tokens
    active := fun s r hr => by
      obtain ⟨hlt, hreq, hroot, hle, hreg⟩ := h.active s r hr
      refine ⟨hlt, hreq, hroot, hle.trans (setAccounting_generation hgen _), fun hlive => ?_⟩
      have hne : r.handle.root ≠ R := by
        intro hR
        have hrevoked : sh.revoked r.token = true := hdead s r hr (hroot.symm.trans hR)
        have hlive' : sh.revoked r.token = false := hlive
        rw [hrevoked] at hlive'
        cases hlive'
      exact ⟨(hreg hlive).1, setAccounting_valid hne (hreg hlive).2⟩
    unique := h.unique
    tickets := fun k hk => by
      obtain ⟨hle, hrest⟩ := h.tickets k hk
      exact ⟨hle.trans (setAccounting_generation hgen _), hrest⟩
    gone := fun u hu => by
      obtain ⟨hrevoked, hstale, hinactive⟩ := h.gone u hu
      exact ⟨hrevoked, setAccounting_stale hgen hstale, hinactive⟩
    opened := h.opened }

theorem setClosing_accounting (flag : Bool) (R' : Text) :
    ((setClosing sh R flag).states R').accounting = (sh.states R').accounting := by
  by_cases h : R' = R
  · subst h
    rw [setClosing, setState_self]
  · rw [setClosing, setState_of_ne h]

theorem setClosing_generation (flag : Bool) (R' : Text) :
    generationOf (setClosing sh R flag) R' = generationOf sh R' := by
  rw [generationOf, setClosing_accounting]
  rfl

theorem setClosing_valid {flag : Bool} {handle : Handle} (h : Valid sh handle) :
    Valid (setClosing sh R flag) handle := by
  rw [Valid, validateHandle, setClosing_accounting]
  exact h

theorem setClosing_stale {flag : Bool} {t : Nat} (h : Stale sh t) :
    Stale (setClosing sh R flag) t := by
  intro k hk hu
  rw [setClosing_generation]
  exact h k hk hu

theorem CallInv.setClosing {flag : Bool} (h : CallInv sh d)
    (hcloses : ∀ s, d.phase.closes = some s → root sh s = R → flag = true) :
    CallInv (setClosing sh R flag) d :=
  { slot := h.slot
    claim := h.claim
    owner := h.owner
    closing := fun s hs => by
      by_cases hR : root sh s = R
      · have hroot : root (AssetLifecycle.setClosing sh R flag) s = R := hR
        rw [hroot, AssetLifecycle.setClosing, setState_self]
        exact hcloses s hs hR
      · exact (congrArg _ (setState_of_ne hR)).trans (h.closing s hs)
    quiet := h.quiet
    revoked := h.revoked
    stale := fun ha => by
      obtain ⟨hrevoked, hstale, hinactive⟩ := h.stale ha
      exact ⟨hrevoked, setClosing_stale hstale, hinactive⟩
    pending := h.pending
    opened := fun s handle hp => by
      obtain ⟨hlocked, hactive, hdeactivating, hroot, hvalid⟩ := h.opened s handle hp
      exact ⟨hlocked, hactive, hdeactivating, hroot, setClosing_valid hvalid⟩
    target := h.target
    found := h.found
    owed := h.owed }

theorem SharedInv.setClosing {flag : Bool} (h : SharedInv sh) : SharedInv (setClosing sh R flag) :=
  { paths := h.paths
    tokens := h.tokens
    active := fun s r hr => by
      rw [setClosing_generation]
      obtain ⟨hlt, hreq, hroot, hgen, hreg⟩ := h.active s r hr
      exact ⟨hlt, hreq, hroot, hgen, fun hlive => ⟨(hreg hlive).1, setClosing_valid (hreg hlive).2⟩⟩
    unique := h.unique
    tickets := fun k hk => by
      rw [setClosing_generation]
      exact h.tickets k hk
    gone := fun u hu => by
      obtain ⟨hrevoked, hstale, hinactive⟩ := h.gone u hu
      exact ⟨hrevoked, setClosing_stale hstale, hinactive⟩
    opened := h.opened }

end States

section TicketFrames
variable {sh : Shared} {d : Call} {tickets : List Ticket}

def withTickets (sh : Shared) (tickets : List Ticket) : Shared := { sh with tickets := tickets }

/-- A ticket that may be handed out. -/
structure Issued (sh : Shared) (k : Ticket) : Prop where
  generation : k.handle.store.generation ≤ generationOf sh k.handle.root
  root : ∀ s r, (sh.slots s).active = some r → r.token = k.token → k.handle.root = root sh s
  live : sh.revoked k.token = false → ∃ s r, (sh.slots s).active = some r ∧ r.token = k.token
  stale : Stale sh k.token → sh.revoked k.token = true →
    k.handle.store.generation < generationOf sh k.handle.root ∧
      k.kind ≠ .stager true ∧ k.kind ≠ .staged
  lease : k.kind.leases = true → (sh.states k.handle.root).closing = true →
    ∃ k' ∈ sh.tickets, k'.handle.root = k.handle.root ∧ k'.kind.leases = true

theorem withTickets_stale (hissued : ∀ k ∈ tickets, k ∈ sh.tickets ∨ Issued sh k) {t : Nat}
    (ht : sh.revoked t = true) (h : Stale sh t) : Stale (withTickets sh tickets) t := by
  intro k hk hu
  rcases hissued k hk with hold | hnew
  · exact h k hold hu
  · exact hnew.stale (hu ▸ h) (hu ▸ ht)

theorem CallInv.withTickets (h : CallInv sh d)
    (hissued : ∀ k ∈ tickets, k ∈ sh.tickets ∨ Issued sh k) : CallInv (withTickets sh tickets) d :=
  { slot := h.slot
    claim := h.claim
    owner := h.owner
    closing := h.closing
    quiet := fun s hs => by
      have hquiet := h.quiet s hs
      have hclosing := h.closing s (Phase.closes_of_quiet hs)
      simp only [inflight, List.any_eq_false, decide_eq_true_eq, not_and] at hquiet ⊢
      intro k hk hroot hlease
      rcases hissued k hk with hold | hnew
      · exact hquiet k hold hroot hlease
      · have hroot' : k.handle.root = root sh s := hroot
        obtain ⟨k', hk', hsame, hlease'⟩ := hnew.lease hlease (hroot' ▸ hclosing)
        exact hquiet k' hk' (hsame.trans hroot') hlease'
    revoked := h.revoked
    stale := fun ha => by
      obtain ⟨hrevoked, hstale, hinactive⟩ := h.stale ha
      exact ⟨hrevoked, withTickets_stale hissued hrevoked hstale, hinactive⟩
    pending := h.pending
    opened := h.opened
    target := h.target
    found := h.found
    owed := h.owed }

theorem SharedInv.withTickets (h : SharedInv sh)
    (hissued : ∀ k ∈ tickets, k ∈ sh.tickets ∨ Issued sh k) : SharedInv (withTickets sh tickets) :=
  { paths := h.paths
    tokens := h.tokens
    active := h.active
    unique := h.unique
    tickets := fun k hk => by
      rcases hissued k hk with hold | hnew
      · exact h.tickets k hold
      · exact ⟨hnew.generation, hnew.root, hnew.live⟩
    gone := fun u hu => by
      obtain ⟨hrevoked, hstale, hinactive⟩ := h.gone u hu
      exact ⟨hrevoked, withTickets_stale hissued hrevoked hstale, hinactive⟩
    opened := h.opened }

/-- More answers on record. -/
def withOpened (sh : Shared) (opened : List (Nat × Text × Text)) : Shared :=
  { sh with opened := opened }

theorem OwedAt.withOpened {opened : List (Nat × Text × Text)} {u : Nat} {R b : Text} {p : Phase}
    (hsub : ∀ o ∈ sh.opened, o ∈ opened) (h : OwedAt sh u R b p) :
    OwedAt (withOpened sh opened) u R b p := by
  cases p with
  | start | looking => exact hsub _ h
  | waiting s => exact ⟨hsub _ h.1, h.2⟩
  | found s handle => exact ⟨hsub _ h.1, h.2⟩
  | done answer => exact h
  | _ => exact h.elim

theorem CallInv.withOpened {opened : List (Nat × Text × Text)} (h : CallInv sh d)
    (hsub : ∀ o ∈ sh.opened, o ∈ opened) : CallInv (withOpened sh opened) d :=
  { slot := h.slot
    claim := h.claim
    owner := h.owner
    closing := h.closing
    quiet := h.quiet
    revoked := h.revoked
    stale := h.stale
    pending := h.pending
    opened := h.opened
    target := h.target
    found := h.found
    owed := fun hs => by
      obtain ⟨u, R, b, hrequest, howed⟩ := h.owed hs
      exact ⟨u, R, b, hrequest, howed.withOpened hsub⟩ }

end TicketFrames

section Moves
variable {s : Service} {i : Nat} {c : Call} {sh : Shared} {p : Phase}

theorem deactivating_withCall (hi : s.calls[i]? = some c) (hc : c.phase.isDone = false) {t : Nat}
    (h : deactivating s t = false) : deactivating (withCall s i c (sh, p)) t = false := by
  simp only [deactivating, List.any_eq_false, decide_eq_true_eq] at h ⊢
  intro d hd
  rcases List.mem_or_eq_of_mem_set hd with hd | rfl
  · exact h d hd
  · rintro ⟨htoken, hdeactivates, -⟩
    exact h c (List.mem_of_getElem? hi) ⟨htoken, hdeactivates, hc⟩

/-- One call moves; the others keep what they know. -/
theorem Inv.withCall (hinv : Inv s) (hi : s.calls[i]? = some c) (hc : c.phase.isDone = false)
    (hshared : SharedInv sh) (hself : CallInv sh { c with phase := p })
    (hothers : ∀ j d, j ≠ i → s.calls[j]? = some d → CallInv sh d)
    (hexcl : ∀ slot, p.exclusive = some slot → c.phase.exclusive = some slot ∨
      ∀ j d, j ≠ i → s.calls[j]? = some d → d.phase.exclusive ≠ some slot)
    (hstill : ∀ o ∈ sh.opened, deactivating s o.1 = false) : Inv (withCall s i c (sh, p)) := by
  have hlt : i < s.calls.length := (List.getElem?_eq_some_iff.mp hi).1
  have hget : ∀ j d, (AssetLifecycle.withCall s i c (sh, p)).calls[j]? = some d →
      j = i ∧ d = { c with phase := p } ∨ j ≠ i ∧ s.calls[j]? = some d := by
    intro j d hd
    by_cases hj : j = i
    · subst hj
      have heq : some { c with phase := p } = some d :=
        (List.getElem?_set_self hlt).symm.trans hd
      exact .inl ⟨rfl, (Option.some.inj heq).symm⟩
    · exact .inr ⟨hj, (List.getElem?_set_ne (Ne.symm hj)).symm.trans hd⟩
  have hmine : ∀ slot, p.exclusive = some slot → ∀ j d, j ≠ i → s.calls[j]? = some d →
      d.phase.exclusive ≠ some slot := by
    intro slot hslot j d hj hd
    rcases hexcl slot hslot with hold | hnew
    · exact hinv.exclusive i j c d slot hi hd (Ne.symm hj) hold
    · exact hnew j d hj hd
  refine ⟨hshared, ?_, ?_, ?_⟩
  · intro j d hd
    rcases hget j d hd with ⟨-, rfl⟩ | ⟨hj, hd⟩
    · exact hself
    · exact hothers j d hj hd
  · intro j k d e slot hd he hjk hslot
    rcases hget j d hd with ⟨rfl, rfl⟩ | ⟨hj, hd⟩
    · rcases hget k e he with ⟨rfl, -⟩ | ⟨hk, he⟩
      · exact (hjk rfl).elim
      · exact hmine slot hslot k e hk he
    · rcases hget k e he with ⟨hk, rfl⟩ | ⟨hk, he⟩
      · intro hcontra
        exact hmine slot hcontra j d hj hd hslot
      · exact hinv.exclusive j k d e slot hd he hjk hslot
  · intro o ho
    exact deactivating_withCall hi hc (hstill o ho)

/-- A move that touches nothing but the call itself. -/
theorem Inv.move (hinv : Inv s) (hi : s.calls[i]? = some c) (hc : c.phase.isDone = false)
    (hself : CallInv s.shared { c with phase := p })
    (hexcl : ∀ slot, p.exclusive = some slot → c.phase.exclusive = some slot) :
    Inv (AssetLifecycle.withCall s i c (s.shared, p)) :=
  hinv.withCall hi hc hinv.shared hself (fun j d _ hd => hinv.calls j d hd)
    (fun slot hslot => .inl (hexcl slot hslot)) hinv.still

/-- What there is to know of a call that has not claimed a slot, opened a store or found one. -/
theorem CallInv.plain (hp : p.exclusive = none) (hfound : ∀ s h, p ≠ .found s h)
    (hslot : ∀ s, p.slot = some s → s < sh.next ∧ sh.paths (root sh s) = some s)
    (hrevoked : c.request.deactivates = true → p.revokes = true →
      sh.revoked c.request.token = true)
    (hstale : p.verdict = some (.ok true) →
      sh.revoked c.request.token = true ∧ Stale sh c.request.token ∧ Inactive sh c.request.token)
    (hpending : ∀ s, c.request.activates = true → p.pending = some s →
      sh.revoked c.request.token = false → sh.tokens.lookup c.request.token = some s)
    (howed : c.since = true →
      ∃ t R b, c.request = .openRegisteredStore t R b ∧ OwedAt sh t R b p) :
    CallInv sh { c with phase := p } := by
  have hclaims : ∀ s, p.claims ≠ some s := by
    intro s hs
    rw [Phase.exclusive_of_claims hs] at hp
    cases hp
  have hopened : ∀ s h, p ≠ .opened s h := by
    rintro s h rfl
    cases hp
  exact
    { slot := hslot
      claim := fun s hs => (hclaims s hs).elim
      owner := fun s hs => (hclaims s (Phase.claims_of_owns hs)).elim
      closing := fun s hs => (hclaims s (Phase.claims_of_closes hs)).elim
      quiet := fun s hs => (hclaims s (Phase.claims_of_closes (Phase.closes_of_quiet hs))).elim
      revoked := hrevoked
      stale := fun ha => by
        obtain ⟨h, hs, hi⟩ := hstale ha
        exact ⟨h, hs, fun _ => hi⟩
      pending := hpending
      opened := fun s h hs => (hopened s h hs).elim
      target := fun s h _ _ _ hs => (hopened s h hs).elim
      found := fun s h hs => (hfound s h hs).elim
      owed := howed }

end Moves

section Cleanup
variable {s : Service} {i : Nat} {c : Call}

/-- A failed activation takes away the entry of its token only if no other activation of the token
uses the slot. -/
def KeepsEntry (s : Service) (i : Nat) (c : Call) : Prop :=
  match c.phase with
  | .releasing slot _ =>
    c.request.deactivates = false → s.shared.tokens.lookup c.request.token = some slot →
      (∀ r ∈ (s.shared.slots slot).active, r.token ≠ c.request.token) ∧
        ∀ other ∈ s.calls.zipIdx, other.2 ≠ i → other.1.request.activates = true →
          other.1.request.token = c.request.token → other.1.phase.pending ≠ some slot
  | _ => True

/-- A registered store is not given out again under a revoked token. -/
def KeepsRevoked (s : Service) (c : Call) : Prop :=
  match c.request, c.phase with
  | .activateWorkspace token root binding, .waiting slot =>
    ∀ r ∈ (s.shared.slots slot).active, r.serves token root binding = true →
      s.shared.revoked token = false
  | _, _ => True

theorem Inv.not_opened (hinv : Inv s) (hi : s.calls[i]? = some c)
    (hd : c.request.deactivates = true) (hc : c.phase.isDone = false) :
    ∀ o ∈ s.shared.opened, o.1 ≠ c.request.token := by
  intro o ho htoken
  have hstill := hinv.still o ho
  simp only [deactivating, List.any_eq_false, decide_eq_true_eq] at hstill
  exact hstill c (List.mem_of_getElem? hi) ⟨htoken.symm, hd, hc⟩

theorem keeps_releasing {slot : Nat} {verdict : Verdict} (hkeeps : KeepsEntry s i c)
    (hphase : c.phase = .releasing slot verdict) (hd : c.request.deactivates = false)
    (hlookup : s.shared.tokens.lookup c.request.token = some slot) :
    (∀ r, (s.shared.slots slot).active = some r → r.token ≠ c.request.token) ∧
      ∀ j d, j ≠ i → s.calls[j]? = some d → d.request.activates = true →
        d.request.token = c.request.token → d.phase.pending ≠ some slot := by
  rw [KeepsEntry, hphase] at hkeeps
  obtain ⟨hactive, hothers⟩ := hkeeps hd hlookup
  refine ⟨hactive, fun j d hj hget => ?_⟩
  exact hothers (d, j) (List.mem_zipIdx_iff_getElem?.mpr hget) hj

theorem inv_releasing {slot : Nat} {verdict : Verdict} (hinv : Inv s) (hi : s.calls[i]? = some c)
    (hkeeps : KeepsEntry s i c) (hphase : c.phase = .releasing slot verdict) :
    Inv (withCall s i c (if s.shared.tokens.lookup c.request.token = some slot then
      deregister s.shared c.request.token else s.shared, .dropping slot verdict)) := by
  have hcall := hinv.calls i c hi
  have hc : c.phase.isDone = false := by
    rw [hphase]
    rfl
  have howed : c.since = true → False := by
    intro hs
    obtain ⟨t, R, b, -, h⟩ := hcall.owed hs
    rw [hphase] at h
    exact h
  have hself : CallInv s.shared { c with phase := .dropping slot verdict } := by
    refine CallInv.plain rfl (fun s h => (fun hno => by cases hno)) (fun s hs => hcall.slot s ?_)
      (fun hd _ => hcall.revoked hd ?_) (fun ha => ?_) (fun s _ hs => (by cases hs))
      (fun hs => (howed hs).elim)
    · rw [hphase]
      exact hs
    · rw [hphase]
      rfl
    · have hstale := hcall.stale (by rw [hphase]; exact ha)
      exact ⟨hstale.1, hstale.2.1, hstale.2.2 (by rw [hphase]; rfl)⟩
  split
  · rename_i hlookup
    by_cases hd : c.request.deactivates = true
    · -- a deactivation has revoked the token before
      have hrevoked := hcall.revoked hd (by rw [hphase]; rfl)
      have hnot := hinv.not_opened hi hd hc
      have hframe : ∀ d, CallInv s.shared d → CallInv (deregister s.shared c.request.token) d := by
        intro d hdinv
        refine hdinv.deregister hnot fun _ _ _ hlive => ?_
        rw [hrevoked] at hlive
        cases hlive
      exact hinv.withCall hi hc (hinv.shared.deregister hnot fun _ _ _ _ => hrevoked)
        (hframe _ hself) (fun j d _ hj => hframe d (hinv.calls j d hj))
        (fun slot hs => (by cases hs)) hinv.still
    · have hd : c.request.deactivates = false := eq_false_of_ne_true hd
      obtain ⟨hfree, hothers⟩ := keeps_releasing hkeeps hphase hd hlookup
      have hsame : ∀ s', s.shared.tokens.lookup c.request.token = some s' → s' = slot := by
        intro s' hs'
        exact Option.some.inj (hs'.symm.trans hlookup)
      have hnot : ∀ o ∈ s.shared.opened, o.1 ≠ c.request.token := by
        rintro ⟨t, R, b⟩ ho rfl
        obtain ⟨-, s', handle, ⟨hreg, -, hactive⟩, -⟩ := hinv.shared.opened _ R b ho
        rw [hsame s' hreg] at hactive
        exact hfree _ hactive rfl
      refine hinv.withCall hi hc (hinv.shared.deregister hnot ?_)
        (hself.deregister hnot fun _ _ hnone => (hnone rfl).elim) ?_ (fun slot hs => (by cases hs))
        hinv.still
      · intro s' r hr htoken
        by_contra hlive
        have hreg := ((hinv.shared.active s' r hr).2.2.2.2 (by
          rw [htoken]
          exact eq_false_of_ne_true hlive)).1
        rw [htoken] at hreg
        rw [hsame s' hreg] at hr
        exact hfree r hr htoken
      · intro j d hj hget
        refine (hinv.calls j d hget).deregister hnot fun ha htoken hpending hlive => ?_
        cases hslot : d.phase.pending with
        | none => exact hpending hslot
        | some s' =>
          have hreg := (hinv.calls j d hget).pending s' ha hslot (htoken ▸ hlive)
          rw [htoken] at hreg
          rw [hsame s' hreg] at hslot
          exact hothers j d hj hget ha htoken hslot
  · exact hinv.move hi hc hself fun slot hs => (by cases hs)

theorem inv_dropping {slot : Nat} {verdict : Verdict} (hinv : Inv s) (hi : s.calls[i]? = some c)
    (hphase : c.phase = .dropping slot verdict) :
    Inv (withCall s i c (s.shared, .sweeping slot verdict)) := by
  have hcall := hinv.calls i c hi
  refine hinv.move hi (by rw [hphase]; rfl) (CallInv.plain rfl (fun s h => (fun hno => by cases hno))
    (fun s hs => (by cases hs)) (fun hd _ => hcall.revoked hd (by rw [hphase]; rfl)) (fun ha => ?_)
    (fun s _ hs => (by cases hs)) (fun hs => ?_)) fun slot hs => (by cases hs)
  · have hstale := hcall.stale (by rw [hphase]; exact ha)
    exact ⟨hstale.1, hstale.2.1, hstale.2.2 (by rw [hphase]; rfl)⟩
  · obtain ⟨t, R, b, -, h⟩ := hcall.owed hs
    rw [hphase] at h
    exact h.elim

theorem not_live {slot : Nat} (h : live s.shared (held s) slot = false) :
    (∀ e ∈ s.shared.tokens, e.2 ≠ slot) ∧
      ∀ (j : Nat) (d : Call), s.calls[j]? = some d → d.phase.slot ≠ some slot := by
  rw [live, Bool.or_eq_false_iff] at h
  obtain ⟨htokens, hheld⟩ := h
  rw [List.any_eq_false] at htokens
  rw [held, List.any_eq_false] at hheld
  constructor
  · intro e he hslot
    exact htokens e he (decide_eq_true hslot)
  · intro j d hd hslot
    exact hheld d (List.mem_of_getElem? hd) (decide_eq_true hslot)

theorem SharedInv.withGone {sh : Shared} {l : List Nat} (h : SharedInv sh)
    (hl : ∀ t ∈ l, sh.revoked t = true ∧ Stale sh t ∧ Inactive sh t) :
    SharedInv { sh with gone := l } :=
  { paths := h.paths
    tokens := h.tokens
    active := h.active
    unique := h.unique
    tickets := h.tickets
    gone := hl
    opened := h.opened }

theorem CallInv.withGone {sh : Shared} {d : Call} (h : CallInv sh d) (l : List Nat) :
    CallInv { sh with gone := l } d :=
  { slot := h.slot
    claim := h.claim
    owner := h.owner
    closing := h.closing
    quiet := h.quiet
    revoked := h.revoked
    stale := h.stale
    pending := h.pending
    opened := h.opened
    target := h.target
    found := h.found
    owed := h.owed }

theorem inv_sweeping {slot : Nat} {verdict : Verdict} (hinv : Inv s) (hi : s.calls[i]? = some c)
    (hphase : c.phase = .sweeping slot verdict) :
    let R := (s.shared.slots slot).canonicalRoot
    let swept := if s.shared.paths R = some slot ∧ live s.shared (held s) slot = false then
      forgetPath s.shared R else s.shared
    Inv (withCall s i c ({ swept with
      gone := if verdict = .ok true then c.request.token :: s.shared.gone
        else s.shared.gone }, .done (verdict.map .deactivated))) := by
  intro R swept
  have hcall := hinv.calls i c hi
  have howed : c.since = true → False := by
    intro hs
    obtain ⟨t, R, b, -, h⟩ := hcall.owed hs
    rw [hphase] at h
    exact h
  have hgone : ∀ t ∈ (if verdict = .ok true then c.request.token :: s.shared.gone
      else s.shared.gone), s.shared.revoked t = true ∧ Stale s.shared t ∧ Inactive s.shared t := by
    intro t ht
    split at ht
    · rename_i hverdict
      rcases List.mem_cons.mp ht with rfl | ht
      · have hstale := hcall.stale (by rw [hphase, hverdict]; rfl)
        exact ⟨hstale.1, hstale.2.1, hstale.2.2 (by rw [hphase]; rfl)⟩
      · exact hinv.shared.gone t ht
    · exact hinv.shared.gone t ht
  have hself : ∀ sh : Shared, CallInv sh { c with phase := .done (verdict.map .deactivated) } := fun sh =>
    CallInv.plain rfl (fun s h => (fun hno => by cases hno)) (fun s hs => (by cases hs)) (fun _ hr => (by cases hr))
      (fun ha => (by cases ha)) (fun s _ hs => (by cases hs)) (fun hs => (howed hs).elim)
  have hc : c.phase.isDone = false := by
    rw [hphase]
    rfl
  by_cases hdead : s.shared.paths R = some slot ∧ live s.shared (held s) slot = false
  · have hswept : swept = forgetPath s.shared R := if_pos hdead
    obtain ⟨htokens, hcalls⟩ := not_live hdead.2
    have hne : ∀ s', s.shared.paths R = some s' → s' = slot := by
      intro s' hs'
      exact Option.some.inj (hs'.symm.trans hdead.1)
    rw [hswept]
    refine hinv.withCall hi hc (SharedInv.withGone (hinv.shared.forgetPath ?_) hgone) (hself _) ?_
      (fun slot hs => (by cases hs)) hinv.still
    · intro e he hpath
      exact htokens e he (hne _ hpath)
    · intro j d hj hd
      refine ((hinv.calls j d hd).forgetPath fun s' hs' hpath => ?_).withGone _
      rw [hne s' hpath] at hs'
      exact hcalls j d hd hs'
  · have hswept : swept = s.shared := if_neg hdead
    rw [hswept]
    exact hinv.withCall hi hc (hinv.shared.withGone hgone) (hself _)
      (fun j d _ hd => (hinv.calls j d hd).withGone _) (fun slot hs => (by cases hs)) hinv.still

end Cleanup

end AssetLifecycle
