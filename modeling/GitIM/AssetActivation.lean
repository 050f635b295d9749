import GitIM.AssetLinearity

/-!
# What activations keep

One lemma for each critical section of an activation and of a call that opens a registered
store. An activation that succeeds leaves its token registered, active and owed its store.
-/

namespace AssetLifecycle

open TextLines Checked Runs AssetAccounting

section Opening
variable {limits : AssetLimits} {acc : AccountingState} {R b : Text} {leased : Bool} {env : OpenEnv}

theorem nextGeneration_generation {after : AccountingState} {binding : Option Text}
    {lim : Option AssetLimits} (h : nextGeneration acc binding lim = .ok after) :
    after.generation = acc.generation + 1 := by
  obtain ⟨generation, hgeneration, h⟩ := bind_eq_ok_iff.mp h
  cases h
  obtain ⟨-, hsum⟩ := checkedAdd_eq_some.mp (orError_eq_ok.mp hgeneration)
  exact hsum.symm

theorem openAccounts_generation {after : AccountingState} {closed : Except FileFault Unit}
    {op : OpEnv} (h : openAccounts acc b limits closed op = .ok after) :
    acc.generation ≤ after.generation := by
  rcases openAccounts_cases h with rfl | hnext
  · exact Nat.le_refl _
  · rw [nextGeneration_generation hnext]
    exact Nat.le_succ _

theorem recoverAccounts_generation {after : AccountingState} {store : AssetStore}
    (h : recoverAccounts acc store env = .ok after) : after.generation = acc.generation := by
  rw [recoverAccounts] at h
  split at h
  · cases h
    rfl
  · obtain ⟨_, -, h⟩ := bind_eq_ok_iff.mp h
    obtain ⟨ledger, -, h⟩ := bind_eq_ok_iff.mp h
    cases h
    rfl

/-- Opening a store never goes back, and what it hands out is valid. -/
theorem openStore_spec :
    acc.generation ≤ (openStore limits acc R b leased env).1.generation ∧
      ∀ h, (openStore limits acc R b leased env).2 = .ok h → h.root = R ∧
        validateAccounting h.store (openStore limits acc R b leased env).1 = .ok () := by
  rw [openStore]
  split
  · exact ⟨Nat.le_refl _, fun h hh => (by cases hh)⟩
  · rename_i next hopen
    have hnext := openAccounts_generation hopen
    split
    · exact ⟨hnext, fun h hh => (by cases hh)⟩
    · rename_i ready hready
      have hsame := recoverAccounts_generation hready
      split
      · exact ⟨hsame ▸ hnext, fun h hh => (by cases hh)⟩
      · rename_i hcurrent
        refine ⟨hsame ▸ hnext, fun h hh => ?_⟩
        cases hh
        obtain ⟨_, hvalid, -⟩ := bind_eq_ok_iff.mp hcurrent
        exact ⟨rfl, hvalid⟩

theorem invalidate_cases (sh : Shared) (R : Text) :
    (∃ e, invalidateWorkspaceStore sh R = (sh, .error e)) ∨
      ∃ acc, invalidateWorkspaceStore sh R = (setAccounting sh R acc, .ok ()) ∧
        acc.generation = generationOf sh R + 1 := by
  rw [invalidateWorkspaceStore]
  cases hnext : nextGeneration (sh.states R).accounting none (sh.states R).accounting.limits with
  | error e => exact .inl ⟨e, rfl⟩
  | ok acc => exact .inr ⟨acc, rfl, nextGeneration_generation hnext⟩

end Opening

section Activation
variable {s : Service} {i : Nat} {c : Call} {token slot : Nat} {R b : Text}

theorem Inv.live_opened (hinv : Inv s) : ∀ o ∈ s.shared.opened, s.shared.revoked o.1 = false :=
  fun o ho => (hinv.shared.opened o.1 o.2.1 o.2.2 ho).1

theorem SharedInv.registered {sh : Shared} (h : SharedInv sh) {t s : Nat}
    (hlookup : sh.tokens.lookup t = some s) : s < sh.next ∧ sh.paths (root sh s) = some s := by
  obtain ⟨before, after, heq, -⟩ := List.lookup_eq_some_iff.mp hlookup
  refine h.tokens (t, s) ?_
  rw [heq]
  exact List.mem_append_right _ List.mem_cons_self

/-- Two slots that are owned and stand for one root are one. -/
theorem slot_unique {sh : Shared} {s s' : Nat} (h : sh.paths (root sh s) = some s)
    (h' : sh.paths (root sh s') = some s') (hroot : root sh s = root sh s') : s = s' := by
  rw [hroot, h'] at h
  exact (Option.some.inj h).symm

/-- A root whose slot has no registration has none that counts. -/
theorem Inv.dead_root (hinv : Inv s) (hslot : s.shared.paths (root s.shared slot) = some slot)
    (hactive : ∀ r, (s.shared.slots slot).active = some r → s.shared.revoked r.token = true) :
    ∀ s' r, (s.shared.slots s').active = some r → root s.shared s' = root s.shared slot →
      s.shared.revoked r.token = true := by
  intro s' r hr hroot
  by_contra hlive
  have hreg := ((hinv.shared.active s' r hr).2.2.2.2 (eq_false_of_ne_true hlive)).1
  have hsame := slot_unique (hinv.shared.registered hreg).2 hslot hroot
  subst hsame
  exact hlive (hactive r hr)

/-- A call that answers an error, or is about to. -/
theorem inv_fail (hinv : Inv s) (hi : s.calls[i]? = some c) (hc : c.phase.isDone = false)
    {p : Phase} {e : AssetError} (hd : c.request.deactivates = false) (hs : c.since = false)
    (hp : p = .done (.error e) ∨ (∃ a, p = .releasing a (.error e) ∧ c.phase.slot = some a) ∨
      ∃ a, p = .dropping a (.error e) ∧ c.phase.slot = some a) :
    Inv (withCall s i c (s.shared, p)) := by
  have hcall := hinv.calls i c hi
  have howed : c.since = true → False := by
    intro hs'
    rw [hs] at hs'
    cases hs'
  have hrevoked : c.request.deactivates = true → p.revokes = true →
      s.shared.revoked c.request.token = true := by
    intro hd'
    rw [hd] at hd'
    cases hd'
  rcases hp with rfl | ⟨a, rfl, hslot⟩ | ⟨a, rfl, hslot⟩
  · exact hinv.move hi hc (CallInv.plain rfl (fun s h => (fun hno => by cases hno)) (fun s hs => (by cases hs))
      hrevoked (fun ha => (by cases ha)) (fun s _ hs => (by cases hs)) fun hs => (howed hs).elim)
      fun slot hs => (by cases hs)
  · exact hinv.move hi hc (CallInv.plain rfl (fun s h => (fun hno => by cases hno))
      (fun s hs => hcall.slot s (hslot.trans hs)) hrevoked (fun ha => (by cases ha))
      (fun s _ hs => (by cases hs)) fun hs => (howed hs).elim) fun slot hs => (by cases hs)
  · exact hinv.move hi hc (CallInv.plain rfl (fun s h => (fun hno => by cases hno))
      (fun s hs => hcall.slot s (hslot.trans hs)) hrevoked (fun ha => (by cases ha))
      (fun s _ hs => (by cases hs)) fun hs => (howed hs).elim) fun slot hs => (by cases hs)

/-- An activation knows its token and is owed nothing. -/
theorem Inv.activation (hinv : Inv s) (hi : s.calls[i]? = some c)
    (hrequest : c.request = .activateWorkspace token R b) :
    c.request.deactivates = false ∧ c.request.activates = true ∧ c.request.token = token ∧
      c.since = false := by
  refine ⟨by rw [hrequest]; rfl, by rw [hrequest]; rfl, by rw [hrequest]; rfl, ?_⟩
  by_contra hs
  obtain ⟨t, R', b', hopen, -⟩ := (hinv.calls i c hi).owed (eq_true_of_ne_false hs)
  rw [hrequest] at hopen
  cases hopen

/-- An activation that has its slot waits for it. -/
theorem inv_wait {sh : Shared} (hinv : Inv s) (hi : s.calls[i]? = some c)
    (hrequest : c.request = .activateWorkspace token R b) (hc : c.phase.isDone = false)
    (hshared : SharedInv sh) (hlookup : sh.tokens.lookup token = some slot)
    (hothers : ∀ j d, j ≠ i → s.calls[j]? = some d → CallInv sh d)
    (hopened : sh.opened = s.shared.opened) : Inv (withCall s i c (sh, .waiting slot)) := by
  obtain ⟨hd, -, htoken, hs⟩ := hinv.activation hi hrequest
  refine hinv.withCall hi hc hshared (CallInv.plain rfl (fun s h => (fun hno => by cases hno)) ?_ ?_
    (fun ha => (by cases ha)) ?_ ?_) hothers (fun slot hs => (by cases hs)) ?_
  · rintro _ ⟨⟩
    exact hshared.registered hlookup
  · intro hd'
    rw [hd] at hd'
    cases hd'
  · rintro _ - ⟨⟩ -
    exact htoken ▸ hlookup
  · intro hs'
    rw [hs] at hs'
    cases hs'
  · rw [hopened]
    exact hinv.still

theorem inv_activate_looking (hinv : Inv s) (hi : s.calls[i]? = some c)
    (hrequest : c.request = .activateWorkspace token R b) (hphase : c.phase = .looking) :
    let found := lifecycleSlotForActivation s.shared (held s) R token
    Inv (withCall s i c (found.1, .waiting found.2)) := by
  intro found
  have hc : c.phase.isDone = false := by
    rw [hphase]
    rfl
  cases hlookup : s.shared.tokens.lookup token with
  | some slot =>
    have hfound : found = (s.shared, slot) := by
      simp only [found, lifecycleSlotForActivation, hlookup]
    rw [hfound]
    exact inv_wait hinv hi hrequest hc hinv.shared hlookup (fun j d _ hd => hinv.calls j d hd) rfl
  | none =>
    cases hpath : (s.shared.paths R).filter (live s.shared (held s)) with
    | some slot =>
      have hfound : found = (register s.shared token slot, slot) := by
        simp only [found, lifecycleSlotForActivation, hlookup, hpath]
      obtain ⟨hpath, -⟩ := Option.filter_eq_some_iff.mp hpath
      have hslot := hinv.shared.paths R slot hpath
      rw [hfound]
      refine inv_wait hinv hi hrequest hc (hinv.shared.register hlookup ⟨hslot.1, ?_⟩)
        List.lookup_cons_self (fun j d _ hd => (hinv.calls j d hd).register hlookup slot) rfl
      rw [hslot.2]
      exact hpath
    | none =>
      have hfound : found = (register (allocate s.shared R) token s.shared.next, s.shared.next) := by
        simp only [found, lifecycleSlotForActivation, hlookup, hpath]
        rfl
      -- whoever owned the slot of the path would have kept it alive
      have hdead : ∀ s', s.shared.paths R = some s' → live s.shared (held s) s' = false := by
        intro s' hs'
        rw [hs', Option.filter_some] at hpath
        split at hpath
        · cases hpath
        · rename_i hlive
          exact eq_false_of_ne_true hlive
      have hnew : (allocate s.shared R).tokens.lookup token = none := hlookup
      have hshared : SharedInv (allocate s.shared R) := hinv.shared.allocate fun e he hpath =>
        (not_live (hdead e.2 hpath)).1 e he rfl
      rw [hfound]
      refine inv_wait hinv hi hrequest hc (hshared.register hnew ⟨Nat.lt_succ_self _, ?_⟩)
        List.lookup_cons_self (fun j d _ hd => ((hinv.calls j d hd).allocate ?_).register hnew _) rfl
      · simp [root, allocate, setSlot, freshSlot]
      · intro s' hs' hpath
        exact (not_live (hdead s' hpath)).2 j d hd hs'

theorem SharedInv.withOpened {sh : Shared} {opened : List (Nat × Text × Text)} (h : SharedInv sh)
    (hnew : ∀ t R b, (t, R, b) ∈ opened → (t, R, b) ∈ sh.opened ∨ sh.revoked t = false ∧
      ∃ s h, Serves sh s t R b h ∧ (sh.slots s).deactivating = false ∧
        (sh.slots s).locked = false) : SharedInv (withOpened sh opened) :=
  { paths := h.paths
    tokens := h.tokens
    active := h.active
    unique := h.unique
    tickets := h.tickets
    gone := h.gone
    opened := fun t R b ho => by
      rcases hnew t R b ho with hold | hserves
      · exact h.opened t R b hold
      · exact hserves }

/-- The store that a registration holds may be given to its token. -/
theorem issued_of_active {sh : Shared} {r : RegisteredWorkspace} (h : SharedInv sh)
    (hactive : (sh.slots slot).active = some r) (hlive : sh.revoked r.token = false) :
    Issued sh ⟨r.token, r.handle, .store⟩ := by
  obtain ⟨-, -, hroot, hgen, -⟩ := h.active slot r hactive
  refine ⟨?_, ?_, fun _ => ⟨slot, r, hactive, rfl⟩, ?_, fun hk => (by cases hk)⟩
  · exact hroot ▸ hgen
  · intro s r' hr hu
    rw [h.unique s r' slot r hr hactive hu]
    exact hroot
  · intro _ hrevoked
    have hrevoked' : sh.revoked r.token = true := hrevoked
    rw [hlive] at hrevoked'
    cases hrevoked'

/-- An activation succeeds with the store that is registered for it. -/
theorem inv_activated {sh : Shared} {handle : Handle} (hinv : Inv s) (hi : s.calls[i]? = some c)
    (hrequest : c.request = .activateWorkspace token R b) (hc : c.phase.isDone = false)
    (hshared : SharedInv sh) (hothers : ∀ j d, j ≠ i → s.calls[j]? = some d → CallInv sh d)
    (hopened : sh.opened = s.shared.opened) (hserves : Serves sh slot token R b handle)
    (hlive : sh.revoked token = false) (hd : (sh.slots slot).deactivating = false)
    (hl : (sh.slots slot).locked = false) :
    Inv (withCall s i c (activated sh token R b handle (deactivating s token),
      .done (.ok (.store handle)))) := by
  obtain ⟨hnot, -, -, hs⟩ := hinv.activation hi hrequest
  have hissued : ∀ k ∈ sh.tickets ++ [⟨token, handle, .store⟩], k ∈ sh.tickets ∨ Issued sh k := by
    intro k hk
    rcases List.mem_append.mp hk with hold | hnew
    · exact .inl hold
    · rw [List.mem_singleton.mp hnew]
      exact .inr (issued_of_active hshared hserves.2.2 hlive)
  have hmem : ∀ o ∈ (if deactivating s token then sh.opened else (token, R, b) :: sh.opened),
      o ∈ sh.opened ∨ o = (token, R, b) ∧ deactivating s token = false := by
    intro o ho
    split at ho
    · exact .inl ho
    · rename_i hfalse
      rcases List.mem_cons.mp ho with rfl | ho
      · exact .inr ⟨rfl, eq_false_of_ne_true hfalse⟩
      · exact .inl ho
  have hsub : ∀ o ∈ sh.opened,
      o ∈ (if deactivating s token then sh.opened else (token, R, b) :: sh.opened) := by
    intro o ho
    split
    · exact ho
    · exact List.mem_cons_of_mem _ ho
  have hafter : activated sh token R b handle (deactivating s token) =
      withOpened (withTickets sh (sh.tickets ++ [⟨token, handle, .store⟩]))
        (if deactivating s token then sh.opened else (token, R, b) :: sh.opened) := rfl
  rw [hafter]
  refine hinv.withCall hi hc ((hshared.withTickets hissued).withOpened ?_) (CallInv.plain rfl
    (fun s h => (fun hno => by cases hno)) (fun s hs => (by cases hs)) (fun _ hr => (by cases hr))
    (fun ha => (by cases ha)) (fun s _ hs => (by cases hs)) ?_) ?_ (fun slot hs => (by cases hs)) ?_
  · intro t R' b' ho
    rcases hmem _ ho with hold | ⟨heq, -⟩
    · exact .inl hold
    · cases heq
      exact .inr ⟨hlive, slot, handle, hserves, hd, hl⟩
  · intro hs'
    rw [hs] at hs'
    cases hs'
  · intro j d hj hget
    exact ((hothers j d hj hget).withTickets hissued).withOpened hsub
  · intro o ho
    rcases hmem o ho with hold | ⟨rfl, hfalse⟩
    · exact hinv.still o (hopened ▸ hold)
    · exact hfalse

variable {limits : AssetLimits} {env : OpenEnv}

theorem eq_of_serves {r : RegisteredWorkspace} (h : r.serves token R b = true) :
    r = ⟨R, b, token, r.handle⟩ := by
  obtain ⟨requestedRoot, binding, token', handle⟩ := r
  simp only [RegisteredWorkspace.serves, decide_eq_true_eq] at h
  obtain ⟨rfl, rfl, rfl⟩ := h
  rfl

/-- A slot that nobody has locked or claimed is nobody's. -/
theorem Inv.not_exclusive (hinv : Inv s) (hfree : (s.shared.slots slot).locked = false)
    (hidle : (s.shared.slots slot).deactivating = false) (j : Nat) (d : Call)
    (hd : s.calls[j]? = some d) : d.phase.exclusive ≠ some slot := by
  intro hexcl
  have hcall := hinv.calls j d hd
  cases hphase : d.phase with
  | opened s' h =>
    rw [hphase] at hexcl
    cases hexcl
    have hlocked := (hcall.opened slot h hphase).1
    rw [hfree] at hlocked
    cases hlocked
  | _ =>
    have hclaim := hcall.claim slot (by
      rw [hphase] at hexcl ⊢
      exact hexcl)
    rw [hidle] at hclaim
    cases hclaim

/-- The accounts of the root of a slot change at the hands of the call that has it to itself. -/
theorem Inv.setAccounting_others (hinv : Inv s) {acc : AccountingState}
    (hslot : s.shared.paths (root s.shared slot) = some slot)
    (hgen : generationOf s.shared (root s.shared slot) ≤ acc.generation)
    (hexcl : ∀ j d, j ≠ i → s.calls[j]? = some d → d.phase.exclusive ≠ some slot) (j : Nat) (d : Call)
    (hj : j ≠ i) (hd : s.calls[j]? = some d) :
    CallInv (setAccounting s.shared (root s.shared slot) acc) d := by
  have hcall := hinv.calls j d hd
  refine hcall.setAccounting hgen fun s' h hphase hroot => ?_
  have hslot' := (hcall.slot s' (by rw [hphase]; rfl)).2
  have hsame := slot_unique hslot' hslot hroot
  subst hsame
  exact hexcl j d hj hd (by rw [hphase]; rfl)

/-- The store of the slot has been opened, or could not be. -/
theorem inv_activate_open (hinv : Inv s) (hi : s.calls[i]? = some c)
    (hrequest : c.request = .activateWorkspace token R b) (hphase : c.phase = .waiting slot)
    (hroot : root s.shared slot = R) (hactive : (s.shared.slots slot).active = none)
    (hfree : (s.shared.slots slot).locked = false)
    (hidle : (s.shared.slots slot).deactivating = false) {acc : AccountingState}
    (hgen : generationOf s.shared R ≤ acc.generation) :
    (∀ e, Inv (withCall s i c (setAccounting s.shared R acc, .releasing slot (.error e)))) ∧
      ∀ handle : Handle, handle.root = R → validateAccounting handle.store acc = .ok () →
        Inv (withCall s i c (setSlot (setAccounting s.shared R acc) slot
          { s.shared.slots slot with locked := true }, .opened slot handle)) := by
  subst hroot
  obtain ⟨hnot, hactivates, htoken, hs⟩ := hinv.activation hi hrequest
  have hcall := hinv.calls i c hi
  have hc : c.phase.isDone = false := by
    rw [hphase]
    rfl
  have hslot := hcall.slot slot (by rw [hphase]; rfl)
  have hexcl : ∀ j d, j ≠ i → s.calls[j]? = some d → d.phase.exclusive ≠ some slot :=
    fun j d _ hd => hinv.not_exclusive hfree hidle j d hd
  have hdead := hinv.dead_root hslot.2 fun r hr => by
    rw [hactive] at hr
    cases hr
  have hshared := hinv.shared.setAccounting hgen hdead
  have hothers := hinv.setAccounting_others hslot.2 hgen hexcl
  have howed : c.since = true → False := by
    intro hs'
    rw [hs] at hs'
    cases hs'
  have hdeactivates : c.request.deactivates = true → False := by
    intro hd
    rw [hnot] at hd
    cases hd
  have hpending : s.shared.revoked c.request.token = false →
      s.shared.tokens.lookup c.request.token = some slot :=
    hcall.pending slot hactivates (by rw [hphase]; rfl)
  refine ⟨fun e => ?_, fun handle hhandle hvalid => ?_⟩
  · refine hinv.withCall hi hc hshared (CallInv.plain rfl (fun s h => (fun hno => by cases hno)) ?_
      (fun hd => (hdeactivates hd).elim) (fun ha => (by cases ha)) (fun s _ hs => (by cases hs))
      fun hs => (howed hs).elim) hothers (fun slot hs => (by cases hs)) hinv.still
    rintro _ ⟨⟩
    exact hslot
  · have hlive : ∀ o ∈ (setAccounting s.shared (root s.shared slot) acc).opened,
        (setAccounting s.shared (root s.shared slot) acc).revoked o.1 = false := hinv.live_opened
    have hstep : SlotStep (setAccounting s.shared (root s.shared slot) acc) slot
        { s.shared.slots slot with locked := true } :=
      ⟨rfl, fun r hr _ => hr, fun r hr => .inl hr⟩
    refine hinv.withCall hi hc (hshared.setSlot hstep (fun r hr hne => (hne hr).elim) ?_) ?_ ?_ ?_
      hinv.still
    · rintro u R' b' handle' - ⟨-, -, hserves⟩
      have hserves' : (s.shared.slots slot).active = some _ := hserves
      rw [hactive] at hserves'
      cases hserves'
    · have hvalid' : Valid (setAccounting s.shared (root s.shared slot) acc) handle := by
        rw [Valid, validateHandle, hhandle, setAccounting, setState_self]
        exact hvalid
      have hroot' : root (setSlot (setAccounting s.shared (root s.shared slot) acc) slot
          { s.shared.slots slot with locked := true }) slot = root s.shared slot :=
        setSlot_root hstep.root slot
      exact
        { slot := by
            rintro _ ⟨⟩
            rw [hroot']
            exact hslot
          claim := fun s hs => (by cases hs)
          owner := fun s hs => (by cases hs)
          closing := fun s hs => (by cases hs)
          quiet := fun s hs => (by cases hs)
          revoked := fun hd => (hdeactivates hd).elim
          stale := fun ha => (by cases ha)
          pending := by
            rintro _ - ⟨⟩ hr
            exact hpending hr
          opened := by
            rintro _ _ ⟨⟩
            rw [setSlot_self, hroot']
            exact ⟨rfl, hactive, hidle, hhandle, hvalid'⟩
          target := by
            rintro _ _ t R' b' ⟨⟩ hr
            have hr' : c.request = .activateWorkspace t R' b' := hr
            rw [hrequest] at hr'
            cases hr'
            exact hroot'.symm
          found := fun s h hs => (by cases hs)
          owed := fun hs => (howed hs).elim }
    · exact fun j d hj hd => (hothers j d hj hd).setSlot hstep hlive (hexcl j d hj hd)
    · rintro _ ⟨⟩
      exact .inr hexcl

theorem inv_activate_waiting (hinv : Inv s) (hi : s.calls[i]? = some c)
    (hrequest : c.request = .activateWorkspace token R b) (hphase : c.phase = .waiting slot)
    (hkeeps : KeepsRevoked s c) (hfree : (s.shared.slots slot).locked = false)
    (hidle : (s.shared.slots slot).deactivating = false) :
    Inv (withCall s i c
      (activateLocked limits s.shared token R b slot (deactivating s token) env)) := by
  obtain ⟨hnot, hactivates, htoken, hs⟩ := hinv.activation hi hrequest
  have hcall := hinv.calls i c hi
  have hslot : c.phase.slot = some slot := by
    rw [hphase]
    rfl
  have hc : c.phase.isDone = false := by
    rw [hphase]
    rfl
  simp only [activateLocked]
  split
  · exact inv_fail hinv hi hc hnot hs (.inr (.inr ⟨slot, rfl, hslot⟩))
  rename_i hroot
  have hroot : root s.shared slot = R := not_not.mp hroot
  split
  · rename_i r hactive
    split
    · rename_i hserves
      have hlive : s.shared.revoked token = false := by
        rw [KeepsRevoked, hrequest, hphase] at hkeeps
        exact hkeeps r hactive hserves
      have hlookup : s.shared.tokens.lookup token = some slot := by
        have := hcall.pending slot hactivates (by rw [hphase]; rfl)
        rw [htoken] at this
        exact this hlive
      exact inv_activated hinv hi hrequest hc hinv.shared (fun j d _ hd => hinv.calls j d hd) rfl
        ⟨hlookup, hroot, hactive.trans (congrArg some (eq_of_serves hserves))⟩ hlive hidle hfree
    · split
      · exact inv_fail hinv hi hc hnot hs (.inr (.inl ⟨slot, rfl, hslot⟩))
      · exact inv_fail hinv hi hc hnot hs (.inl rfl)
  · rename_i hactive
    split
    · exact inv_fail hinv hi hc hnot hs (.inr (.inl ⟨slot, rfl, hslot⟩))
    · obtain ⟨hgen, hhandle⟩ := @openStore_spec limits (s.shared.states R).accounting R b
        ((s.shared.states R).closing || inflight s.shared R) env
      obtain ⟨hfail, hopened⟩ := inv_activate_open hinv hi hrequest hphase hroot hactive hfree hidle
        hgen
      split
      · exact hfail _
      · rename_i handle hok
        obtain ⟨hh, hvalid⟩ := hhandle handle hok
        exact hopened handle hh hvalid

theorem inv_activate_opened {handle : Handle} (hinv : Inv s) (hi : s.calls[i]? = some c)
    (hrequest : c.request = .activateWorkspace token R b) (hphase : c.phase = .opened slot handle) :
    Inv (withCall s i c
      (activateOpened s.shared token R b slot handle (deactivating s token))) := by
  obtain ⟨hnot, hactivates, htoken, hs⟩ := hinv.activation hi hrequest
  have hcall := hinv.calls i c hi
  have hc : c.phase.isDone = false := by
    rw [hphase]
    rfl
  have hslot := hcall.slot slot (by rw [hphase]; rfl)
  have hexclusive : c.phase.exclusive = some slot := by
    rw [hphase]
    rfl
  have hexcl : ∀ j d, j ≠ i → s.calls[j]? = some d → d.phase.exclusive ≠ some slot :=
    fun j d hj hd => hinv.exclusive i j c d slot hi hd (Ne.symm hj) hexclusive
  obtain ⟨hlocked, hactive, hidle, hhandle, hvalid⟩ := hcall.opened slot handle hphase
  have hroot : R = root s.shared slot := hcall.target slot handle token R b hphase hrequest
  subst hroot
  simp only [activateOpened]
  split
  · -- the token was revoked while the store was opened
    have hunlock : ∀ sh : Shared, SharedInv sh → sh.slots = s.shared.slots →
        sh.revoked = s.shared.revoked → sh.opened = s.shared.opened → sh.next = s.shared.next →
        sh.paths = s.shared.paths → (∀ j d, j ≠ i → s.calls[j]? = some d → CallInv sh d) →
        ∀ e, Inv (withCall s i c (setSlot sh slot { s.shared.slots slot with locked := false },
          .releasing slot (.error e))) := by
      intro sh hsh hslots hrevoked hopened hnext hpaths hothers e
      have hstep : SlotStep sh slot { s.shared.slots slot with locked := false } := by
        refine ⟨?_, fun r hr _ => ?_, fun r hr => .inl ?_⟩
        · rw [root, hslots]
        · rw [hslots] at hr
          exact hr
        · rw [hslots]
          exact hr
      have hlive : ∀ o ∈ sh.opened, sh.revoked o.1 = false := by
        rw [hopened, hrevoked]
        exact hinv.live_opened
      refine hinv.withCall hi hc (hsh.setSlot hstep ?_ ?_) (CallInv.plain rfl
        (fun s h => (fun hno => by cases hno)) ?_ ?_ (fun ha => (by cases ha)) (fun s _ hs => (by cases hs)) ?_)
        (fun j d hj hd => (hothers j d hj hd).setSlot hstep hlive (hexcl j d hj hd))
        (fun slot hs => (by cases hs)) ?_
      · intro r hr hne
        rw [hslots] at hne
        exact (hne hr).elim
      · rintro u R' b' handle' - ⟨-, -, hserves⟩
        rw [hslots, hactive] at hserves
        cases hserves
      · rintro _ ⟨⟩
        rw [setSlot_root hstep.root, root, hslots]
        refine ⟨?_, ?_⟩
        · exact hnext ▸ hslot.1
        · exact (congrFun hpaths _).trans hslot.2
      · intro hd
        rw [hnot] at hd
        cases hd
      · intro hs'
        rw [hs] at hs'
        cases hs'
      · intro o ho
        exact hinv.still o (hopened ▸ ho)
    rcases invalidate_cases s.shared (root s.shared slot) with ⟨e, heq⟩ | ⟨acc, heq, hgen⟩
    · rw [heq]
      exact hunlock s.shared hinv.shared rfl rfl rfl rfl rfl (fun j d _ hd => hinv.calls j d hd) _
    · rw [heq]
      have hle : generationOf s.shared (root s.shared slot) ≤ acc.generation := by omega
      have hdead := hinv.dead_root hslot.2 fun r hr => by
        rw [hactive] at hr
        cases hr
      exact hunlock _ (hinv.shared.setAccounting hle hdead) rfl rfl rfl rfl rfl
        (hinv.setAccounting_others hslot.2 hle hexcl) _
  · rename_i hlive
    have hlive : s.shared.revoked token = false := eq_false_of_ne_true hlive
    have hlookup : s.shared.tokens.lookup token = some slot := by
      have := hcall.pending slot hactivates (by rw [hphase]; rfl)
      rw [htoken] at this
      exact this hlive
    -- a token that is not revoked is active only where it is registered
    have hinactive : Inactive s.shared token := by
      intro s' r hr hu
      have hreg := ((hinv.shared.active s' r hr).2.2.2.2 (hu ▸ hlive)).1
      rw [hu, hlookup] at hreg
      cases hreg
      rw [hactive] at hr
      cases hr
    have hadmits : Admits s.shared slot ⟨root s.shared slot, b, token, handle⟩ := by
      refine ⟨hslot.1, rfl, hhandle, ?_, hlookup, hvalid, hinactive, fun k hk hu => ?_⟩
      · have hgen := validateAccounting_ok hvalid
        rw [hhandle] at hgen
        exact Nat.le_of_eq hgen.symm
      · obtain ⟨s', r, hr, hru⟩ := (hinv.shared.tickets k hk).2.2 (by rw [hu]; exact hlive)
        exact hinactive s' r hr (hru.trans hu)
    have hstep : SlotStep s.shared slot { s.shared.slots slot with
        active := some ⟨root s.shared slot, b, token, handle⟩
        locked := false } := by
      refine ⟨rfl, fun r hr _ => ?_, fun r hr => .inr ?_⟩
      · rw [hactive] at hr
        cases hr
      · cases hr
        exact hlive
    refine inv_activated hinv hi hrequest hc (hinv.shared.setSlot hstep ?_ ?_) ?_ rfl ⟨hlookup, ?_, ?_⟩
      hlive ?_ ?_
    · rintro r ⟨⟩ -
      exact hadmits
    · exact fun _ _ _ _ _ _ => ⟨hidle, rfl⟩
    · exact fun j d hj hd =>
        (hinv.calls j d hd).setSlot hstep hinv.live_opened (hexcl j d hj hd)
    · exact setSlot_root hstep.root slot
    · rw [setSlot_self]
    · rw [setSlot_self]
      exact hidle
    · rw [setSlot_self]

theorem inv_activate {result : Shared × Phase} (hinv : Inv s) (hi : s.calls[i]? = some c)
    (hrequest : c.request = .activateWorkspace token R b) (hkeeps : KeepsRevoked s c)
    (h : activateStep limits s.shared (held s) (deactivating s token) token R b env c.phase =
      some result) : Inv (withCall s i c result) := by
  obtain ⟨hnot, hactivates, htoken, hs⟩ := hinv.activation hi hrequest
  have hcall := hinv.calls i c hi
  cases hphase : c.phase with
  | start =>
    rw [hphase, activateStep] at h
    cases h
    have hc : c.phase.isDone = false := by
      rw [hphase]
      rfl
    split
    · exact inv_fail hinv hi hc hnot hs (.inl rfl)
    · refine hinv.move hi hc (CallInv.plain rfl (fun s h => (fun hno => by cases hno)) (fun s hs => (by cases hs))
        (fun _ hr => (by cases hr)) (fun ha => (by cases ha)) (fun s _ hs => (by cases hs)) ?_)
        fun slot hs => (by cases hs)
      intro hs'
      rw [hs] at hs'
      cases hs'
  | looking =>
    rw [hphase, activateStep] at h
    cases h
    exact inv_activate_looking hinv hi hrequest hphase
  | waiting slot =>
    rw [hphase, activateStep] at h
    split at h
    · rename_i hready
      cases h
      exact inv_activate_waiting hinv hi hrequest hphase hkeeps (of_decide_eq_true hready.1) hready.2
    · cases h
  | opened slot handle =>
    rw [hphase, activateStep] at h
    cases h
    exact inv_activate_opened hinv hi hrequest hphase
  | _ =>
    rw [hphase] at h
    cases h

end Activation

section Reopening
variable {s : Service} {i : Nat} {c : Call} {token slot : Nat} {R b : Text}

/-- What is still owed to the call. -/
theorem Inv.owed (hinv : Inv s) (hi : s.calls[i]? = some c)
    (hrequest : c.request = .openRegisteredStore token R b) (hs : c.since = true) :
    OwedAt s.shared token R b c.phase := by
  obtain ⟨t, R', b', hrequest', howed⟩ := (hinv.calls i c hi).owed hs
  rw [hrequest] at hrequest'
  cases hrequest'
  exact howed

/-- A call of `open_registered_store` moves on; if it is owed an answer it stays so. -/
theorem inv_open_move {p : Phase} (hinv : Inv s) (hi : s.calls[i]? = some c)
    (hrequest : c.request = .openRegisteredStore token R b) (hc : c.phase.isDone = false)
    (hp : p.exclusive = none) (hanswer : p.verdict ≠ some (.ok true))
    (hslot : ∀ s', p.slot = some s' → s' < s.shared.next ∧ s.shared.paths (root s.shared s') = some s')
    (hfound : ∀ s' h, p = .found s' h → s.shared.revoked token = false →
      ∃ r, (s.shared.slots s').active = some r ∧ r.token = token ∧ r.handle = h)
    (howed : c.since = true → OwedAt s.shared token R b p) :
    Inv (withCall s i c (s.shared, p)) := by
  have hclaims : ∀ s', p.claims ≠ some s' := by
    intro s' hs
    rw [Phase.exclusive_of_claims hs] at hp
    cases hp
  have hopened : ∀ s' h, p ≠ .opened s' h := by
    rintro s' h rfl
    cases hp
  refine hinv.move hi hc ?_ fun slot hs => by
    rw [hp] at hs
    cases hs
  exact
    { slot := hslot
      claim := fun s' hs => (hclaims s' hs).elim
      owner := fun s' hs => (hclaims s' (Phase.claims_of_owns hs)).elim
      closing := fun s' hs => (hclaims s' (Phase.claims_of_closes hs)).elim
      quiet := fun s' hs => (hclaims s' (Phase.claims_of_closes (Phase.closes_of_quiet hs))).elim
      revoked := fun hd => by
        rw [hrequest] at hd
        cases hd
      stale := fun ha => (hanswer ha).elim
      pending := fun s' ha => by
        rw [hrequest] at ha
        cases ha
      opened := fun s' h hs => (hopened s' h hs).elim
      target := fun s' h _ _ _ hs => (hopened s' h hs).elim
      found := fun s' h hs hr => by
        rw [hrequest] at hr ⊢
        exact hfound s' h hs hr
      owed := fun hs => ⟨token, R, b, hrequest, howed hs⟩ }

/-- What is on record is registered and valid. -/
theorem SharedInv.owes {sh : Shared} (h : SharedInv sh) (ho : (token, R, b) ∈ sh.opened) :
    sh.revoked token = false ∧ ∃ s handle, Serves sh s token R b handle ∧
      (sh.slots s).deactivating = false ∧ (sh.slots s).locked = false ∧ Valid sh handle := by
  obtain ⟨hlive, s, handle, hserves, hd, hl⟩ := h.opened token R b ho
  exact ⟨hlive, s, handle, hserves, hd, hl, ((h.active s _ hserves.2.2).2.2.2.2 hlive).2⟩

theorem serves_filter {sh : Shared} {handle : Handle} (h : Serves sh slot token R b handle) :
    (sh.slots slot).active.filter (fun r => r.serves token R b) =
      some ⟨R, b, token, handle⟩ := by
  rw [h.2.2]
  simp [RegisteredWorkspace.serves]

theorem inv_open {result : Shared × Phase} (hinv : Inv s) (hi : s.calls[i]? = some c)
    (hrequest : c.request = .openRegisteredStore token R b)
    (h : openStep s.shared token R b c.phase = some result) : Inv (withCall s i c result) := by
  have hcall := hinv.calls i c hi
  have howed := fun hs => hinv.owed hi hrequest hs
  cases hphase : c.phase with
  | start =>
    have hc : c.phase.isDone = false := by
      rw [hphase]
      rfl
    rw [hphase] at h howed
    rw [openStep] at h
    cases h
    split
    · rename_i hrevoked
      refine inv_open_move hinv hi hrequest hc rfl (fun hno => by cases hno) (fun s' hs => (by cases hs))
        (fun s' h hs => (by cases hs)) fun hs => ?_
      have hlive := (hinv.shared.owes (howed hs)).1
      rw [hrevoked] at hlive
      cases hlive
    · exact inv_open_move hinv hi hrequest hc rfl (fun hno => by cases hno) (fun s' hs => (by cases hs))
        (fun s' h hs => (by cases hs)) howed
  | looking =>
    have hc : c.phase.isDone = false := by
      rw [hphase]
      rfl
    rw [hphase] at h howed
    rw [openStep] at h
    split at h
    · rename_i hnone
      cases h
      refine inv_open_move hinv hi hrequest hc rfl (fun hno => by cases hno) (fun s' hs => (by cases hs))
        (fun s' h hs => (by cases hs)) fun hs => ?_
      obtain ⟨-, s', handle, hserves, -⟩ := hinv.shared.owes (howed hs)
      rw [hserves.1] at hnone
      cases hnone
    · rename_i slot hlookup
      cases h
      refine inv_open_move hinv hi hrequest hc rfl (fun hno => by cases hno) ?_ (fun s' h hs => (by cases hs))
        fun hs => ⟨howed hs, ?_⟩
      · rintro _ ⟨⟩
        exact hinv.shared.registered hlookup
      · obtain ⟨-, s', handle, hserves, -⟩ := hinv.shared.owes (howed hs)
        have hsame : s' = slot := Option.some.inj (hserves.1.symm.trans hlookup)
        subst hsame
        exact ⟨handle, hserves⟩
  | waiting slot =>
    have hc : c.phase.isDone = false := by
      rw [hphase]
      rfl
    have hslot := hcall.slot slot (by rw [hphase]; rfl)
    rw [hphase] at h howed
    rw [openStep] at h
    split at h
    · split at h
      · rename_i hnone
        cases h
        refine inv_open_move hinv hi hrequest hc rfl (fun hno => by cases hno) ?_ (fun s' h hs => (by cases hs))
          fun hs => ?_
        · rintro _ ⟨⟩
          exact hslot
        · obtain ⟨-, handle, hserves⟩ := howed hs
          rw [serves_filter hserves] at hnone
          cases hnone
      · rename_i r hr
        cases h
        obtain ⟨hactive, hserves⟩ := Option.filter_eq_some_iff.mp hr
        have heq := eq_of_serves hserves
        refine inv_open_move hinv hi hrequest hc rfl (fun hno => by cases hno) ?_ ?_ fun hs => ⟨(howed hs).1, ?_⟩
        · rintro _ ⟨⟩
          exact hslot
        · rintro _ _ ⟨⟩ -
          exact ⟨r, hactive, by rw [heq], rfl⟩
        · obtain ⟨-, handle, hserves'⟩ := howed hs
          rw [serves_filter hserves'] at hr
          cases hr
          exact hserves'
    · cases h
  | found slot handle =>
    have hc : c.phase.isDone = false := by
      rw [hphase]
      rfl
    have hslot := hcall.slot slot (by rw [hphase]; rfl)
    have hfound := hcall.found slot handle hphase
    rw [hphase] at h howed
    rw [openStep] at h
    split at h
    · rename_i hrevoked
      cases h
      refine inv_open_move hinv hi hrequest hc rfl (fun hno => by cases hno) ?_ (fun s' h hs => (by cases hs))
        fun hs => ?_
      · rintro _ ⟨⟩
        exact hslot
      · have hlive := (hinv.shared.owes (howed hs).1).1
        rw [hrevoked] at hlive
        cases hlive
    · rename_i hlive
      have hlive : s.shared.revoked token = false := eq_false_of_ne_true hlive
      split at h
      · rename_i e herror
        cases h
        refine inv_open_move hinv hi hrequest hc rfl (fun hno => by cases hno) ?_ (fun s' h hs => (by cases hs))
          fun hs => ?_
        · rintro _ ⟨⟩
          exact hslot
        · obtain ⟨-, hserves⟩ := howed hs
          have hvalid := ((hinv.shared.active slot _ hserves.2.2).2.2.2.2 hlive).2
          rw [Valid, herror] at hvalid
          cases hvalid
      · cases h
        obtain ⟨r, hactive, hu, rfl⟩ := hfound (by rw [hrequest]; exact hlive)
        have hu : r.token = token := by
          rw [hu, hrequest]
          rfl
        subst hu
        have hissued : ∀ k ∈ s.shared.tickets ++ [⟨r.token, r.handle, .store⟩],
            k ∈ s.shared.tickets ∨ Issued s.shared k := by
          intro k hk
          rcases List.mem_append.mp hk with hold | hnew
          · exact .inl hold
          · rw [List.mem_singleton.mp hnew]
            exact .inr (issued_of_active hinv.shared hactive hlive)
        refine hinv.withCall hi hc (hinv.shared.withTickets hissued) (CallInv.plain rfl
          (fun s h => (fun hno => by cases hno)) (fun s hs => (by cases hs)) (fun _ hr => (by cases hr))
          (fun ha => (by cases ha)) (fun s _ hs => (by cases hs)) ?_)
          (fun j d _ hd => (hinv.calls j d hd).withTickets hissued) (fun slot hs => (by cases hs))
          hinv.still
        exact fun _ => ⟨r.token, R, b, hrequest, r.handle, rfl⟩
  | _ =>
    rw [hphase] at h
    cases h

end Reopening

end AssetLifecycle
