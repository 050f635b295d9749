import GitIM.AssetActivation

/-!
# The lives of asset workspaces

What the critical sections of a deactivation keep, and from all of them what holds in every
run: a root has one slot and one active token, an activated workspace can be opened until its
token is deactivated, and nothing of a deactivated token is accepted.
-/

namespace AssetLifecycle

open TextLines Checked Runs AssetAccounting

section Deactivation
variable {s : Service} {i : Nat} {c : Call} {slot : Nat} {p : Phase} {sh : Shared}

theorem Request.not_activates {request : Request} (h : request.deactivates = true) :
    request.activates = false := by
  cases request <;> first | rfl | cases h

/-- What a deactivation knows that has claimed its slot. -/
theorem CallInv.claiming (hd : c.request.deactivates = true) (hs : c.since = false)
    (hp : p.claims = some slot) (hslot : slot < sh.next ∧ sh.paths (root sh slot) = some slot)
    (hclaim : (sh.slots slot).deactivating = true)
    (howner : p.owns = some slot →
      ∃ r, (sh.slots slot).active = some r ∧ r.token = c.request.token)
    (hclosing : p.closes = some slot → (sh.states (root sh slot)).closing = true)
    (hquiet : p.quiet = some slot → inflight sh (root sh slot) = false)
    (hrevoked : p.revokes = true → sh.revoked c.request.token = true)
    (hstale : p.verdict = some (.ok true) → Stale sh c.request.token ∧
      (p.taking = false → Inactive sh c.request.token)) :
    CallInv sh { c with phase := p } := by
  have hsame : ∀ s', p.claims = some s' → s' = slot := by
    intro s' hs'
    exact Option.some.inj (hs'.symm.trans hp)
  have hslot' : ∀ s', p.slot = some s' → s' = slot := by
    intro s' hs'
    exact Option.some.inj (hs'.symm.trans (Phase.slot_of_claims hp))
  refine
    { slot := fun s' hs' => ?_
      claim := fun s' hs' => ?_
      owner := fun s' hs' => ?_
      closing := fun s' hs' => ?_
      quiet := fun s' hs' => ?_
      revoked := fun _ hr => hrevoked hr
      stale := fun ha => ⟨hrevoked (Phase.revokes_of_verdict ha), hstale ha⟩
      pending := fun s' ha => ?_
      opened := fun s' h hphase => ?_
      target := fun s' h _ _ _ hphase => ?_
      found := fun s' h hphase => ?_
      owed := fun hs' => ?_ }
  · rw [hslot' s' hs']
    exact hslot
  · rw [hsame s' hs']
    exact hclaim
  · have h := hsame s' (Phase.claims_of_owns hs')
    subst h
    exact howner hs'
  · have h := hsame s' (Phase.claims_of_closes hs')
    subst h
    exact hclosing hs'
  · have h := hsame s' (Phase.claims_of_closes (Phase.closes_of_quiet hs'))
    subst h
    exact hquiet hs'
  · have ha' : c.request.activates = true := ha
    rw [Request.not_activates hd] at ha'
    cases ha'
  · have hphase' : p = .opened s' h := hphase
    rw [hphase'] at hp
    cases hp
  · have hphase' : p = .opened s' h := hphase
    rw [hphase'] at hp
    cases hp
  · have hphase' : p = .found s' h := hphase
    rw [hphase'] at hp
    cases hp
  · have hs'' : c.since = true := hs'
    rw [hs] at hs''
    cases hs''

/-- A deactivation is owed nothing. -/
theorem Inv.deactivation (hinv : Inv s) (hi : s.calls[i]? = some c)
    (hd : c.request.deactivates = true) : c.since = false := by
  by_contra hs
  obtain ⟨t, R, b, hopen, -⟩ := (hinv.calls i c hi).owed (eq_true_of_ne_false hs)
  rw [hopen] at hd
  cases hd

/-- A deactivation moves on without a claim. -/
theorem inv_deactivate_move (hinv : Inv s) (hi : s.calls[i]? = some c) (hc : c.phase.isDone = false)
    (hd : c.request.deactivates = true) (hp : p.exclusive = none) (hfound : ∀ s h, p ≠ .found s h)
    (hslot : ∀ s', p.slot = some s' →
      s' < s.shared.next ∧ s.shared.paths (root s.shared s') = some s')
    (hanswer : p.revokes = false) : Inv (withCall s i c (s.shared, p)) := by
  have hs := hinv.deactivation hi hd
  refine hinv.move hi hc (CallInv.plain hp hfound hslot (fun _ hr => ?_) (fun ha => ?_)
    (fun s' ha => ?_) fun hs' => ?_) fun slot hs => ?_
  · rw [hanswer] at hr
    cases hr
  · rw [Phase.revokes_of_verdict ha] at hanswer
    cases hanswer
  · rw [Request.not_activates hd] at ha
    cases ha
  · rw [hs] at hs'
    cases hs'
  · rw [hp] at hs
    cases hs

/-- A deactivation revokes its token. -/
theorem inv_revoke (hinv : Inv s) (hi : s.calls[i]? = some c) (hc : c.phase.isDone = false)
    (hd : c.request.deactivates = true)
    (hself : CallInv (revoke s.shared c.request.token) { c with phase := p })
    (hexcl : ∀ slot, p.exclusive = some slot → c.phase.exclusive = some slot) :
    Inv (withCall s i c (revoke s.shared c.request.token, p)) :=
  hinv.withCall hi hc (hinv.shared.revoke (hinv.not_opened hi hd hc)) hself
    (fun j d _ hj => (hinv.calls j d hj).revoke _) (fun slot hs => .inl (hexcl slot hs)) hinv.still

/-- The slot of a claim is not on record. -/
theorem Inv.claim_not_served (hinv : Inv s) (hi : s.calls[i]? = some c)
    (hclaim : c.phase.claims = some slot) {u : Nat} {R b : Text} {handle : Handle}
    (ho : (u, R, b) ∈ s.shared.opened) (hserves : Serves s.shared slot u R b handle) : False := by
  obtain ⟨-, s', handle', hserves', hidle, -⟩ := hinv.shared.opened u R b ho
  have hsame : s' = slot := Option.some.inj (hserves'.1.symm.trans hserves.1)
  subst hsame
  have hflag := (hinv.calls i c hi).claim s' hclaim
  rw [hidle] at hflag
  cases hflag

theorem Inv.others_exclusive (hinv : Inv s) (hi : s.calls[i]? = some c)
    (hclaim : c.phase.claims = some slot) :
    ∀ j d, j ≠ i → s.calls[j]? = some d → d.phase.exclusive ≠ some slot :=
  fun j d hj hd =>
    hinv.exclusive i j c d slot hi hd (Ne.symm hj) (Phase.exclusive_of_claims hclaim)

theorem inv_claim (hinv : Inv s) (hi : s.calls[i]? = some c) (hphase : c.phase = .waiting slot)
    (hd : c.request.deactivates = true) (hfree : (s.shared.slots slot).locked = false)
    (hidle : (s.shared.slots slot).deactivating = false) {r : RegisteredWorkspace}
    (hactive : (s.shared.slots slot).active = some r) (htoken : r.token = c.request.token) :
    Inv (withCall s i c (setSlot s.shared slot
      { s.shared.slots slot with deactivating := true }, .claimed slot)) := by
  have hcall := hinv.calls i c hi
  have hc : c.phase.isDone = false := by
    rw [hphase]
    rfl
  have hslot := hcall.slot slot (by rw [hphase]; rfl)
  have hexcl : ∀ j d, j ≠ i → s.calls[j]? = some d → d.phase.exclusive ≠ some slot :=
    fun j d _ hj => hinv.not_exclusive hfree hidle j d hj
  have hstep : SlotStep s.shared slot { s.shared.slots slot with deactivating := true } :=
    ⟨rfl, fun r hr _ => hr, fun r hr => .inl hr⟩
  refine hinv.withCall hi hc (hinv.shared.setSlot hstep (fun r hr hne => (hne hr).elim) ?_)
    (CallInv.claiming hd (hinv.deactivation hi hd) rfl ?_ ?_ ?_ (fun hp => (by cases hp))
      (fun hp => (by cases hp)) (fun hp => (by cases hp)) fun hp => (by cases hp))
    (fun j d hj hget => (hinv.calls j d hget).setSlot hstep hinv.live_opened (hexcl j d hj hget))
    (fun slot' hs => ?_) hinv.still
  · rintro u R b handle ho ⟨-, -, hserves⟩
    rw [hactive] at hserves
    cases hserves
    exact (hinv.not_opened hi hd hc _ ho htoken).elim
  · rw [setSlot_root hstep.root]
    exact hslot
  · rw [setSlot_self]
  · intro _
    rw [setSlot_self]
    exact ⟨r, hactive, htoken⟩
  · cases hs
    exact .inr hexcl

/-- The claim of a slot is given back. -/
theorem inv_unclaim (hinv : Inv s) (hi : s.calls[i]? = some c)
    (hc : c.phase.isDone = false) (hclaim : c.phase.claims = some slot)
    (hself : ∀ sh : Shared, sh.tokens = s.shared.tokens → sh.next = s.shared.next →
      (∀ s', root sh s' = root s.shared s') → sh.paths = s.shared.paths →
      sh.revoked = s.shared.revoked → (∀ t, Stale s.shared t → Stale sh t) →
      (∀ t, s.shared.revoked t = true → Inactive s.shared t → Inactive sh t) →
      CallInv sh { c with phase := p })
    (hp : p.exclusive = none) :
    Inv (withCall s i c (setSlot s.shared slot
      { s.shared.slots slot with deactivating := false }, p)) := by
  have hstep : SlotStep s.shared slot { s.shared.slots slot with deactivating := false } :=
    ⟨rfl, fun r hr _ => hr, fun r hr => .inl hr⟩
  refine hinv.withCall hi hc (hinv.shared.setSlot hstep (fun r hr hne => (hne hr).elim) ?_)
    (hself _ rfl rfl (setSlot_root hstep.root) rfl rfl (fun t h => h)
      (fun t ht h => hstep.inactive ht h))
    (fun j d hj hget => (hinv.calls j d hget).setSlot hstep hinv.live_opened
      (hinv.others_exclusive hi hclaim j d hj hget)) (fun slot' hs => ?_) hinv.still
  · intro u R b handle ho hserves
    exact (hinv.claim_not_served hi hclaim ho hserves).elim
  · rw [hp] at hs
    cases hs

theorem inv_close {result : Shared × Phase} {waits : Bool} (hinv : Inv s)
    (hi : s.calls[i]? = some c) (hd : c.request.deactivates = true)
    (hphase : c.phase = .claimed slot) (h : closeStep s.shared waits slot = some result) :
    Inv (withCall s i c result) := by
  have hcall := hinv.calls i c hi
  have hs := hinv.deactivation hi hd
  have hc : c.phase.isDone = false := by
    rw [hphase]
    rfl
  have hclaim : c.phase.claims = some slot := by
    rw [hphase]
    rfl
  have hslot := hcall.slot slot (Phase.slot_of_claims hclaim)
  have hflag := hcall.claim slot hclaim
  have howner := hcall.owner slot (by rw [hphase]; rfl)
  -- the store is closed for new uploads; with no upload under way it is idle at once
  have hclosed : ∀ q : Phase, q.claims = some slot → q.revokes = false →
      (q.quiet = some slot → inflight s.shared (root s.shared slot) = false) →
      q.exclusive = some slot → Inv (withCall s i c
        (setClosing s.shared (root s.shared slot) true, q)) := by
    intro q hq hrevokes hquiet hexcl
    refine hinv.withCall hi hc hinv.shared.setClosing (CallInv.claiming hd hs hq hslot hflag
      (fun _ => howner) (fun _ => ?_) hquiet (fun hr => ?_) fun ha => ?_)
      (fun j d _ hj => (hinv.calls j d hj).setClosing fun _ _ _ => rfl) (fun slot' hs' => .inl ?_)
      hinv.still
    · exact congrArg StoreState.closing (setState_self _ _ _)
    · rw [hrevokes] at hr
      cases hr
    · rw [Phase.revokes_of_verdict ha] at hrevokes
      cases hrevokes
    · rw [Phase.exclusive_of_claims hclaim, ← hexcl]
      exact hs'
  simp only [closeStep] at h
  split at h
  · split at h
    · cases h
    · cases h
      exact hclosed (.closed slot) rfl rfl (fun hp => (by cases hp)) rfl
  · split at h
    · cases h
      refine hinv.move hi hc (CallInv.claiming hd hs rfl hslot hflag (fun hp => (by cases hp))
        (fun hp => (by cases hp)) (fun hp => (by cases hp)) (fun hp => (by cases hp))
        fun hp => (by cases hp)) ?_
      rintro _ ⟨⟩
      rw [hphase]
      rfl
    · rename_i hidle
      cases h
      exact hclosed (.idle slot) rfl rfl
        (fun _ => eq_false_of_ne_true fun h => hidle (.inr h)) rfl

theorem inv_idle (hinv : Inv s) (hi : s.calls[i]? = some c) (hd : c.request.deactivates = true)
    (hphase : c.phase = .closed slot) (hquiet : inflight s.shared (root s.shared slot) = false) :
    Inv (withCall s i c (s.shared, .idle slot)) := by
  have hcall := hinv.calls i c hi
  have hclaim : c.phase.claims = some slot := by
    rw [hphase]
    rfl
  refine hinv.move hi (by rw [hphase]; rfl) (CallInv.claiming hd (hinv.deactivation hi hd) rfl
    (hcall.slot slot (Phase.slot_of_claims hclaim)) (hcall.claim slot hclaim)
    (fun _ => hcall.owner slot (by rw [hphase]; rfl))
    (fun _ => hcall.closing slot (by rw [hphase]; rfl)) (fun _ => hquiet) (fun hp => (by cases hp))
    fun hp => (by cases hp)) ?_
  rintro _ ⟨⟩
  exact Phase.exclusive_of_claims hclaim

theorem inv_revoked (hinv : Inv s) (hi : s.calls[i]? = some c) (hd : c.request.deactivates = true)
    (hphase : c.phase = .idle slot) :
    Inv (withCall s i c (revoke s.shared c.request.token, .revoked slot)) := by
  have hcall := (hinv.calls i c hi).revoke c.request.token
  have hclaim : c.phase.claims = some slot := by
    rw [hphase]
    rfl
  refine inv_revoke hinv hi (by rw [hphase]; rfl) hd (CallInv.claiming hd (hinv.deactivation hi hd)
    rfl (hcall.slot slot (Phase.slot_of_claims hclaim)) (hcall.claim slot hclaim)
    (fun _ => hcall.owner slot (by rw [hphase]; rfl))
    (fun _ => hcall.closing slot (by rw [hphase]; rfl))
    (fun _ => hcall.quiet slot (by rw [hphase]; rfl)) (fun _ => revoke_self _ _)
    fun hp => (by cases hp)) ?_
  rintro _ ⟨⟩
  exact Phase.exclusive_of_claims hclaim

/-- Once its generation is over, nothing that was obtained under the token is accepted. -/
theorem stale_of_invalidated {acc : AccountingState} {token : Nat} {r : RegisteredWorkspace}
    (h : SharedInv sh) (hactive : (sh.slots slot).active = some r) (htoken : r.token = token)
    (hquiet : inflight sh (root sh slot) = false)
    (hgen : acc.generation = generationOf sh (root sh slot) + 1) :
    Stale (setAccounting sh (root sh slot) acc) token := by
  intro k hk hu
  obtain ⟨hle, hroot, -⟩ := h.tickets k hk
  have hk' : k ∈ sh.tickets := hk
  have hsame : k.handle.root = root sh slot := hroot slot r hactive (htoken.trans hu.symm)
  have hnone : k.kind.leases = false := by
    simp only [inflight, List.any_eq_false, decide_eq_true_eq, not_and] at hquiet
    exact eq_false_of_ne_true (hquiet k hk' hsame)
  refine ⟨?_, ?_, ?_⟩
  · have hnew : generationOf (setAccounting sh (root sh slot) acc) k.handle.root =
        acc.generation := by
      rw [hsame, generationOf, setAccounting, setState_self]
    rw [hsame] at hle
    rw [hnew]
    omega
  · intro hkind
    rw [hkind] at hnone
    cases hnone
  · intro hkind
    rw [hkind] at hnone
    cases hnone

theorem inv_invalidated (hinv : Inv s) (hi : s.calls[i]? = some c)
    (hd : c.request.deactivates = true) (hphase : c.phase = .revoked slot) :
    let invalidation := invalidateWorkspaceStore s.shared (root s.shared slot)
    Inv (withCall s i c (invalidation.1,
      .invalidated slot (invalidation.2.map fun _ => true))) := by
  intro invalidation
  have hcall := hinv.calls i c hi
  have hs := hinv.deactivation hi hd
  have hc : c.phase.isDone = false := by
    rw [hphase]
    rfl
  have hclaim : c.phase.claims = some slot := by
    rw [hphase]
    rfl
  have hslot := hcall.slot slot (Phase.slot_of_claims hclaim)
  have hflag := hcall.claim slot hclaim
  obtain ⟨r, hactive, htoken⟩ := hcall.owner slot (by rw [hphase]; rfl)
  have hclosing := hcall.closing slot (by rw [hphase]; rfl)
  have hquiet := hcall.quiet slot (by rw [hphase]; rfl)
  have hrevoked := hcall.revoked hd (by rw [hphase]; rfl)
  rcases invalidate_cases s.shared (root s.shared slot) with ⟨e, heq⟩ | ⟨acc, heq, hgen⟩
  · have hresult : invalidation = (s.shared, .error e) := heq
    rw [hresult]
    refine hinv.move hi hc (CallInv.claiming hd hs rfl hslot hflag (fun _ => ⟨r, hactive, htoken⟩)
      (fun _ => hclosing) (fun hp => (by cases hp)) (fun _ => hrevoked) fun ha => (by cases ha)) ?_
    rintro _ ⟨⟩
    exact Phase.exclusive_of_claims hclaim
  · have hresult : invalidation = (setAccounting s.shared (root s.shared slot) acc, .ok ()) := heq
    rw [hresult]
    have hle : generationOf s.shared (root s.shared slot) ≤ acc.generation := by omega
    have hdead := hinv.dead_root hslot.2 fun r' hr' => by
      rw [hactive] at hr'
      cases hr'
      rw [htoken]
      exact hrevoked
    refine hinv.withCall hi hc (hinv.shared.setAccounting hle hdead) (CallInv.claiming hd hs rfl hslot
      hflag (fun _ => ⟨r, hactive, htoken⟩) (fun _ => ?_) (fun hp => (by cases hp))
      (fun _ => hrevoked) fun _ => ⟨?_, fun htaking => (by cases htaking)⟩)
      (hinv.setAccounting_others hslot.2 hle (hinv.others_exclusive hi hclaim)) ?_ hinv.still
    · exact (setAccounting_closing _).trans hclosing
    · exact stale_of_invalidated hinv.shared hactive htoken hquiet hgen
    · rintro _ ⟨⟩
      exact .inl (Phase.exclusive_of_claims hclaim)

theorem inv_taken {verdict : Verdict} (hinv : Inv s) (hi : s.calls[i]? = some c)
    (hd : c.request.deactivates = true) (hphase : c.phase = .invalidated slot verdict) :
    Inv (withCall s i c (setSlot s.shared slot { s.shared.slots slot with
      active := (s.shared.slots slot).active.filter fun r => r.token ≠ c.request.token },
      .taken slot verdict)) := by
  have hcall := hinv.calls i c hi
  have hs := hinv.deactivation hi hd
  have hc : c.phase.isDone = false := by
    rw [hphase]
    rfl
  have hclaim : c.phase.claims = some slot := by
    rw [hphase]
    rfl
  have hslot := hcall.slot slot (Phase.slot_of_claims hclaim)
  obtain ⟨r, hactive, htoken⟩ := hcall.owner slot (by rw [hphase]; rfl)
  have hrevoked := hcall.revoked hd (by rw [hphase]; rfl)
  have hstep : SlotStep s.shared slot { s.shared.slots slot with
      active := (s.shared.slots slot).active.filter fun r => r.token ≠ c.request.token } := by
    refine ⟨rfl, fun r' hr' hlive => ?_, fun r' hr' => .inl (Option.filter_eq_some_iff.mp hr').1⟩
    rw [hactive] at hr'
    cases hr'
    rw [htoken, hrevoked] at hlive
    cases hlive
  -- the token was active here and nowhere else
  have hinactive : Inactive (setSlot s.shared slot { s.shared.slots slot with
      active := (s.shared.slots slot).active.filter fun r => r.token ≠ c.request.token })
      c.request.token := by
    intro s' r' hr' hu
    by_cases hsame : s' = slot
    · subst hsame
      rw [setSlot_self] at hr'
      have hne := (Option.filter_eq_some_iff.mp hr').2
      simp [hu] at hne
    · rw [setSlot_of_ne hsame] at hr'
      exact hsame (hinv.shared.unique s' r' slot r hr' hactive (hu.trans htoken.symm))
  refine hinv.withCall hi hc (hinv.shared.setSlot hstep ?_ ?_) (CallInv.claiming hd hs rfl ?_ ?_
    (fun hp => (by cases hp)) (fun _ => ?_) (fun hp => (by cases hp)) (fun _ => hrevoked)
    fun ha => ⟨(hcall.stale (by rw [hphase]; exact ha)).2.1, fun _ => hinactive⟩)
    (fun j d hj hget => (hinv.calls j d hget).setSlot hstep hinv.live_opened
      (hinv.others_exclusive hi hclaim j d hj hget)) ?_ hinv.still
  · intro r' hr' hne
    exact (hne (Option.filter_eq_some_iff.mp hr').1).elim
  · intro u R b handle ho hserves
    exact (hinv.claim_not_served hi hclaim ho hserves).elim
  · rw [setSlot_root hstep.root]
    exact hslot
  · rw [setSlot_self]
    exact hcall.claim slot hclaim
  · rw [setSlot_root hstep.root]
    exact hcall.closing slot (by rw [hphase]; rfl)
  · rintro _ ⟨⟩
    exact .inl (Phase.exclusive_of_claims hclaim)

/-- The store is open for business again. -/
theorem inv_reopen (hinv : Inv s) (hi : s.calls[i]? = some c) (hc : c.phase.isDone = false)
    (hclaim : c.phase.claims = some slot)
    (hself : CallInv (setClosing s.shared (root s.shared slot) false) { c with phase := p })
    (hp : p.exclusive = some slot) :
    Inv (withCall s i c (setClosing s.shared (root s.shared slot) false, p)) := by
  have hslot := (hinv.calls i c hi).slot slot (Phase.slot_of_claims hclaim)
  refine hinv.withCall hi hc hinv.shared.setClosing hself (fun j d hj hget => ?_)
    (fun slot' hs => .inl ?_) hinv.still
  · have hd := hinv.calls j d hget
    refine hd.setClosing fun s' hs' hroot => ?_
    -- two claims on one root are claims on one slot
    have hclaim' := Phase.claims_of_closes hs'
    have hslot' := hd.slot s' (Phase.slot_of_claims hclaim')
    have hsame := slot_unique hslot'.2 hslot.2 hroot
    subst hsame
    exact (hinv.others_exclusive hi hclaim j d hj hget (Phase.exclusive_of_claims hclaim')).elim
  · rw [Phase.exclusive_of_claims hclaim, ← hp]
    exact hs

theorem inv_release_claim {verdict : Verdict} (hinv : Inv s) (hi : s.calls[i]? = some c)
    (hd : c.request.deactivates = true) (hphase : c.phase = .reopened slot verdict) :
    Inv (withCall s i c (setSlot s.shared slot
      { s.shared.slots slot with deactivating := false }, .releasing slot verdict)) := by
  have hcall := hinv.calls i c hi
  have hclaim : c.phase.claims = some slot := by
    rw [hphase]
    rfl
  have hslot := hcall.slot slot (Phase.slot_of_claims hclaim)
  have hrevoked := hcall.revoked hd (by rw [hphase]; rfl)
  refine inv_unclaim hinv hi (by rw [hphase]; rfl) hclaim (fun sh _ hnext hroot hpaths hrev hstale
    hinactive => CallInv.plain rfl (fun s h => (fun hno => by cases hno)) ?_ (fun _ _ => ?_) (fun ha => ?_)
      (fun s' _ hs => (by cases hs)) fun hs => ?_) rfl
  · rintro _ ⟨⟩
    rw [hnext, hroot, hpaths]
    exact hslot
  · rw [hrev]
    exact hrevoked
  · have h := hcall.stale (by rw [hphase]; exact ha)
    rw [hrev]
    exact ⟨h.1, hstale _ h.2.1, hinactive _ h.1 (h.2.2 (by rw [hphase]; rfl))⟩
  · rw [hinv.deactivation hi hd] at hs
    cases hs

theorem inv_give_up {verdict : Verdict} (hinv : Inv s) (hi : s.calls[i]? = some c)
    (hd : c.request.deactivates = true) (hphase : c.phase = .unclaiming slot verdict) :
    Inv (withCall s i c (setSlot s.shared slot
      { s.shared.slots slot with deactivating := false }, .done (verdict.map .deactivated))) := by
  have hclaim : c.phase.claims = some slot := by
    rw [hphase]
    rfl
  refine inv_unclaim hinv hi (by rw [hphase]; rfl) hclaim (fun sh _ _ _ _ _ _ _ =>
    CallInv.plain rfl (fun s h => (fun hno => by cases hno)) (fun s' hs => (by cases hs)) (fun _ hr => (by cases hr))
      (fun ha => (by cases ha)) (fun s' _ hs => (by cases hs)) fun hs => ?_) rfl
  rw [hinv.deactivation hi hd] at hs
  cases hs

theorem inv_deactivate {result : Shared × Phase} {waits : Bool} (hinv : Inv s)
    (hi : s.calls[i]? = some c) (hd : c.request.deactivates = true)
    (h : deactivateStep s.shared waits c.request.token c.phase = some result) :
    Inv (withCall s i c result) := by
  have hcall := hinv.calls i c hi
  cases hphase : c.phase with
  | start =>
    rw [hphase, deactivateStep] at h
    cases h
    exact inv_deactivate_move hinv hi (by rw [hphase]; rfl) hd rfl (fun s h => (fun hno => by cases hno))
      (fun s' hs => (by cases hs)) rfl
  | looking =>
    rw [hphase, deactivateStep] at h
    split at h
    · cases h
      exact inv_deactivate_move hinv hi (by rw [hphase]; rfl) hd rfl (fun s h => (fun hno => by cases hno))
        (fun s' hs => (by cases hs)) rfl
    · rename_i slot hlookup
      cases h
      refine inv_deactivate_move hinv hi (by rw [hphase]; rfl) hd rfl (fun s h => (fun hno => by cases hno)) ?_ rfl
      rintro _ ⟨⟩
      exact hinv.shared.registered hlookup
  | unregistered =>
    rw [hphase, deactivateStep] at h
    cases h
    refine inv_revoke hinv hi (by rw [hphase]; rfl) hd (CallInv.plain rfl (fun s h => (fun hno => by cases hno))
      (fun s' hs => (by cases hs)) (fun _ hr => (by cases hr)) (fun ha => (by cases ha))
      (fun s' _ hs => (by cases hs)) fun hs => ?_) fun slot hs => (by cases hs)
    rw [hinv.deactivation hi hd] at hs
    cases hs
  | waiting slot =>
    have hslot := hcall.slot slot (by rw [hphase]; rfl)
    have hc : c.phase.isDone = false := by
      rw [hphase]
      rfl
    rw [hphase] at h
    simp only [deactivateStep] at h
    split at h
    · cases h
    rename_i hfree
    have hfree : (s.shared.slots slot).locked = false :=
      of_decide_eq_true (eq_true_of_ne_false hfree)
    split at h
    · cases h
      exact inv_deactivate_move hinv hi hc hd rfl (fun s h => (fun hno => by cases hno))
        (fun s' hs => (by cases hs)) rfl
    · rename_i hidle
      split at h
      · cases h
        refine inv_deactivate_move hinv hi hc hd rfl (fun s h => (fun hno => by cases hno)) ?_ rfl
        rintro _ ⟨⟩
        exact hslot
      · rename_i r hr
        cases h
        obtain ⟨hactive, htoken⟩ := Option.filter_eq_some_iff.mp hr
        exact inv_claim hinv hi hphase hd hfree (eq_false_of_ne_true hidle) hactive
          (of_decide_eq_true htoken)
  | refused slot =>
    have hslot := hcall.slot slot (by rw [hphase]; rfl)
    rw [hphase, deactivateStep] at h
    cases h
    refine inv_revoke hinv hi (by rw [hphase]; rfl) hd (CallInv.plain rfl (fun s h => (fun hno => by cases hno)) ?_
      (fun _ _ => revoke_self _ _) (fun ha => (by cases ha)) (fun s' _ hs => (by cases hs)) fun hs => ?_)
      fun slot hs => (by cases hs)
    · rintro _ ⟨⟩
      exact hslot
    · rw [hinv.deactivation hi hd] at hs
      cases hs
  | claimed slot =>
    rw [hphase, deactivateStep] at h
    exact inv_close hinv hi hd hphase h
  | closed slot =>
    rw [hphase, deactivateStep] at h
    split at h
    · cases h
    · rename_i hquiet
      cases h
      exact inv_idle hinv hi hd hphase (eq_false_of_ne_true hquiet)
  | idle slot =>
    rw [hphase, deactivateStep] at h
    cases h
    exact inv_revoked hinv hi hd hphase
  | revoked slot =>
    rw [hphase, deactivateStep] at h
    cases h
    exact inv_invalidated hinv hi hd hphase
  | invalidated slot verdict =>
    rw [hphase] at h
    simp only [deactivateStep] at h
    split at h
    · cases h
      exact inv_taken hinv hi hd hphase
    · cases h
  | taken slot verdict =>
    rw [hphase, deactivateStep] at h
    cases h
    have hclaim : c.phase.claims = some slot := by
      rw [hphase]
      rfl
    refine inv_reopen hinv hi (by rw [hphase]; rfl) hclaim (CallInv.claiming hd
      (hinv.deactivation hi hd) rfl (hcall.slot slot (Phase.slot_of_claims hclaim))
      (hcall.claim slot hclaim) (fun hp => (by cases hp)) (fun hp => (by cases hp))
      (fun hp => (by cases hp)) (fun _ => hcall.revoked hd (by rw [hphase]; rfl)) fun ha => ?_) rfl
    have hstale := hcall.stale (by rw [hphase]; exact ha)
    exact ⟨setClosing_stale hstale.2.1, fun _ => hstale.2.2 (by rw [hphase]; rfl)⟩
  | reopened slot verdict =>
    rw [hphase, deactivateStep] at h
    split at h
    · cases h
      exact inv_release_claim hinv hi hd hphase
    · cases h
  | unclaiming slot verdict =>
    rw [hphase, deactivateStep] at h
    split at h
    · cases h
      exact inv_give_up hinv hi hd hphase
    · cases h
  | _ =>
    rw [hphase] at h
    cases h

/-- A deactivation that is given up while it waits gives back what it has. -/
theorem inv_cancel {result : Shared × Phase} (hinv : Inv s) (hi : s.calls[i]? = some c)
    (h : cancelStep s.shared c.request c.phase = some result) : Inv (withCall s i c result) := by
  have hcall := hinv.calls i c hi
  unfold cancelStep at h
  split at h
  · rename_i token slot hrequest hphase
    cases h
    have hd : c.request.deactivates = true := by
      rw [hrequest]
      rfl
    have hclaim : c.phase.claims = some slot := by
      rw [hphase]
      rfl
    refine hinv.move hi (by rw [hphase]; rfl) (CallInv.claiming hd (hinv.deactivation hi hd) rfl
      (hcall.slot slot (Phase.slot_of_claims hclaim)) (hcall.claim slot hclaim)
      (fun hp => (by cases hp)) (fun hp => (by cases hp)) (fun hp => (by cases hp))
      (fun hp => (by cases hp)) fun ha => (by cases ha)) ?_
    rintro _ ⟨⟩
    exact Phase.exclusive_of_claims hclaim
  · rename_i token slot hrequest hphase
    cases h
    have hd : c.request.deactivates = true := by
      rw [hrequest]
      rfl
    have hclaim : c.phase.claims = some slot := by
      rw [hphase]
      rfl
    exact inv_reopen hinv hi (by rw [hphase]; rfl) hclaim (CallInv.claiming hd
      (hinv.deactivation hi hd) rfl (hcall.slot slot (Phase.slot_of_claims hclaim))
      (hcall.claim slot hclaim) (fun hp => (by cases hp)) (fun hp => (by cases hp))
      (fun hp => (by cases hp)) (fun hp => (by cases hp)) fun ha => (by cases ha)) rfl
  · cases h

end Deactivation

section Steps
variable {limits : AssetLimits} {s t : Service} {i : Nat} {c : Call}

/-- What the condition asks of an action. -/
def Keeps (s : Service) : Action → Prop
  | .advance i _ => ∀ c ∈ s.calls[i]?, KeepsEntry s i c ∧ KeepsRevoked s c
  | _ => True

theorem inv_call {env : OpenEnv} {result : Shared × Phase} (hinv : Inv s)
    (hi : s.calls[i]? = some c) (hentry : KeepsEntry s i c) (hrevoked : KeepsRevoked s c)
    (h : callStep limits s.shared (held s) (deactivating s c.request.token) env c.request c.phase =
      some result) : Inv (withCall s i c result) := by
  unfold callStep at h
  split at h
  · rename_i cleaned hcleanup
    cases h
    cases hphase : c.phase with
    | releasing slot verdict =>
      rw [hphase, cleanupStep] at hcleanup
      cases hcleanup
      exact inv_releasing hinv hi hentry hphase
    | dropping slot verdict =>
      rw [hphase, cleanupStep] at hcleanup
      cases hcleanup
      exact inv_dropping hinv hi hphase
    | sweeping slot verdict =>
      rw [hphase, cleanupStep] at hcleanup
      cases hcleanup
      exact inv_sweeping hinv hi hphase
    | _ =>
      rw [hphase] at hcleanup
      cases hcleanup
  · split at h
    · rename_i token R b hrequest
      have htoken : c.request.token = token := by
        rw [hrequest]
        rfl
      rw [htoken] at h
      exact inv_activate hinv hi hrequest hrevoked h
    · rename_i token R b hrequest
      exact inv_open hinv hi hrequest h
    · rename_i token hrequest
      have htoken : c.request.token = token := by
        rw [hrequest]
        rfl
      rw [← htoken] at h
      exact inv_deactivate hinv hi (by rw [hrequest]; rfl) h
    · rename_i token hrequest
      have htoken : c.request.token = token := by
        rw [hrequest]
        rfl
      rw [← htoken] at h
      exact inv_deactivate hinv hi (by rw [hrequest]; rfl) h

/-- A call begins; the others may only lose what they are owed. -/
theorem inv_begin_of {f : Call → Call} {new : Call} {sh : Shared} (hinv : Inv s)
    (hf : ∀ d, (f d).request = d.request ∧ (f d).phase = d.phase) (hshared : SharedInv sh)
    (hold : ∀ d, CallInv s.shared d → CallInv sh (f d)) (hnew : CallInv sh new)
    (hstart : new.phase = .start) (hstill : ∀ o ∈ sh.opened, deactivating s o.1 = false ∧
      ¬(new.request.token = o.1 ∧ new.request.deactivates = true)) :
    Inv ⟨sh, s.calls.map f ++ [new]⟩ := by
  have hget : ∀ (j : Nat) d, (s.calls.map f ++ [new])[j]? = some d →
      d = new ∨ ∃ d', s.calls[j]? = some d' ∧ d = f d' := by
    intro j d hd
    rcases Nat.lt_or_ge j (s.calls.map f).length with hlt | hge
    · rw [List.getElem?_append_left hlt, List.getElem?_map] at hd
      obtain ⟨d', hd', heq⟩ := Option.map_eq_some_iff.mp hd
      exact .inr ⟨d', hd', heq.symm⟩
    · rw [List.getElem?_append_right hge] at hd
      exact .inl (List.mem_singleton.mp (List.mem_of_getElem? hd))
  have hnone : ∀ slot, new.phase.exclusive ≠ some slot := by
    intro slot hslot
    rw [hstart] at hslot
    cases hslot
  refine ⟨hshared, ?_, ?_, ?_⟩
  · intro j d hd
    rcases hget j d hd with rfl | ⟨d', hd', rfl⟩
    · exact hnew
    · exact hold d' (hinv.calls j d' hd')
  · intro j k d e slot hd he hjk hslot
    rcases hget j d hd with rfl | ⟨d', hd', rfl⟩
    · exact (hnone slot hslot).elim
    · rcases hget k e he with rfl | ⟨e', he', rfl⟩
      · exact hnone slot
      · rw [(hf d').2] at hslot
        rw [(hf e').2]
        exact hinv.exclusive j k d' e' slot hd' he' hjk hslot
  · intro o ho
    obtain ⟨hnot, hnew⟩ := hstill o ho
    simp only [deactivating, List.any_eq_false, decide_eq_true_eq] at hnot ⊢
    intro d hd
    rcases List.mem_append.mp hd with hd | hd
    · obtain ⟨d', hd', rfl⟩ := List.mem_map.mp hd
      rw [(hf d').1, (hf d').2]
      exact hnot d' hd'
    · rw [List.mem_singleton.mp hd]
      exact fun h => hnew ⟨h.1, h.2.1⟩

theorem withdraw_same (token : Nat) (d : Call) :
    (d.withdraw token).request = d.request ∧ (d.withdraw token).phase = d.phase := by
  rw [Call.withdraw]
  split <;> exact ⟨rfl, rfl⟩

/-- With the deactivation of its token begun, an open call is owed nothing more. -/
theorem callInv_withdraw {sh : Shared} {d : Call} {token : Nat} (h : CallInv sh d) :
    CallInv (withOpened sh (sh.opened.filter fun o => o.1 ≠ token)) (d.withdraw token) := by
  have hcall : ∀ e : Call, e.request = d.request → e.phase = d.phase →
      (e.since = true → ∃ t R b, e.request = .openRegisteredStore t R b ∧
        OwedAt (withOpened sh (sh.opened.filter fun o => o.1 ≠ token)) t R b e.phase) →
      CallInv (withOpened sh (sh.opened.filter fun o => o.1 ≠ token)) e := by
    rintro ⟨request, phase, since⟩ hrequest hphase howed
    have hrequest : request = d.request := hrequest
    have hphase : phase = d.phase := hphase
    subst hrequest hphase
    exact
      { slot := h.slot
        claim := h.claim
        owner := h.owner
        closing := h.closing
        quiet := h.quiet
        revoked := h.revoked
        stale := h.stale
        pending := h.pending
        opened := h.opened
        target := h.target
        found := h.found
        owed := howed }
  rw [Call.withdraw]
  split
  · exact hcall _ rfl rfl fun hs => (by cases hs)
  · rename_i hother
    refine hcall d rfl rfl fun hs => ?_
    obtain ⟨t, R, b, hrequest, howed⟩ := h.owed hs
    refine ⟨t, R, b, hrequest, ?_⟩
    have hmem : (t, R, b) ∈ sh.opened → d.phase.isDone = false →
        (t, R, b) ∈ sh.opened.filter fun o => o.1 ≠ token := by
      intro hmem hflight
      refine List.mem_filter.mpr ⟨hmem, decide_eq_true fun htoken => hother ⟨?_, hflight⟩⟩
      rw [hrequest]
      exact htoken
    cases hphase : d.phase with
    | start | looking =>
      rw [hphase] at howed hmem
      exact hmem howed rfl
    | waiting slot =>
      rw [hphase] at howed hmem
      exact ⟨hmem howed.1 rfl, howed.2⟩
    | found slot handle =>
      rw [hphase] at howed hmem
      exact ⟨hmem howed.1 rfl, howed.2⟩
    | done answer =>
      rw [hphase] at howed
      exact howed
    | _ =>
      rw [hphase] at howed
      exact howed.elim

theorem inv_begin (hinv : Inv s) (request : Request) : Inv (beginCall s request) := by
  have hnew : ∀ (sh : Shared) (since : Bool), (since = true → ∃ t R b,
      request = .openRegisteredStore t R b ∧ (t, R, b) ∈ sh.opened) →
      CallInv sh ⟨request, .start, since⟩ := by
    intro sh since howed
    exact CallInv.plain (c := ⟨request, .start, since⟩) rfl (fun s h => (fun hno => by cases hno))
      (fun s' hs => (by cases hs)) (fun _ hr => (by cases hr)) (fun ha => (by cases ha))
      (fun s' _ hs => (by cases hs)) howed
  unfold beginCall
  split
  · rename_i hd
    refine inv_begin_of hinv (withdraw_same request.token) (hinv.shared.withOpened ?_)
      (fun d hd => callInv_withdraw hd) (hnew _ false fun hs => (by cases hs)) rfl ?_
    · exact fun t R b ho => .inl (List.mem_of_mem_filter ho)
    · intro o ho
      obtain ⟨hmem, hne⟩ := List.mem_filter.mp ho
      exact ⟨hinv.still o hmem, fun h => of_decide_eq_true hne h.1.symm⟩
  · rename_i hd
    have hmap : s.calls = s.calls.map id := (List.map_id _).symm
    rw [hmap]
    refine inv_begin_of hinv (fun d => ⟨rfl, rfl⟩) hinv.shared (fun d hd => hd) (hnew _ _ ?_) rfl
      fun o ho => ⟨hinv.still o ho, fun h => hd h.2⟩
    intro hs
    split at hs
    · rename_i t R b
      exact ⟨t, R, b, rfl, of_decide_eq_true hs⟩
    · cases hs

/-- A ticket of another kind, made of one that is held. -/
theorem issued_of_ticket {k : Ticket} (hinv : Inv s) (hk : k ∈ s.shared.tickets) (kind : TicketKind)
    (hstale : k.handle.store.generation < generationOf s.shared k.handle.root →
      k.kind ≠ .stager true → kind ≠ .stager true ∧ kind ≠ .staged)
    (hlease : kind.leases = true → k.kind.leases = true ∨
      (s.shared.states k.handle.root).closing = false) :
    Issued s.shared { k with kind := kind } := by
  obtain ⟨hgen, hroot, hlive⟩ := hinv.shared.tickets k hk
  refine ⟨hgen, hroot, hlive, fun h _ => ?_, fun hl hclosing => ?_⟩
  · obtain ⟨hlt, hkind, -⟩ := h k hk rfl
    exact ⟨hlt, hstale hlt hkind⟩
  · rcases hlease hl with hold | hopen
    · exact ⟨k, hk, rfl, hold⟩
    · have hclosing' : (s.shared.states k.handle.root).closing = true := hclosing
      rw [hopen] at hclosing'
      cases hclosing'

theorem inv_tickets {tickets : List Ticket} (hinv : Inv s)
    (hissued : ∀ k ∈ tickets, k ∈ s.shared.tickets ∨ Issued s.shared k) :
    Inv { s with shared := withTickets s.shared tickets } :=
  ⟨hinv.shared.withTickets hissued, fun j d hd => (hinv.calls j d hd).withTickets hissued,
    hinv.exclusive, hinv.still⟩

theorem inv_addTicket {k : Ticket} (hinv : Inv s) (hk : Issued s.shared k) :
    Inv { s with shared := addTicket s.shared k } := by
  refine inv_tickets hinv fun k' hk' => ?_
  rcases List.mem_append.mp hk' with hold | hnew
  · exact .inl hold
  · rw [List.mem_singleton.mp hnew]
    exact .inr hk

theorem inv_setTicket {k : Ticket} {n : Nat} (hinv : Inv s) (hk : Issued s.shared k) :
    Inv { s with shared := setTicket s.shared n k } := by
  refine inv_tickets hinv fun k' hk' => ?_
  rcases List.mem_or_eq_of_mem_set hk' with hold | rfl
  · exact .inl hold
  · exact .inr hk

theorem inv_dropTicket (hinv : Inv s) (n : Nat) :
    Inv { s with shared := dropTicket s.shared n } :=
  inv_tickets hinv fun _ hk => .inl (List.mem_of_mem_eraseIdx hk)

/-- An operation that goes through was valid. -/
theorem checked_ok {sh : Shared} {handle : Handle} {outcome : Except FileFault Unit} {u : Unit}
    (h : checked sh handle outcome = .ok u) :
    handle.store.generation = generationOf sh handle.root := by
  obtain ⟨v, hv, -⟩ := bind_eq_ok_iff.mp h
  exact (validateAccounting_ok hv).symm

theorem inv_operate {n : Nat} {k : Ticket} {operation : Operation}
    {result : Shared × Except AssetError Unit} (hinv : Inv s) (hk : s.shared.tickets[n]? = some k)
    (h : operateStep s.shared n k operation = some result) : Inv { s with shared := result.1 } := by
  have hmem := List.mem_of_getElem? hk
  cases operation with
  | operate outcome =>
    cases h
    exact hinv
  | lockHash outcome =>
    simp only [operateStep] at h
    split at h
    · split at h
      · cases h
        exact hinv
      · cases h
        exact inv_addTicket hinv (issued_of_ticket hinv hmem .hashLock
          (fun _ _ => ⟨(fun hno => by cases hno), (fun hno => by cases hno)⟩) fun hl => (by cases hl))
    · cases h
  | openStaging outcome =>
    simp only [operateStep] at h
    split at h
    · rename_i hkind
      split at h
      · cases h
        exact inv_dropTicket hinv n
      · rename_i hok
        cases h
        refine inv_setTicket hinv (issued_of_ticket hinv hmem (.stager true) (fun hlt => ?_)
          fun _ => .inl (by rw [hkind]; rfl))
        rw [checked_ok hok] at hlt
        exact (Nat.lt_irrefl _ hlt).elim
    · cases h
  | finishStaging outcome =>
    simp only [operateStep] at h
    split at h
    · rename_i hkind
      split at h
      · cases h
        exact inv_dropTicket hinv n
      · cases h
        exact inv_setTicket hinv (issued_of_ticket hinv hmem .staged
          (fun _ hne => (hne hkind).elim) fun _ => .inl (by rw [hkind]; rfl))
    · cases h

theorem inv_beginStaging {n : Nat} {k : Ticket} {result : Shared × Except AssetError Unit}
    (hinv : Inv s) (hk : s.shared.tickets[n]? = some k)
    (h : beginStaging s.shared k = some result) : Inv { s with shared := result.1 } := by
  rw [beginStaging] at h
  split at h
  · cases h
    split
    · exact hinv
    · rename_i hclosing
      exact inv_addTicket hinv (issued_of_ticket hinv (List.mem_of_getElem? hk) (.stager false)
        (fun _ _ => ⟨(fun hno => by cases hno), (fun hno => by cases hno)⟩) fun _ => .inr (eq_false_of_ne_true hclosing))
  · cases h

theorem act_inv {a : Action} {answer : Except AssetError Unit} (hinv : Inv s) (hkeeps : Keeps s a)
    (h : act limits s a = some (t, answer)) : Inv t := by
  cases a with
  | begin request =>
    cases h
    exact inv_begin hinv request
  | advance i env =>
    obtain ⟨c, hi, h⟩ := Option.bind_eq_some_iff.mp h
    obtain ⟨result, hstep, heq⟩ := Option.map_eq_some_iff.mp h
    cases heq
    obtain ⟨hentry, hrevoked⟩ := hkeeps c hi
    exact inv_call hinv hi hentry hrevoked hstep
  | cancel i =>
    obtain ⟨c, hi, h⟩ := Option.bind_eq_some_iff.mp h
    obtain ⟨result, hstep, heq⟩ := Option.map_eq_some_iff.mp h
    cases heq
    exact inv_cancel hinv hi hstep
  | operate n operation =>
    obtain ⟨k, hk, h⟩ := Option.bind_eq_some_iff.mp h
    obtain ⟨result, hstep, heq⟩ := Option.map_eq_some_iff.mp h
    cases heq
    exact inv_operate hinv hk hstep
  | beginStaging n =>
    obtain ⟨k, hk, h⟩ := Option.bind_eq_some_iff.mp h
    obtain ⟨result, hstep, heq⟩ := Option.map_eq_some_iff.mp h
    cases heq
    exact inv_beginStaging hinv hk hstep
  | dropTicket n =>
    cases h
    exact inv_dropTicket hinv n

theorem inv_initial : Inv initialService := by
  have hshared : SharedInv initialShared :=
    { paths := fun R s hs => (by cases hs)
      tokens := fun e he => (by cases he)
      active := fun s r hr => (by cases hr)
      unique := fun s r s' r' hr => (by cases hr)
      tickets := fun k hk => (by cases hk)
      gone := fun t ht => (by cases ht)
      opened := fun t R b ho => (by cases ho) }
  exact ⟨hshared, fun j d hd => (by cases hd), fun j k d e slot hd => (by cases hd),
    fun o ho => (by cases ho)⟩

end Steps

section Linear
variable {limits : AssetLimits} {s t : Service} {a : Action} {answer : Except AssetError Unit}

/-- The action hands out a store under the token, or accepts an operation on something obtained
under it. -/
def Accepted (s t : Service) (a : Action) (answer : Except AssetError Unit) (token : Nat) : Prop :=
  match a with
  | .advance i _ => ∃ c c' h, s.calls[i]? = some c ∧ t.calls[i]? = some c' ∧
      c.request.token = token ∧ c'.phase = .done (.ok (.store h))
  | .operate k _ => ∃ ticket, s.shared.tickets[k]? = some ticket ∧ ticket.token = token ∧
      answer = .ok ()
  | _ => False

/-- The steps that an open call has left. -/
def Phase.left : Phase → Nat
  | .start => 4
  | .looking => 3
  | .waiting _ => 2
  | .found _ _ => 1
  | _ => 0

/-- A root has one slot and one active token; an open call on a workspace that is active gets its
store in a bounded number of its own steps; nothing of a deactivated token is accepted. -/
structure Linear (limits : AssetLimits) (s : Service) : Prop where
  slots : ∀ a b, live s.shared (held s) a = true → live s.shared (held s) b = true →
    root s.shared a = root s.shared b → a = b
  tokens : ∀ t u R b b', (t, R, b) ∈ s.shared.opened → (u, R, b') ∈ s.shared.opened → t = u
  opens : ∀ (i : Nat) c, s.calls[i]? = some c → c.since = true →
    (∃ h, c.phase = .done (.ok (.store h))) ∨
      ∀ env, ∃ t c', step limits s (.advance i env) = some t ∧ t.calls[i]? = some c' ∧
        c'.since = true ∧ c'.phase.left < c.phase.left
  gone : ∀ a t answer token, act limits s a = some (t, answer) → token ∈ s.shared.gone →
    ¬Accepted s t a answer token

theorem Inv.owned (hinv : Inv s) {slot : Nat} (h : live s.shared (held s) slot = true) :
    s.shared.paths (root s.shared slot) = some slot := by
  rw [live, Bool.or_eq_true] at h
  rcases h with h | h
  · obtain ⟨e, he, heq⟩ := List.any_eq_true.mp h
    have heq : e.2 = slot := of_decide_eq_true heq
    subst heq
    exact (hinv.shared.tokens e he).2
  · obtain ⟨d, hd, heq⟩ := List.any_eq_true.mp h
    obtain ⟨j, hj⟩ := List.getElem?_of_mem hd
    exact ((hinv.calls j d hj).slot slot (of_decide_eq_true heq)).2

theorem withCall_get {i : Nat} {c : Call} {result : Shared × Phase} (hi : s.calls[i]? = some c) :
    (withCall s i c result).calls[i]? = some { c with phase := result.2 } :=
  List.getElem?_set_self (List.getElem?_eq_some_iff.mp hi).1

/-- An open call that is owed its store moves on. -/
theorem open_advances (hinv : Inv s) {i : Nat} {c : Call} (hi : s.calls[i]? = some c)
    (hs : c.since = true) (hflight : ¬∃ h, c.phase = .done (.ok (.store h))) (env : OpenEnv) :
    ∃ t c', step limits s (.advance i env) = some t ∧ t.calls[i]? = some c' ∧ c'.since = true ∧
      c'.phase.left < c.phase.left := by
  obtain ⟨token, R, b, hrequest, howed⟩ := (hinv.calls i c hi).owed hs
  have hmove : ∀ result : Shared × Phase, openStep s.shared token R b c.phase = some result →
      cleanupStep s.shared (held s) c.request.token c.phase = none →
      result.2.left < c.phase.left → ∃ t c', step limits s (.advance i env) = some t ∧
        t.calls[i]? = some c' ∧ c'.since = true ∧ c'.phase.left < c.phase.left := by
    intro result hopen hclean hlt
    refine ⟨withCall s i c result, _, ?_, withCall_get hi, hs, hlt⟩
    have hcall : callStep limits s.shared (held s) (deactivating s c.request.token) env c.request
        c.phase = some result := by
      unfold callStep
      rw [hclean, hrequest]
      exact hopen
    simp only [step, act, hi, Option.bind_some, hcall, Option.map_some]
  cases hphase : c.phase with
  | start =>
    rw [hphase] at howed hmove
    have hlive := (hinv.shared.owes howed).1
    exact hmove (s.shared, .looking) (by rw [openStep, hlive]; rfl) rfl (by simp [Phase.left])
  | looking =>
    rw [hphase] at howed hmove
    obtain ⟨-, slot, handle, hserves, -⟩ := hinv.shared.owes howed
    exact hmove (s.shared, .waiting slot) (by rw [openStep, hserves.1]) rfl
      (by simp [Phase.left])
  | waiting slot =>
    rw [hphase] at howed hmove
    obtain ⟨hmem, handle, hserves⟩ := howed
    obtain ⟨-, slot', handle', hserves', hidle, hfree, -⟩ := hinv.shared.owes hmem
    have hsame : slot' = slot := Option.some.inj (hserves'.1.symm.trans hserves.1)
    subst hsame
    refine hmove (s.shared, .found slot' handle) ?_ rfl (by simp [Phase.left])
    have hready : free s.shared slot' = true ∧ (s.shared.slots slot').deactivating = false :=
      ⟨decide_eq_true hfree, hidle⟩
    rw [openStep, if_pos hready, serves_filter hserves]
  | found slot handle =>
    rw [hphase] at howed hmove
    obtain ⟨hmem, hserves⟩ := howed
    have hlive := (hinv.shared.owes hmem).1
    have hvalid := ((hinv.shared.active slot _ hserves.2.2).2.2.2.2 hlive).2
    refine hmove (addTicket s.shared ⟨token, handle, .store⟩, .done (.ok (.store handle))) ?_ rfl
      (by simp [Phase.left])
    rw [openStep, hlive, if_neg Bool.false_ne_true, hvalid]
  | done answer =>
    rw [hphase] at howed
    obtain ⟨h, rfl⟩ := howed
    exact (hflight ⟨h, hphase⟩).elim
  | _ =>
    rw [hphase] at howed
    exact howed.elim

/-- A deactivation answers no store. -/
theorem deactivate_reply {sh : Shared} {waits : Bool} {token : Nat} {p : Phase}
    {result : Shared × Phase} {h : Handle} (hstep : deactivateStep sh waits token p = some result)
    (hdone : result.2 = .done (.ok (.store h))) : False := by
  cases p with
  | waiting slot =>
    simp only [deactivateStep] at hstep
    split at hstep
    · cases hstep
    · split at hstep
      · cases hstep
        cases waits <;> cases hdone
      · split at hstep <;>
        · cases hstep
          cases hdone
  | claimed slot =>
    simp only [deactivateStep, closeStep] at hstep
    split at hstep
    · split at hstep
      · cases hstep
      · cases hstep
        cases hdone
    · split at hstep <;>
      · cases hstep
        cases hdone
  | unclaiming slot verdict =>
    simp only [deactivateStep] at hstep
    split at hstep
    · cases hstep
      cases verdict <;> cases hdone
    · cases hstep
  | looking | closed slot | invalidated slot verdict | reopened slot verdict =>
    simp only [deactivateStep] at hstep
    split at hstep <;> cases hstep <;> cases hdone
  | _ =>
    simp only [deactivateStep] at hstep
    cases hstep
    try cases hdone

/-- A call under a token that is gone is not given a store. -/
theorem call_refused {c : Call} {env : OpenEnv} {result : Shared × Phase} {h : Handle}
    (hinv : Inv s) (hgone : c.request.token ∈ s.shared.gone)
    (hstep : callStep limits s.shared (held s) (deactivating s c.request.token) env c.request
      c.phase = some result) : result.2 ≠ .done (.ok (.store h)) := by
  obtain ⟨hrevoked, -, hinactive⟩ := hinv.shared.gone _ hgone
  intro hdone
  unfold callStep at hstep
  split at hstep
  · rename_i cleaned hcleanup
    cases hstep
    cases hphase : c.phase with
    | sweeping slot verdict =>
      rw [hphase, cleanupStep] at hcleanup
      cases hcleanup
      cases verdict with
      | error e => cases hdone
      | ok flag => cases hdone
    | releasing slot verdict | dropping slot verdict =>
      rw [hphase, cleanupStep] at hcleanup
      cases hcleanup
      cases hdone
    | _ =>
      rw [hphase] at hcleanup
      cases hcleanup
  · split at hstep
    · rename_i token R b hrequest
      have htoken : c.request.token = token := by
        rw [hrequest]
        rfl
      rw [htoken] at hrevoked hinactive
      cases hphase : c.phase with
      | start =>
        rw [hphase, activateStep, hrevoked] at hstep
        cases hstep
        cases hdone
      | looking =>
        rw [hphase, activateStep] at hstep
        cases hstep
        cases hdone
      | waiting slot =>
        rw [hphase, activateStep] at hstep
        split at hstep
        · cases hstep
          simp only [activateLocked, hrevoked, if_true] at hdone
          split at hdone
          · cases hdone
          · split at hdone
            · rename_i r hactive
              split at hdone
              · rename_i hserves
                have hu : r.token = token := by
                  rw [eq_of_serves hserves]
                exact hinactive slot r hactive hu
              · split at hdone <;> cases hdone
            · cases hdone
        · cases hstep
      | opened slot handle =>
        rw [hphase, activateStep] at hstep
        cases hstep
        simp only [activateOpened, hrevoked, if_true] at hdone
        cases hdone
      | _ =>
        rw [hphase] at hstep
        cases hstep
    · rename_i token R b hrequest
      have htoken : c.request.token = token := by
        rw [hrequest]
        rfl
      rw [htoken] at hrevoked
      cases hphase : c.phase with
      | start =>
        rw [hphase, openStep, hrevoked] at hstep
        cases hstep
        cases hdone
      | looking =>
        rw [hphase, openStep] at hstep
        split at hstep <;>
        · cases hstep
          cases hdone
      | waiting slot =>
        rw [hphase, openStep] at hstep
        split at hstep
        · split at hstep <;>
          · cases hstep
            cases hdone
        · cases hstep
      | found slot handle =>
        rw [hphase, openStep, if_pos hrevoked] at hstep
        cases hstep
        cases hdone
      | _ =>
        rw [hphase] at hstep
        cases hstep
    · exact deactivate_reply hstep hdone
    · exact deactivate_reply hstep hdone

/-- Nothing obtained under a token that is gone is accepted. -/
theorem operate_refused {n : Nat} {k : Ticket} {operation : Operation} {result : Shared}
    (hinv : Inv s) (hk : s.shared.tickets[n]? = some k) (hgone : k.token ∈ s.shared.gone) :
    operateStep s.shared n k operation ≠ some (result, .ok ()) := by
  obtain ⟨hlt, hstager, -⟩ :=
    (hinv.shared.gone _ hgone).2.1 k (List.mem_of_getElem? hk) rfl
  have hrefused : ∀ outcome u, checked s.shared k.handle outcome ≠ .ok u := by
    intro outcome u hok
    rw [checked_ok hok] at hlt
    exact Nat.lt_irrefl _ hlt
  intro h
  cases operation with
  | operate outcome =>
    have hok : checked s.shared k.handle outcome = .ok () := congrArg Prod.snd (Option.some.inj h)
    exact hrefused outcome () hok
  | lockHash outcome =>
    simp only [operateStep] at h
    split at h
    · split at h
      · cases h
      · rename_i hok
        exact hrefused outcome _ hok
    · cases h
  | openStaging outcome =>
    simp only [operateStep] at h
    split at h
    · split at h
      · cases h
      · rename_i hok
        exact hrefused outcome _ hok
    · cases h
  | finishStaging outcome =>
    simp only [operateStep] at h
    split at h
    · rename_i hkind
      exact hstager hkind
    · cases h

theorem Inv.linear (hinv : Inv s) : Linear limits s := by
  refine ⟨fun a b ha hb hroot => ?_, fun t u R b b' ht hu => ?_, fun i c hi hs => ?_,
    fun a t answer token hact hgone => ?_⟩
  · exact slot_unique (hinv.owned ha) (hinv.owned hb) hroot
  · obtain ⟨-, x, h, hserves, -⟩ := hinv.shared.opened t R b ht
    obtain ⟨-, y, h', hserves', -⟩ := hinv.shared.opened u R b' hu
    have hsame : x = y := slot_unique (hinv.shared.registered hserves.1).2
      (hinv.shared.registered hserves'.1).2 (hserves.2.1.trans hserves'.2.1.symm)
    subst hsame
    have hactive := hserves.2.2.symm.trans hserves'.2.2
    cases hactive
    rfl
  · by_cases hdone : ∃ h, c.phase = .done (.ok (.store h))
    · exact .inl hdone
    · exact .inr (open_advances hinv hi hs hdone)
  · intro haccepted
    cases a with
    | advance i env =>
      obtain ⟨c, c', h, hi, hi', rfl, hdone⟩ := haccepted
      obtain ⟨d, hd, hact⟩ := Option.bind_eq_some_iff.mp hact
      obtain ⟨result, hstep, heq⟩ := Option.map_eq_some_iff.mp hact
      cases heq
      rw [hi] at hd
      cases hd
      rw [withCall_get hi] at hi'
      cases hi'
      exact call_refused hinv hgone hstep hdone
    | operate k operation =>
      obtain ⟨ticket, hk, rfl, rfl⟩ := haccepted
      obtain ⟨ticket', hk', hact⟩ := Option.bind_eq_some_iff.mp hact
      obtain ⟨result, hstep, heq⟩ := Option.map_eq_some_iff.mp hact
      rw [hk] at hk'
      cases hk'
      obtain ⟨sh, verdict⟩ := result
      cases heq
      exact operate_refused hinv hk hgone hstep
    | _ => exact haccepted

/-- In every run in which no failed activation takes away an entry that another activation of its
token uses, and no registered store is given out under a revoked token, the lives of the
workspaces are linear. -/
theorem lifecycle_linear (limits : AssetLimits) (as : List Action) (s : Service)
    (hrun : run (step limits) initialService as = some s)
    (hkeeps : Along (step limits) Keeps initialService as) : Linear limits s := by
  have hinv : Inv s := by
    refine run_invariant ?_ hrun hkeeps inv_initial
    intro s a t hs hk hstep
    obtain ⟨result, hact, rfl⟩ := Option.map_eq_some_iff.mp hstep
    exact act_inv hs hk hact
  exact hinv.linear

def smallLimits : AssetLimits := ⟨100, 0, 50, 80, 4, 60, 2, 2⟩

/-- The files are in order, and there are none. -/
def healthy : OpenEnv :=
  let op : OpEnv := ⟨.ok (), true, .ok (1000, 2000)⟩
  ⟨op, .ok (), .ok ⟨[], List.nodup_nil, nothing_listed⟩, op⟩

def broken : OpenEnv := { healthy with prepared := .error .store }

/-- A workspace is activated, opened again and deactivated. -/
def oneLife : List Action :=
  [.begin (.activateWorkspace 0 "/w".toList "b".toList)] ++
    List.replicate 4 (.advance 0 healthy) ++
    [.begin (.openRegisteredStore 0 "/w".toList "b".toList)] ++
    List.replicate 4 (.advance 1 healthy) ++ [.begin (.tryDeactivateWorkspace 0)] ++
    List.replicate 12 (.advance 2 healthy)

instance decidableKeepsEntry (s : Service) (i : Nat) (c : Call) : Decidable (KeepsEntry s i c) := by
  unfold KeepsEntry
  split
  · exact @forall_prop_decidable _ _ inferInstance fun _ =>
      @forall_prop_decidable _ _ inferInstance fun _ => instDecidableAnd
  · infer_instance

instance decidableKeepsRevoked (s : Service) (c : Call) : Decidable (KeepsRevoked s c) := by
  unfold KeepsRevoked
  split <;> infer_instance

instance decidableKeeps (s : Service) (a : Action) : Decidable (Keeps s a) := by
  unfold Keeps
  split <;> infer_instance

theorem lifecycle_linear_oneLife : ∃ s, run (step smallLimits) initialService oneLife = some s ∧
    s.shared.gone = [0] ∧ s.shared.tickets.length = 2 ∧ Linear smallLimits s := by
  have hrun : ((run (step smallLimits) initialService oneLife).map fun s =>
      (s.shared.gone, s.shared.tickets.length)) = some ([0], 2) := by decide +kernel
  obtain ⟨s, hs, heq⟩ := Option.map_eq_some_iff.mp hrun
  have hkeeps : Along (step smallLimits) Keeps initialService oneLife := by decide +kernel
  obtain ⟨hgone, htickets⟩ := Prod.mk.inj heq
  exact ⟨s, hs, hgone, htickets, lifecycle_linear smallLimits oneLife s hs hkeeps⟩

/-- Two activations of one token run side by side. The first fails to open the store and cleans up
behind the second, which has succeeded. -/
def crossed : List Action :=
  let activate : Action := .begin (.activateWorkspace 0 "/w".toList "b".toList)
  [activate, activate, .advance 0 healthy, .advance 0 healthy, .advance 1 healthy,
    .advance 1 healthy, .advance 0 broken, .advance 1 healthy, .advance 1 healthy,
    .advance 0 healthy, .begin (.openRegisteredStore 0 "/w".toList "b".toList),
    .advance 2 healthy, .advance 2 healthy]

/-- The open call began on an active workspace, no deactivation was ever asked for, and it fails. -/
theorem lifecycle_crossed : ∃ s, run (step smallLimits) initialService crossed = some s ∧
    ¬Linear smallLimits s := by
  have hrun : ((run (step smallLimits) initialService crossed).map fun s =>
      s.calls[2]?.map fun c => (c.since, c.phase)) =
        some (some (true, .done (.error .staleBinding))) := by decide +kernel
  obtain ⟨s, hs, heq⟩ := Option.map_eq_some_iff.mp hrun
  obtain ⟨c, hc, hfields⟩ := Option.map_eq_some_iff.mp heq
  obtain ⟨hsince, hphase⟩ := Prod.mk.inj hfields
  refine ⟨s, hs, fun hlinear => ?_⟩
  rcases hlinear.opens 2 c hc hsince with ⟨h, hdone⟩ | hmoves
  · rw [hphase] at hdone
    cases hdone
  · obtain ⟨t, c', -, -, -, hlt⟩ := hmoves healthy
    rw [hphase] at hlt
    exact absurd hlt (Nat.not_lt_zero _)

end Linear

end AssetLifecycle
