import GitIM.EpochRemote

/-!
# The clones of epoch rotation

What a clone may hold, so that neither a push behind the fence nor an atomic push
breaks the shape of the remote, and that every step of a client keeps it.
-/

namespace EpochClones

open CommitChain EpochRotation EpochRemote

section Clients
variable {Message : Type} {origin origin' : Refs Message} {c : Client Message} {n : Nat}

/-- What the clone of a client may hold. -/
structure ClientInv (origin : Refs Message) (c : Client Message) : Prop where
  tracking : Tracks c.tracking origin
  head : c.tracking.lookup c.head = some (upstream c)
  /-- Own commits bring no snapshot. -/
  snapshots : ∀ x ∈ c.branch, isSnapshot x.change = true → x ∈ upstream c
  tail : NoSnapshot c.branch.tail
  /-- What the fence has checked still holds, since only messages are added behind it. -/
  fence : c.fenceOpen = true → NoRedirect c.branch ∧ NoRedirect (upstream c)
  firing : ∀ newBranch orphan, c.firing = some (newBranch, orphan) → newBranch = c.head + 1 ∧
    ∃ pre x y, c.branch = pre ++ [x] ∧ x.change = .redirect newBranch ∧ NoRedirect pre ∧
      orphan = [y] ∧ y.change = .snapshot newBranch (messagesOf pre)

theorem ClientInv.mono (h : ClientInv origin c) (hext : Extends origin origin') :
    ClientInv origin' c :=
  { h with tracking := h.tracking.mono hext }

theorem ClientInv.upstream_isPrefix (h : ClientInv origin c) :
    ∃ chain, origin.lookup c.head = some chain ∧ upstream c <+: chain :=
  (h.tracking c.head _ h.head).2

theorem ClientInv.upstream_rooted (h : ClientInv origin c) (ho : OriginInv origin n) :
    RootedAt c.head (upstream c) := by
  obtain ⟨hne, chain, hchain, hpre⟩ := h.tracking c.head _ h.head
  exact (ho.rooted c.head chain hchain).of_isPrefix hpre hne

/-- A clone whose branch is on top of the remote one is rooted like it. -/
theorem ClientInv.branch_rooted (h : ClientInv origin c) (ho : OriginInv origin n)
    {old chain : Chain Message} (hold : origin.lookup c.head = some old) (hpre : old <+: chain)
    (hchain : ∀ x ∈ chain, x ∈ c.branch) (htail : NoSnapshot chain.tail) :
    RootedAt c.head chain := by
  refine (ho.rooted c.head old hold).extend hpre htail ?_
  intro x hx hsnap
  obtain ⟨chain', hchain', hup⟩ := h.upstream_isPrefix
  cases hold.symm.trans hchain'
  exact hup.subset (h.snapshots x (hchain x hx) hsnap)

/-- A clone that is not firing with a new branch on top of known commits. -/
theorem ClientInv.rebranch (h : ClientInv origin c) (ho : OriginInv origin n)
    (hquiet : c.firing = none) (more : Chain Message) (hmore : NoSnapshot more) (fenceOpen : Bool)
    (hfence : fenceOpen = true → NoRedirect more ∧ NoRedirect (upstream c)) :
    ClientInv origin { c with branch := upstream c ++ more, fenceOpen := fenceOpen } where
  tracking := h.tracking
  head := h.head
  snapshots := by
    intro x hx hsnap
    rcases List.mem_append.mp hx with hx | hx
    · exact hx
    · rw [hmore x hx] at hsnap
      cases hsnap
  tail := (h.upstream_rooted ho).tail.tail_append hmore
  fence := by
    intro hopen
    obtain ⟨hplain, hup⟩ := hfence hopen
    exact ⟨fun x hx => (List.mem_append.mp hx).elim (hup x) (hplain x), hup⟩
  firing := fun _ _ hp => by rw [hquiet] at hp; cases hp

theorem ClientInv.close (h : ClientInv origin c) : ClientInv origin { c with fenceOpen := false } :=
  { h with fence := fun hopen => by cases hopen }

/-- The clone of a client that gives its fire up. -/
theorem ClientInv.quiet (h : ClientInv origin c) : ClientInv origin { c with firing := none } :=
  { h with firing := fun _ _ hp => by cases hp }

/-- After a fetch the tracking branches are those of the remote. -/
theorem ClientInv.fetched (h : ClientInv origin c) (ho : OriginInv origin n) :
    ClientInv origin { c with tracking := origin, fenceOpen := false } where
  tracking := ho.tracks
  head := by
    obtain ⟨chain, hchain, -⟩ := h.upstream_isPrefix
    simp [upstream, hchain]
  snapshots := by
    intro x hx hsnap
    obtain ⟨chain, hchain, hpre⟩ := h.upstream_isPrefix
    have hup := hpre.subset (h.snapshots x hx hsnap)
    simpa [upstream, hchain] using hup
  tail := h.tail
  fence := fun hopen => by cases hopen
  firing := h.firing

/-- Switching to another branch of the remote with commits of one's own on top. -/
theorem ClientInv.switch (h : ClientInv origin c) (ho : OriginInv origin n)
    (hclosed : c.fenceOpen = false) (hquiet : c.firing = none) {target : Nat} {tip : Chain Message}
    (htip : c.tracking.lookup target = some tip) (more : Chain Message) (hmore : NoSnapshot more) :
    ClientInv origin { c with head := target, branch := tip ++ more } := by
  obtain ⟨hne, chain, hchain, hpre⟩ := h.tracking target tip htip
  have hup : upstream { c with head := target, branch := tip ++ more } = tip := by
    simp [upstream, htip]
  have hrooted := (ho.rooted target chain hchain).of_isPrefix hpre hne
  exact
    { tracking := h.tracking
      head := by rw [hup]; exact htip
      snapshots := by
        intro x hx hsnap
        rw [hup]
        rcases List.mem_append.mp hx with hx | hx
        · exact hx
        · rw [hmore x hx] at hsnap
          cases hsnap
      tail := hrooted.tail.tail_append hmore
      fence := fun hopen => by rw [hclosed] at hopen; cases hopen
      firing := fun _ _ hp => by rw [hquiet] at hp; cases hp }

theorem followTarget_lookup {target : Nat} {tip : Chain Message}
    (h : followTarget c = some (target, tip)) : c.tracking.lookup target = some tip := by
  simp only [followTarget, Option.bind_eq_bind, Option.bind_eq_some_iff] at h
  obtain ⟨found, -, hfound⟩ := h
  split at hfound
  · cases hfound
  · obtain ⟨t, ht, heq⟩ := Option.map_eq_some_iff.mp hfound
    cases heq
    exact ht

/-- More commits of one's own on the checked-out branch. -/
theorem ClientInv.append (h : ClientInv origin c) {more : Chain Message} (hmore : NoSnapshot more)
    (hopen : NoRedirect more) (hquiet : c.firing = none) :
    ClientInv origin { c with branch := c.branch ++ more } where
  tracking := h.tracking
  head := h.head
  snapshots := by
    intro x hx hsnap
    rcases List.mem_append.mp hx with hx | hx
    · exact h.snapshots x hx hsnap
    · rw [hmore x hx] at hsnap
      cases hsnap
  tail := h.tail.tail_append hmore
  fence := by
    intro hp
    obtain ⟨hb, hup⟩ := h.fence hp
    exact ⟨fun x hx => (List.mem_append.mp hx).elim (hb x) (hopen x), hup⟩
  firing := fun _ _ hp => by rw [hquiet] at hp; cases hp

/-- A push behind the fence goes to the open branch. -/
theorem ClientInv.push (h : ClientInv origin c) (ho : OriginInv origin n)
    (hfence : c.fenceOpen = true) (hforward : FastForward origin c.head c.branch) :
    OriginInv (setRef c.head c.branch origin) n ∧
      Extends origin (setRef c.head c.branch origin) ∧
      ClientInv (setRef c.head c.branch origin)
        { c with tracking := setRef c.head c.branch c.tracking, fenceOpen := false } := by
  obtain ⟨old, hold, hup⟩ := h.upstream_isPrefix
  have hpre : old <+: c.branch := hforward old hold
  have hopen := (h.fence hfence).1
  have hrooted := h.branch_rooted ho hold hpre (fun _ hx => hx) h.tail
  have hn : c.head = n := (ho.open_iff hold).mp (hopen.of_isPrefix hpre)
  obtain ⟨ho', hext⟩ := ho.push (hn ▸ hold) hpre hopen (hn ▸ hrooted)
  rw [← hn] at ho' hext
  refine ⟨hn ▸ ho', hext, ?_⟩
  have hupstream : upstream { c with
      tracking := setRef c.head c.branch c.tracking, fenceOpen := false } = c.branch := by
    simp [upstream]
  exact
    { tracking := (h.tracking.mono hext).pushed ho' (by simp)
      head := by simp [hupstream]
      snapshots := by
        intro x hx _
        rw [hupstream]
        exact hx
      tail := h.tail
      fence := fun hopen => by cases hopen
      firing := h.firing }

/-- The atomic push of a fire seals the open branch, or finds its own push already there. -/
theorem ClientInv.firePush (h : ClientInv origin c) (ho : OriginInv origin n) {newBranch : Nat}
    {orphan : Chain Message} (hfiring : c.firing = some (newBranch, orphan))
    (hforward : FastForward origin c.head c.branch) (hnew : FastForward origin newBranch orphan) :
    ∃ n', OriginInv (setRef newBranch orphan (setRef c.head c.branch origin)) n' ∧
      Extends origin (setRef newBranch orphan (setRef c.head c.branch origin)) := by
  obtain ⟨rfl, pre, x, y, hbranch, hx, hopen, rfl, hy⟩ := h.firing newBranch orphan hfiring
  obtain ⟨old, hold, -⟩ := h.upstream_isPrefix
  have hpre : old <+: pre ++ [x] := hbranch ▸ hforward old hold
  have hbound := (ho.exist c.head).mp ⟨old, hold⟩
  rcases List.prefix_concat_iff.mp hpre with heq | hshort
  · -- the seal is on the remote, so the snapshot came with it
    have hne : c.head ≠ n := by
      intro hn
      have hno := (ho.open_iff hold).mpr hn x (by simp [heq])
      simp [hx, isRedirect] at hno
    obtain ⟨next, hnext⟩ := (ho.exist (c.head + 1)).mpr (by omega)
    have hsingle : next = [y] := by
      have hpre' : next <+: [y] := hnew next hnext
      obtain ⟨_, _, rest, rfl⟩ := (ho.rooted (c.head + 1) next hnext).root (by omega)
      obtain ⟨rfl, hrest⟩ := List.cons_prefix_cons.mp hpre'
      rw [List.prefix_nil.mp hrest]
    rw [setRef_same (b := c.head) (by rw [hbranch, ← heq]; exact hold),
      setRef_same (hsingle ▸ hnext)]
    exact ⟨n, ho, Extends.refl origin⟩
  · have hn : c.head = n := (ho.open_iff hold).mp (hopen.of_isPrefix hshort)
    have hrooted : RootedAt c.head pre := by
      refine h.branch_rooted ho hold hshort (fun z hz => hbranch ▸ List.mem_append_left _ hz) ?_
      exact (hbranch ▸ h.tail : NoSnapshot (pre ++ [x]).tail).tail_left
    rw [hbranch]
    rw [hn] at hold hrooted hx hy ⊢
    exact ⟨n + 1, ho.rotate hold hshort hopen hrooted hx rfl hy⟩

/-- The seal of a fire closes the fence. -/
theorem ClientInv.closed_of_firing (h : ClientInv origin c) {newBranch : Nat}
    {orphan : Chain Message} (hfiring : c.firing = some (newBranch, orphan)) :
    c.fenceOpen = false := by
  obtain ⟨-, pre, x, -, hbranch, hx, -⟩ := h.firing newBranch orphan hfiring
  by_contra hopen
  have hno := (h.fence (by simpa using hopen)).1 x (by simp [hbranch])
  simp [hx, isRedirect] at hno

/-- The winner of a rotation continues on the new epoch. -/
theorem ClientInv.won (h : ClientInv origin c) {newBranch : Nat} {orphan : Chain Message}
    (hfiring : c.firing = some (newBranch, orphan)) (ho : OriginInv origin' n)
    (hext : Extends origin origin')
    (horigin : origin' = setRef newBranch orphan (setRef c.head c.branch origin)) :
    ClientInv origin'
      { c with
        head := newBranch
        branch := orphan
        tracking := setRef newBranch orphan (setRef c.head c.branch c.tracking)
        firing := none } := by
  have hclosed := h.closed_of_firing hfiring
  obtain ⟨rfl, -, -, y, -, -, -, rfl, -⟩ := h.firing newBranch orphan hfiring
  have hold : origin'.lookup c.head = some c.branch := by simp [horigin]
  have hnew : origin'.lookup (c.head + 1) = some [y] := by simp [horigin]
  exact
    { tracking := ((h.tracking.mono hext).pushed ho hold).pushed ho hnew
      head := by simp [upstream]
      snapshots := by
        intro x hx _
        simpa [upstream] using hx
      tail := fun x hx => by cases hx
      fence := fun hopen => by rw [hclosed] at hopen; cases hopen
      firing := fun _ _ hp => by cases hp }

/-- The two commits of a fire on a clone with nothing of its own. -/
theorem ClientInv.fired (h : ClientInv origin c) (ho : OriginInv origin n) (next : Nat)
    (hclosed : c.fenceOpen = false) (hclean : ∀ x ∈ c.branch, x ∈ upstream c)
    (hactive : redirectOf (upstream c) = none) : ClientInv origin (writeFire next c) := by
  have hrooted := h.upstream_rooted ho
  have hopen : NoRedirect (upstream c) := (redirectOf_eq_none_iff hrooted.tail).mp hactive
  have hepoch : currentEpoch (upstream c) = c.head := hrooted.currentEpoch_eq hopen
  exact
    { tracking := h.tracking
      head := h.head
      snapshots := by
        intro x hx hsnap
        rcases List.mem_append.mp hx with hx | hx
        · exact h.snapshots x hx hsnap
        · cases List.mem_singleton.mp hx
          cases hsnap
      tail := by
        refine h.tail.tail_append fun x hx => ?_
        cases List.mem_singleton.mp hx
        rfl
      fence := fun hopen => by
        rw [show (writeFire next c).fenceOpen = c.fenceOpen from rfl, hclosed] at hopen
        cases hopen
      firing := by
        intro newBranch orphan hp
        cases hp
        refine ⟨congrArg (· + 1) hepoch, c.branch, _, _, rfl, rfl, ?_, rfl, rfl⟩
        exact fun x hx => hopen x (hclean x hx) }

/-- The content-aware resolution goes on top of what the fence has checked. -/
theorem ClientInv.resolve (h : ClientInv origin c) (ho : OriginInv origin n)
    (hquiet : c.firing = none) (next : Nat) (ms : List Message) :
    ClientInv origin { c with branch := upstream c ++ commitAll next [.messages ms] } := by
  obtain ⟨hsnap, hopen⟩ := messages_plain next ms
  exact h.rebranch ho hquiet _ hsnap c.fenceOpen fun hfence => ⟨hopen, (h.fence hfence).2⟩

/-- A reset to the tracking branch. -/
theorem ClientInv.aligned (h : ClientInv origin c) (ho : OriginInv origin n)
    (hquiet : c.firing = none) : ClientInv origin { c with branch := upstream c } := by
  have hnil : NoRedirect ([] : Chain Message) ∧ NoSnapshot ([] : Chain Message) :=
    ⟨fun _ hx => (List.not_mem_nil hx).elim, fun _ hx => (List.not_mem_nil hx).elim⟩
  have hreset := h.rebranch ho hquiet [] hnil.2 c.fenceOpen
    fun hfence => ⟨hnil.1, (h.fence hfence).2⟩
  rwa [List.append_nil] at hreset

/-- A fetch of the rotation task. -/
theorem ClientInv.fetchedClosed (h : ClientInv origin c) (ho : OriginInv origin n)
    (hclosed : c.fenceOpen = false) : ClientInv origin { c with tracking := origin } := by
  have hfetched := h.fetched ho
  rwa [← hclosed] at hfetched

theorem ClientInv.openFence (h : ClientInv origin c) (ho : OriginInv origin n)
    (hopens : fenceOpens c) : ClientInv origin { c with fenceOpen := true } :=
  { h with
    fence := fun _ => ⟨(redirectOf_eq_none_iff h.tail).mp hopens.1,
      (redirectOf_eq_none_iff (h.upstream_rooted ho).tail).mp hopens.2⟩ }

variable [DecidableEq Message]

/-- Commits that are not upstream bring no snapshot. -/
theorem ClientInv.unpushed_noSnapshot (h : ClientInv origin c) : NoSnapshot (unpushed c) := by
  intro x hx
  obtain ⟨hb, hnot⟩ := mem_aheadOf.mp hx
  by_contra hsnap
  rw [Bool.not_eq_false] at hsnap
  exact hnot (h.snapshots x hb hsnap)

theorem ClientInv.cleanup (h : ClientInv origin c) (ho : OriginInv origin n)
    (hquiet : c.firing = none) : ClientInv origin (cleanupFailedFire c) := by
  rw [cleanupFailedFire]
  split
  · exact h.aligned ho hquiet
  · exact h

/-- A rebase without conflicts; the fence is closed until it is checked again. -/
theorem ClientInv.rebase (h : ClientInv origin c) (ho : OriginInv origin n)
    (hquiet : c.firing = none) (next : Nat) :
    ClientInv origin
      { c with branch := rebaseOnto next (upstream c) c.branch, fenceOpen := false } := by
  rw [rebaseOnto]
  split
  · exact h.close
  · refine h.rebranch ho hquiet _ (noSnapshot_commitAll ?_) false (fun hopen => by cases hopen)
    intro d hd
    obtain ⟨x, hx, rfl⟩ := List.mem_map.mp (List.mem_filter.mp hd).1
    exact h.unpushed_noSnapshot x hx

theorem ClientInv.fire (h : ClientInv origin c) (ho : OriginInv origin n)
    (hclosed : c.fenceOpen = false) (hclean : unpushed c = []) (next : Nat) (fetched : Bool)
    {d : Client Message} (hd : d = if fetched then { c with tracking := origin } else c) :
    ClientInv origin d ∧ (redirectOf (upstream d) = none → ClientInv origin (writeFire next d)) := by
  have hmem := aheadOf_eq_nil_iff.mp hclean
  cases fetched with
  | false =>
    cases hd
    exact ⟨h, h.fired ho next hclosed hmem⟩
  | true =>
    cases hd
    have hfetched := h.fetchedClosed ho hclosed
    refine ⟨hfetched, hfetched.fired ho next hclosed fun x hx => ?_⟩
    obtain ⟨chain, hchain, hpre⟩ := h.upstream_isPrefix
    have hx' := hpre.subset (hmem x hx)
    simpa [upstream, hchain] using hx'

/-- What a step keeps: the shape of the remote, its sealed branches and the clone. -/
theorem clientStep_inv {next next' : Nat} {c' : Client Message} {a : Action Message}
    (ho : OriginInv origin n) (h : ClientInv origin c) (hapart : a.rotates → c.fenceOpen = false)
    (hstep : clientStep origin next c a = some (origin', next', c')) :
    ∃ n', OriginInv origin' n' ∧ Extends origin origin' ∧ ClientInv origin' c' := by
  -- most steps leave the remote alone
  have local_only {d : Client Message} (hd : ClientInv origin d) :
      ∃ n', OriginInv origin n' ∧ Extends origin origin ∧ ClientInv origin d :=
    ⟨n, ho, Extends.refl origin, hd⟩
  cases a with
  | commit m =>
    simp only [clientStep] at hstep
    split at hstep
    · rename_i hquiet
      cases hstep
      obtain ⟨hsnap, hopen⟩ := messages_plain next [m]
      exact local_only (h.append hsnap hopen hquiet)
    · cases hstep
  | fetch =>
    cases hstep
    exact local_only (h.fetched ho)
  | openFence =>
    simp only [clientStep] at hstep
    split at hstep
    · rename_i hopens
      cases hstep
      exact local_only (h.openFence ho hopens)
    · cases hstep
  | push outcome =>
    simp only [clientStep] at hstep
    split at hstep
    · rename_i hfence
      cases outcome with
      | ok =>
        simp only at hstep
        split at hstep
        · rename_i hforward
          cases hstep
          obtain ⟨ho', hext, hc'⟩ := h.push ho hfence hforward
          exact ⟨n, ho', hext, hc'⟩
        · cases hstep
      | lost =>
        simp only at hstep
        split at hstep
        · rename_i hforward
          cases hstep
          obtain ⟨ho', hext, -⟩ := h.push ho hfence hforward
          exact ⟨n, ho', hext, h.mono hext⟩
        · cases hstep
      | failed =>
        cases hstep
        exact local_only h
    · cases hstep
  | rebase =>
    simp only [clientStep] at hstep
    split at hstep
    · rename_i hquiet
      cases hstep
      exact local_only (h.rebase ho hquiet next)
    · cases hstep
  | resolve =>
    simp only [clientStep] at hstep
    split at hstep
    · rename_i hready
      cases hstep
      exact local_only (h.resolve ho hready.2 next _)
    · cases hstep
  | reset =>
    simp only [clientStep] at hstep
    split at hstep
    · rename_i hquiet
      cases hstep
      exact local_only (h.aligned ho hquiet).close
    · cases hstep
  | endCycle =>
    cases hstep
    exact local_only h.close
  | fire fetched =>
    simp only [clientStep] at hstep
    split at hstep
    · rename_i hready
      generalize hd : (if fetched then { c with tracking := origin } else c) = d at hstep
      obtain ⟨hclone, hfired⟩ := h.fire ho (hapart rfl) hready.2 next fetched hd.symm
      split at hstep
      · rename_i hactive
        cases hstep
        exact local_only (hfired hactive)
      · cases hstep
        exact local_only hclone
    · cases hstep
  | firePush outcome cleaned =>
    simp only [clientStep] at hstep
    split at hstep
    · rename_i newBranch orphan hfiring
      have hfailed {origin' : Refs Message} {n' : Nat} (ho' : OriginInv origin' n')
          (hext : Extends origin origin') : ClientInv origin' (if cleaned then
            cleanupFailedFire { c with firing := none } else { c with firing := none }) := by
        have hquiet := (h.mono hext).quiet
        split
        · exact hquiet.cleanup ho' rfl
        · exact hquiet
      cases outcome with
      | ok =>
        simp only at hstep
        split at hstep
        · rename_i hforward
          cases hstep
          obtain ⟨n', ho', hext⟩ := h.firePush ho hfiring hforward.1 hforward.2
          exact ⟨n', ho', hext, h.won hfiring ho' hext rfl⟩
        · cases hstep
      | lost =>
        simp only at hstep
        split at hstep
        · rename_i hforward
          cases hstep
          obtain ⟨n', ho', hext⟩ := h.firePush ho hfiring hforward.1 hforward.2
          exact ⟨n', ho', hext, hfailed ho' hext⟩
        · cases hstep
      | failed =>
        cases hstep
        exact local_only (hfailed ho (Extends.refl origin))
    · cases hstep
  | cleanup =>
    simp only [clientStep] at hstep
    split at hstep
    · rename_i hready
      cases hstep
      exact local_only (h.cleanup ho hready.2)
    · cases hstep
  | follow fetched rebased =>
    simp only [clientStep] at hstep
    split at hstep
    · rename_i hquiet
      split at hstep
      · have hfetched := h.fetchedClosed ho (hapart rfl)
        split at hstep
        · rename_i target tip htarget
          split at hstep
          · cases hstep
            refine local_only (hfetched.switch ho (hapart rfl) hquiet (followTarget_lookup htarget)
              _ (noSnapshot_commitAll ?_))
            intro d hd
            obtain ⟨x, hx, rfl⟩ := List.mem_map.mp hd
            exact hfetched.unpushed_noSnapshot x hx
          · cases hstep
            exact local_only hfetched
        · cases hstep
          exact local_only hfetched
      · cases hstep
        exact local_only h
    · cases hstep
  | contentReplay fetched committed =>
    simp only [clientStep] at hstep
    split at hstep
    · rename_i hready
      split at hstep
      · have hfetched := h.fetchedClosed ho hready.1
        split at hstep
        · rename_i target tip htarget
          have htip := followTarget_lookup htarget
          cases committed with
          | true =>
            cases hstep
            exact local_only (hfetched.switch ho hready.1 hready.2 htip _ (messages_plain next _).1)
          | false =>
            cases hstep
            have hswitch := hfetched.switch ho hready.1 hready.2 htip [] (by simp [NoSnapshot])
            rw [List.append_nil] at hswitch
            exact local_only hswitch
        · cases hstep
          exact local_only hfetched
      · cases hstep
        exact local_only h
    · cases hstep

end Clients

end EpochClones
