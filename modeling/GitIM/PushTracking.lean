import GitIM.PushConfirmation

/-!
# Tracking of pending commits

The invariant of the sync cycles: a pending message that is in a chain is there under
the commit its entry names, or the running cycle has rewritten that commit and holds
the head from before. Every step that loses no id of a pending entry keeps it.
-/

namespace PushTracking

open TextLines FileTree ThreadMerge PendingMessages CommitChain Runs PushConfirmation

section Invariant

theorem mem_carried {chain : Chain} {m : Nat} : m ∈ carried chain ↔ ∃ c ∈ chain, m ∈ c.change := by
  simp [carried, changes]

theorem carried_mono {a b : Chain} (h : ∀ c ∈ a, c ∈ b) {m : Nat} (hm : m ∈ carried a) :
    m ∈ carried b := by
  obtain ⟨c, hc, hmc⟩ := mem_carried.mp hm
  exact mem_carried.mpr ⟨c, h c hc, hmc⟩

theorem ids_mono {a b : Chain} (h : ∀ c ∈ a, c ∈ b) {n : Nat} (hn : n ∈ ids a) : n ∈ ids b := by
  obtain ⟨c, hc, heq⟩ := List.mem_map.mp hn
  exact heq ▸ id_mem_of_mem (h c hc)

/-- The commits that pending entries name. -/
def names (s : Daemon) : List Nat := s.pending.map (·.commitId)

structure WellFormed (names : List Nat) (next : Nat) (chain : Chain) : Prop where
  idFresh : ∀ c ∈ chain, c.id < next
  messageFresh : ∀ c ∈ chain, ∀ m ∈ c.change, m < next
  own : ∀ c ∈ chain, c.id ∈ names → c.id ∈ c.change

theorem WellFormed.mono {names names' : List Nat} {next next' : Nat} {chain : Chain}
    (h : WellFormed names next chain) (hle : next ≤ next')
    (hnames : ∀ n ∈ names', n < next → n ∈ names) : WellFormed names' next' chain where
  idFresh := fun c hc => lt_of_lt_of_le (h.idFresh c hc) hle
  messageFresh := fun c hc m hm => lt_of_lt_of_le (h.messageFresh c hc m hm) hle
  own := fun c hc hn => h.own c hc (hnames c.id hn (h.idFresh c hc))

theorem WellFormed.append {names : List Nat} {next : Nat} {a b : Chain}
    (ha : WellFormed names next a) (hb : WellFormed names next b) :
    WellFormed names next (a ++ b) where
  idFresh := fun c hc => (List.mem_append.mp hc).elim (ha.idFresh c) (hb.idFresh c)
  messageFresh := fun c hc => (List.mem_append.mp hc).elim (ha.messageFresh c) (hb.messageFresh c)
  own := fun c hc => (List.mem_append.mp hc).elim (ha.own c) (hb.own c)

/-- A pending message in the chain is there under its own commit, or that commit was rewritten
by the running cycle and is recorded. -/
def Tracked (s : Daemon) (chain : Chain) : Prop :=
  ∀ n ∈ names s, n ∈ carried chain →
    n ∈ ids chain ∨ (n ∈ ids (recorded s) ∧ n ∉ ids s.branch)

/-- The phases in which no head is recorded. -/
def Unrecorded : Phase → Prop
  | .idle | .pulling | .pulled | .pullRebasing => True
  | _ => False

structure Inv (s : Daemon) : Prop where
  pendingFresh : ∀ n ∈ names s, n < s.next
  branchFormed : WellFormed (names s) s.next s.branch
  upstreamFormed : WellFormed (names s) s.next s.upstream
  originFormed : WellFormed (names s) s.next s.origin
  recordedFormed : WellFormed (names s) s.next (recorded s)
  fetched : ∀ c ∈ s.upstream, c ∈ s.origin
  branchTracked : Tracked s s.branch
  upstreamTracked : Tracked s s.upstream
  originTracked : Tracked s s.origin
  covers : s.phase ≠ .finishing → ∀ m ∈ carried (recorded s), m ∈ carried s.branch
  confirming : ∀ pushed, s.phase = .confirming pushed →
    pushed = s.upstream ∧ ∀ m ∈ carried (recorded s), m ∈ carried pushed
  unrecorded : Unrecorded s.phase → s.included = none

theorem commitAll_formed (names : List Nat) (next count : Nat) (hnames : ∀ n ∈ names, n < next) :
    WellFormed names (next + count) (commitAll next (List.replicate count [])) := by
  have hempty : ∀ c ∈ commitAll next (List.replicate count ([] : List Nat)), c.change = [] := by
    intro c hc
    have hmem := change_mem_of_mem hc
    rw [changes_commitAll] at hmem
    exact (List.mem_replicate.mp hmem).2
  refine ⟨fun c hc => ?_, fun c hc m hm => ?_, fun c hc hn => ?_⟩
  · simpa using (commitAll_fresh hc).2
  · rw [hempty c hc] at hm
    cases hm
  · have hlow := (commitAll_fresh hc).1
    have hlt := hnames c.id hn
    omega

/-- Only the place in the cycle changes. -/
theorem inv_moved {s : Daemon} (h : Inv s) (phase : Phase)
    (hcovers : phase ≠ .finishing → s.phase ≠ .finishing)
    (hconfirming : ∀ pushed, phase ≠ .confirming pushed)
    (hunrecorded : Unrecorded phase → Unrecorded s.phase) : Inv { s with phase := phase } :=
  { h with
    covers := fun hp => h.covers (hcovers hp)
    confirming := fun pushed hp => absurd hp (hconfirming pushed)
    unrecorded := fun hp => h.unrecorded (hunrecorded hp) }

theorem inv_sendMessage {s : Daemon} (h : Inv s) (channel : Text) (line : Nat) :
    Inv (sendMessage s channel line) := by
  have hnames : names (sendMessage s channel line) = names s ++ [s.next] := by
    simp [names, sendMessage]
  have hlow : ∀ n ∈ names s ++ [s.next], n < s.next → n ∈ names s := by
    intro n hn hlt
    rcases List.mem_append.mp hn with hn | hn
    · exact hn
    · rw [List.mem_singleton] at hn
      omega
  have hformed : ∀ {chain}, WellFormed (names s) s.next chain →
      WellFormed (names s ++ [s.next]) (s.next + 1) chain :=
    fun hc => hc.mono (Nat.le_succ _) hlow
  have hnew : WellFormed (names s ++ [s.next]) (s.next + 1) [⟨s.next, [s.next]⟩] := by
    refine ⟨?_, ?_, ?_⟩ <;> simp
  -- the new message is in no other chain yet
  have hother : ∀ {chain}, WellFormed (names s) s.next chain → Tracked s chain →
      Tracked (sendMessage s channel line) chain := by
    intro chain hc ht n hn hm
    rw [hnames] at hn
    obtain ⟨c, hcc, hmc⟩ := mem_carried.mp hm
    have hlt := hc.messageFresh c hcc n hmc
    rcases ht n (hlow n hn hlt) hm with hid | ⟨hrec, hbranch⟩
    · exact Or.inl hid
    · refine Or.inr ⟨hrec, ?_⟩
      simp only [sendMessage, ids_append, List.mem_append, not_or]
      refine ⟨hbranch, ?_⟩
      simp only [ids, List.map_cons, List.map_nil, List.mem_singleton]
      omega
  refine
    { pendingFresh := ?_
      branchFormed := ?_
      upstreamFormed := hnames ▸ hformed h.upstreamFormed
      originFormed := hnames ▸ hformed h.originFormed
      recordedFormed := hnames ▸ hformed h.recordedFormed
      fetched := h.fetched
      branchTracked := ?_
      upstreamTracked := hother h.upstreamFormed h.upstreamTracked
      originTracked := hother h.originFormed h.originTracked
      covers := ?_
      confirming := h.confirming
      unrecorded := h.unrecorded }
  · intro n hn
    rw [hnames, List.mem_append, List.mem_singleton] at hn
    have hnext : (sendMessage s channel line).next = s.next + 1 := rfl
    rcases hn with hn | rfl
    · have := h.pendingFresh n hn
      omega
    · omega
  · exact hnames ▸ (hformed h.branchFormed).append hnew
  · intro n hn hm
    simp only [sendMessage, carried, changes_append, List.flatten_append, List.mem_append] at hm
    rcases hm with hm | hm
    · rcases hother h.branchFormed h.branchTracked n hn hm with hid | hrec
      · refine Or.inl ?_
        simp only [sendMessage, ids_append, List.mem_append]
        exact Or.inl hid
      · exact Or.inr hrec
    · refine Or.inl ?_
      simpa [sendMessage, ids, changes] using Or.inr hm
  · intro hp m hm
    have hold := h.covers hp m hm
    simp only [sendMessage, carried, changes_append, List.flatten_append, List.mem_append]
    exact Or.inl hold

theorem inv_remotePush {s : Daemon} (h : Inv s) (count : Nat) :
    Inv { s with
      origin := s.origin ++ commitAll s.next (List.replicate count [])
      next := s.next + count } := by
  have hformed : ∀ {chain}, WellFormed (names s) s.next chain →
      WellFormed (names s) (s.next + count) chain :=
    fun hc => hc.mono (Nat.le_add_right _ _) (fun n hn _ => hn)
  have hnothing : carried (commitAll s.next (List.replicate count [])) = [] := by
    simp [carried]
  exact
    { h with
      pendingFresh := fun n hn => Nat.lt_add_right count (h.pendingFresh n hn)
      branchFormed := hformed h.branchFormed
      upstreamFormed := hformed h.upstreamFormed
      originFormed := (hformed h.originFormed).append (commitAll_formed _ _ _ h.pendingFresh)
      recordedFormed := hformed h.recordedFormed
      fetched := fun c hc => List.mem_append_left _ (h.fetched c hc)
      originTracked := by
        intro n hn hm
        rw [carried, changes_append, List.flatten_append, List.mem_append] at hm
        rcases hm with hm | hm
        · rcases h.originTracked n hn hm with hid | hrec
          · exact Or.inl (by simpa using Or.inl hid)
          · exact Or.inr hrec
        · rw [← carried, hnothing] at hm
          cases hm }

/-- The remote takes the local branch. -/
theorem inv_landed {s : Daemon} (h : Inv s) (hforward : s.origin <+: s.branch) :
    Inv { s with origin := s.branch } :=
  { h with
    originFormed := h.branchFormed
    fetched := fun c hc => hforward.subset (h.fetched c hc)
    originTracked := h.branchTracked }

theorem inv_fetched {s : Daemon} (h : Inv s) (hphase : ∀ pushed, s.phase ≠ .confirming pushed) :
    Inv { s with upstream := s.origin } :=
  { h with
    upstreamFormed := h.originFormed
    fetched := fun _ hc => hc
    upstreamTracked := h.originTracked
    confirming := fun pushed hp => absurd hp (hphase pushed) }

/-- The push goes through. -/
theorem inv_pushed {s : Daemon} (h : Inv s) (hforward : s.origin <+: s.branch)
    (hphase : s.phase ≠ .finishing) :
    Inv { s with origin := s.branch, upstream := s.branch, phase := .confirming s.branch } :=
  { inv_landed h hforward with
    upstreamFormed := h.branchFormed
    fetched := fun _ hc => hc
    upstreamTracked := h.branchTracked
    covers := fun _ => h.covers hphase
    confirming := by
      intro pushed hp
      cases hp
      exact ⟨rfl, h.covers hphase⟩
    unrecorded := fun hp => absurd hp id }

/-- The hard reset of the safety net. -/
theorem inv_reset {s : Daemon} (h : Inv s) :
    Inv { s with branch := s.upstream, phase := .finishing } := by
  have htracked : ∀ {chain : Chain}, (∀ c ∈ s.upstream, c ∈ chain) → Tracked s chain →
      Tracked { s with branch := s.upstream, phase := .finishing } chain := by
    intro chain hsub ht n hn hm
    by_cases hup : n ∈ ids s.upstream
    · exact Or.inl (ids_mono hsub hup)
    · rcases ht n hn hm with hid | ⟨hrec, -⟩
      · exact Or.inl hid
      · exact Or.inr ⟨hrec, hup⟩
  exact
    { h with
      branchFormed := h.upstreamFormed
      branchTracked := htracked (fun _ hc => hc) h.upstreamTracked
      upstreamTracked := htracked (fun _ hc => hc) h.upstreamTracked
      originTracked := htracked h.fetched h.originTracked
      covers := fun hp => absurd rfl hp
      confirming := fun pushed hp => by cases hp
      unrecorded := fun hp => absurd hp id }

theorem inv_cycleDone {s : Daemon} (h : Inv s) (hguard : Remembers s .cycleDone) :
    Inv { s with phase := .idle, included := none } := by
  have hknown : ∀ n ∈ names s, n ∈ ids (recorded s) → n ∈ ids s.branch := by
    intro n hn hrec
    obtain ⟨msg, hmsg, rfl⟩ := List.mem_map.mp hn
    exact hguard msg hmsg hrec
  have htracked : ∀ {chain : Chain}, Tracked s chain →
      Tracked { s with phase := .idle, included := none } chain := by
    intro chain ht n hn hm
    rcases ht n hn hm with hid | ⟨hrec, hbranch⟩
    · exact Or.inl hid
    · exact absurd (hknown n hn hrec) hbranch
  exact
    { h with
      recordedFormed := ⟨by simp [recorded], by simp [recorded], by simp [recorded]⟩
      branchTracked := htracked h.branchTracked
      upstreamTracked := htracked h.upstreamTracked
      originTracked := htracked h.originTracked
      covers := by simp [recorded, carried, changes]
      confirming := fun pushed hp => by cases hp
      unrecorded := fun _ => rfl }

end Invariant

section Rewriting

/-- What every rewrite of the local branch does: the result is on top of the upstream, its
commits are old ones or new ones with old messages, and no local message is lost. -/
structure Rewritten (s t : Daemon) : Prop where
  base : ∀ c ∈ s.upstream, c ∈ t.branch
  source : ∀ c ∈ t.branch, c ∈ s.upstream ∨ c ∈ s.branch ∨
    (s.next ≤ c.id ∧ c.id < t.next ∧ ∀ m ∈ c.change, m ∈ carried s.branch)
  survive : ∀ m ∈ carried s.branch, m ∈ carried t.branch
  grows : s.next ≤ t.next
  sameUpstream : t.upstream = s.upstream
  sameOrigin : t.origin = s.origin
  sameNames : names t = names s

theorem rewritten_rebaseStep (s : Daemon) : Rewritten s (rebaseStep s) where
  base := by
    intro c hc
    simp only [rebaseStep, rebaseOnto]
    split
    · rename_i hpre
      exact hpre.subset hc
    · exact List.mem_append_left _ hc
  source := by
    intro c hc
    rcases mem_rebaseOnto hc with ⟨-, hb⟩ | hup | ⟨hlow, hhigh, hchange⟩
    · exact Or.inr (Or.inl hb)
    · exact Or.inl hup
    · refine Or.inr (Or.inr ⟨hlow, hhigh, fun m hm => ?_⟩)
      obtain ⟨d, hd, heq⟩ := List.mem_map.mp hchange
      exact mem_carried.mpr ⟨d, (mem_aheadOf.mp hd).1, heq ▸ hm⟩
  survive := by
    intro m hm
    obtain ⟨c, hc, hmc⟩ := mem_carried.mp hm
    have hchange : c.change ∈ changes (rebaseOnto s.next s.upstream s.branch) :=
      change_mem_rebaseOnto hc
    obtain ⟨d, hd, heq⟩ := List.mem_map.mp hchange
    exact mem_carried.mpr ⟨d, hd, heq ▸ hmc⟩
  grows := Nat.le_add_right _ _
  sameUpstream := rfl
  sameOrigin := rfl
  sameNames := rfl

theorem rewritten_resolveStep (s : Daemon) (mappings : List RenumberMapping) :
    Rewritten s (resolveStep s mappings) where
  base := fun c hc => List.mem_append_left _ hc
  source := by
    intro c hc
    rcases List.mem_append.mp hc with hup | hnew
    · exact Or.inl hup
    · rw [commitAll, commitAll, List.mem_singleton] at hnew
      subst hnew
      refine Or.inr (Or.inr ⟨le_rfl, Nat.lt_succ_self _, fun m hm => ?_⟩)
      exact carried_mono (fun d hd => (mem_aheadOf.mp hd).1) hm
  survive := by
    intro m hm
    obtain ⟨c, hc, hmc⟩ := mem_carried.mp hm
    by_cases hup : c ∈ s.upstream
    · exact mem_carried.mpr ⟨c, List.mem_append_left _ hup, hmc⟩
    · have hahead : m ∈ carried (aheadOf s.branch s.upstream) :=
        mem_carried.mpr ⟨c, mem_aheadOf.mpr ⟨hc, hup⟩, hmc⟩
      exact mem_carried.mpr ⟨⟨s.next, carried (aheadOf s.branch s.upstream)⟩,
        List.mem_append_right _ List.mem_cons_self, hahead⟩
  grows := Nat.le_succ _
  sameUpstream := rfl
  sameOrigin := rfl
  sameNames := by
    simp only [names, resolveStep, renumberAll_pending, List.map_map]
    refine List.map_congr_left (fun msg _ => ?_)
    exact (moveAll_kept mappings msg).2

theorem Rewritten.carried_from {s t : Daemon} (r : Rewritten s t) {m : Nat}
    (hm : m ∈ carried t.branch) : m ∈ carried s.upstream ∨ m ∈ carried s.branch := by
  obtain ⟨c, hc, hmc⟩ := mem_carried.mp hm
  rcases r.source c hc with hup | hb | ⟨-, -, hold⟩
  · exact Or.inl (mem_carried.mpr ⟨c, hup, hmc⟩)
  · exact Or.inr (mem_carried.mpr ⟨c, hb, hmc⟩)
  · exact Or.inr (hold m hmc)

/-- A pending commit on the rewritten branch is an old commit. -/
theorem Rewritten.ids_from {s t : Daemon} (r : Rewritten s t) (h : Inv s) {n : Nat}
    (hn : n ∈ names s) (hid : n ∈ ids t.branch) :
    n ∈ ids s.upstream ∨ n ∈ ids s.branch := by
  obtain ⟨c, hc, rfl⟩ := List.mem_map.mp hid
  rcases r.source c hc with hup | hb | ⟨hlow, -, -⟩
  · exact Or.inl (id_mem_of_mem hup)
  · exact Or.inr (id_mem_of_mem hb)
  · have := h.pendingFresh c.id hn
    omega

theorem Rewritten.formed {s t : Daemon} (r : Rewritten s t) (h : Inv s) :
    WellFormed (names s) t.next t.branch := by
  have hup := h.upstreamFormed.mono r.grows (fun n hn _ => hn)
  have hb := h.branchFormed.mono r.grows (fun n hn _ => hn)
  refine ⟨fun c hc => ?_, fun c hc m hm => ?_, fun c hc hn => ?_⟩
  · rcases r.source c hc with hc | hc | ⟨-, hhigh, -⟩
    · exact hup.idFresh c hc
    · exact hb.idFresh c hc
    · exact hhigh
  · rcases r.source c hc with hc | hc | ⟨-, -, hold⟩
    · exact hup.messageFresh c hc m hm
    · exact hb.messageFresh c hc m hm
    · obtain ⟨d, hd, hmd⟩ := mem_carried.mp (hold m hm)
      exact hb.messageFresh d hd m hmd
  · rcases r.source c hc with hc | hc | ⟨hlow, -, -⟩
    · exact hup.own c hc hn
    · exact hb.own c hc hn
    · have := h.pendingFresh c.id hn
      omega

/-- A rewrite keeps the invariant if every pending commit stays known: on the new branch or in
the recorded head. -/
theorem inv_rewritten {s t : Daemon} (h : Inv s) (r : Rewritten s t)
    (hphase : s.phase ≠ .finishing) (hnot : ∀ pushed, t.phase ≠ .confirming pushed)
    (hout : ¬ Unrecorded t.phase)
    (hfrom : ∀ c ∈ recorded t, c ∈ recorded s ∨ c ∈ s.branch)
    (hkeep : ∀ n ∈ ids (recorded s), n ∈ ids (recorded t))
    (hknown : ∀ n ∈ names s, n ∈ ids s.branch →
      n ∈ ids t.branch ∨ n ∈ ids (recorded t)) : Inv t := by
  have hformed : ∀ {chain}, WellFormed (names s) s.next chain →
      WellFormed (names t) t.next chain :=
    fun hc => r.sameNames ▸ hc.mono r.grows (fun n hn _ => hn)
  have hother : ∀ {chain : Chain}, (∀ c ∈ s.upstream, c ∈ chain) → Tracked s chain →
      Tracked t chain := by
    intro chain hsub ht n hn hm
    rw [r.sameNames] at hn
    rcases ht n hn hm with hid | ⟨hrec, hbranch⟩
    · exact Or.inl hid
    · by_cases hnew : n ∈ ids t.branch
      · rcases r.ids_from h hn hnew with hup | hold
        · exact Or.inl (ids_mono hsub hup)
        · exact absurd hold hbranch
      · exact Or.inr ⟨hkeep n hrec, hnew⟩
  refine
    { pendingFresh := fun n hn => lt_of_lt_of_le (h.pendingFresh n (r.sameNames ▸ hn)) r.grows
      branchFormed := r.sameNames ▸ r.formed h
      upstreamFormed := r.sameUpstream ▸ hformed h.upstreamFormed
      originFormed := r.sameOrigin ▸ hformed h.originFormed
      recordedFormed := ?_
      fetched := r.sameUpstream ▸ r.sameOrigin ▸ h.fetched
      branchTracked := ?_
      upstreamTracked := r.sameUpstream ▸ hother (fun _ hc => hc) h.upstreamTracked
      originTracked := r.sameOrigin ▸ hother h.fetched h.originTracked
      covers := ?_
      confirming := fun pushed hp => absurd hp (hnot pushed)
      unrecorded := fun hp => absurd hp hout }
  · have hrec := hformed h.recordedFormed
    have hbranch := hformed h.branchFormed
    exact ⟨fun c hc => (hfrom c hc).elim (hrec.idFresh c) (hbranch.idFresh c),
      fun c hc => (hfrom c hc).elim (hrec.messageFresh c) (hbranch.messageFresh c),
      fun c hc => (hfrom c hc).elim (hrec.own c) (hbranch.own c)⟩
  · intro n hn hm
    rw [r.sameNames] at hn
    by_cases hnew : n ∈ ids t.branch
    · exact Or.inl hnew
    · refine Or.inr ⟨?_, hnew⟩
      have hup : n ∉ ids s.upstream := fun hid => hnew (ids_mono r.base hid)
      rcases r.carried_from hm with hold | hold
      · exact hkeep n ((h.upstreamTracked n hn hold).resolve_left hup).1
      · rcases h.branchTracked n hn hold with hid | ⟨hrec, -⟩
        · exact (hknown n hn hid).resolve_left hnew
        · exact hkeep n hrec
  · intro _ m hm
    obtain ⟨c, hc, hmc⟩ := mem_carried.mp hm
    rcases hfrom c hc with hrec | hb
    · exact r.survive m (h.covers hphase m (mem_carried.mpr ⟨c, hrec, hmc⟩))
    · exact r.survive m (mem_carried.mpr ⟨c, hb, hmc⟩)

theorem ids_recordHead (s t : Daemon) (ht : t.included = recordHead s) :
    (s.included = none ∧ recorded t = s.branch) ∨ (s.included ≠ none ∧ recorded t = recorded s) := by
  cases hi : s.included with
  | none => exact Or.inl ⟨rfl, by simp [recorded, ht, recordHead, hi]⟩
  | some head => exact Or.inr ⟨by simp, by simp [recorded, ht, recordHead, hi]⟩

/-- A rewrite of `sync_with_push` records the head if it is the first of the cycle. -/
theorem inv_rewriteStep {s : Daemon} (h : Inv s) (attempt : Nat) (outcome : RewriteOutcome)
    (hphase : s.phase = .rewriting attempt) (hguard : Remembers s (.rewrite outcome)) :
    Inv (rewriteStep s attempt outcome) := by
  have hne : s.phase ≠ .finishing := by simp [hphase]
  have key : ∀ t : Daemon, Rewritten s t → t.included = recordHead s →
      t.phase = .pushingRewritten attempt →
      (s.included ≠ none → ∀ n ∈ names s, n ∈ ids s.branch →
        n ∈ ids t.branch ∨ n ∈ ids (recorded s)) → Inv t := by
    intro t r hincluded hpushing hknown
    refine inv_rewritten h r hne (by simp [hpushing]) (by simp [hpushing, Unrecorded]) ?_ ?_ ?_
    · intro c hc
      rcases ids_recordHead s t hincluded with ⟨-, heq⟩ | ⟨-, heq⟩
      · exact Or.inr (heq ▸ hc)
      · exact Or.inl (heq ▸ hc)
    · intro n hn
      rcases ids_recordHead s t hincluded with ⟨hnone, heq⟩ | ⟨-, heq⟩
      · simp [recorded, hnone, ids] at hn
      · exact heq ▸ hn
    · intro n hn hid
      rcases ids_recordHead s t hincluded with ⟨-, heq⟩ | ⟨hsome, heq⟩
      · exact Or.inr (heq ▸ hid)
      · exact heq ▸ hknown hsome n hn hid
  have hremember : RewriteRemembers s → ∀ t : Daemon, Rewritten s t → ∀ n ∈ names s,
      n ∈ ids s.branch → n ∈ ids t.branch ∨ n ∈ ids (recorded s) := by
    intro hr t r n hn hid
    obtain ⟨msg, hmsg, rfl⟩ := List.mem_map.mp hn
    exact (hr msg hmsg hid).imp_left (ids_mono r.base)
  cases outcome with
  | failed =>
    exact inv_moved h .finishing (fun hp => absurd rfl hp) (by simp) (fun hp => absurd hp id)
  | resolved mappings =>
    have r : Rewritten s (rewriteStep s attempt (.resolved mappings)) :=
      { rewritten_resolveStep s mappings with }
    exact key _ r rfl rfl (fun hsome => hremember (hguard hsome) _ r)
  | rebased =>
    have r : Rewritten s (rewriteStep s attempt .rebased) := { rewritten_rebaseStep s with }
    refine key _ r rfl rfl (fun hsome n hn hid => ?_)
    by_cases hpre : s.upstream <+: s.branch
    · refine Or.inl ?_
      simpa [rewriteStep, rebaseStep, rebaseOnto, hpre] using hid
    · exact hremember (hguard hsome hpre) _ r n hn hid

theorem inv_pullRebase {s : Daemon} (h : Inv s) (hphase : s.phase = .pullRebasing)
    (hguard : Remembers s (.pullRebase true)) :
    Inv { rebaseStep s with phase := .finishing } := by
  have r : Rewritten s { rebaseStep s with phase := .finishing } := { rewritten_rebaseStep s with }
  have hnone : recorded s = [] := by
    simp [recorded, h.unrecorded (by simp [hphase, Unrecorded])]
  refine inv_rewritten h r (by simp [hphase]) (by simp) (by simp [Unrecorded])
    (fun c hc => Or.inl hc) (fun n hn => hn) (fun n hn hid => Or.inl ?_)
  by_cases hpre : s.upstream <+: s.branch
  · simpa [rebaseStep, rebaseOnto, hpre] using hid
  · obtain ⟨msg, hmsg, rfl⟩ := List.mem_map.mp hn
    rcases hguard rfl hpre msg hmsg hid with hup | hrec
    · exact ids_mono r.base hup
    · simp [hnone, ids] at hrec

end Rewriting

section Confirming

theorem inv_confirm {s : Daemon} (h : Inv s) {pushed : Chain}
    (hphase : s.phase = .confirming pushed) :
    Inv { confirmPendingPushes s pushed (s.included.getD pushed) with phase := .finishing } := by
  have hreach : pushed <+: s.upstream := by
    rw [(h.confirming pushed hphase).1]
  rw [confirmPendingPushes, if_pos hreach]
  generalize hpending : s.pending.filter (¬ Included pushed (s.included.getD pushed) ·) = rest
  have hsub : ∀ n ∈ rest.map (·.commitId), n ∈ names s := by
    intro n hn
    obtain ⟨msg, hmsg, rfl⟩ := List.mem_map.mp hn
    rw [← hpending] at hmsg
    exact List.mem_map_of_mem (List.mem_filter.mp hmsg).1
  have hformed : ∀ {chain}, WellFormed (names s) s.next chain →
      WellFormed (rest.map (·.commitId)) s.next chain :=
    fun hc => hc.mono le_rfl (fun n hn _ => hsub n hn)
  exact
    { pendingFresh := fun n hn => h.pendingFresh n (hsub n hn)
      branchFormed := hformed h.branchFormed
      upstreamFormed := hformed h.upstreamFormed
      originFormed := hformed h.originFormed
      recordedFormed := hformed h.recordedFormed
      fetched := h.fetched
      branchTracked := fun n hn => h.branchTracked n (hsub n hn)
      upstreamTracked := fun n hn => h.upstreamTracked n (hsub n hn)
      originTracked := fun n hn => h.originTracked n (hsub n hn)
      covers := fun hp => absurd rfl hp
      confirming := fun pushed hp => by cases hp
      unrecorded := fun hp => absurd hp id }

end Confirming

section Cycles

theorem phaseAfterFailedPush_cases (phase : Phase) (outcome : PushOutcome) :
    (∃ attempt, phaseAfterFailedPush phase outcome = .fetching attempt) ∨
      (∃ attempt, phaseAfterFailedPush phase outcome = .pushing attempt) ∨
      phaseAfterFailedPush phase outcome = .finishing := by
  unfold phaseAfterFailedPush
  split
  · exact Or.inl ⟨_, rfl⟩
  · split
    · exact Or.inr (Or.inl ⟨_, rfl⟩)
    · exact Or.inr (Or.inr rfl)
  · split
    · exact Or.inr (Or.inl ⟨_, rfl⟩)
    · exact Or.inr (Or.inr rfl)
  · exact Or.inr (Or.inr rfl)

theorem inv_failedPush {s : Daemon} (h : Inv s) (outcome : PushOutcome)
    (hphase : s.phase ≠ .finishing) :
    Inv { s with phase := phaseAfterFailedPush s.phase outcome } := by
  refine inv_moved h _ (fun _ => hphase) ?_ ?_
  · rcases phaseAfterFailedPush_cases s.phase outcome with ⟨_, hp⟩ | ⟨_, hp⟩ | hp <;> simp [hp]
  · rcases phaseAfterFailedPush_cases s.phase outcome with ⟨_, hp⟩ | ⟨_, hp⟩ | hp <;>
      simp [hp, Unrecorded]

theorem inv_pushStep {s t : Daemon} (h : Inv s) (outcome : PushOutcome)
    (hphase : s.phase ≠ .finishing) (hstep : pushStep s outcome = some t) : Inv t := by
  cases outcome with
  | ok =>
    simp only [pushStep, Option.ite_none_right_eq_some, Option.some.injEq] at hstep
    obtain ⟨hforward, rfl⟩ := hstep
    exact inv_pushed h hforward hphase
  | conflict =>
    cases hstep
    exact inv_failedPush h .conflict hphase
  | refused =>
    cases hstep
    exact inv_failedPush h .refused hphase
  | failed landed =>
    cases landed with
    | false =>
      cases hstep
      exact inv_failedPush h (.failed false) hphase
    | true =>
      simp only [pushStep, Option.ite_none_right_eq_some, Option.some.injEq] at hstep
      obtain ⟨hforward, rfl⟩ := hstep
      exact inv_failedPush (inv_landed h hforward) (.failed true) hphase

theorem inv_enforceMaxDivergence {s : Daemon} (h : Inv s) (ok : Bool) (go : Phase)
    (hphase : s.phase ≠ .finishing) (hnot : ∀ pushed, go ≠ .confirming pushed)
    (hout : Unrecorded go → Unrecorded s.phase) : Inv (enforceMaxDivergence s ok go) := by
  rw [enforceMaxDivergence]
  split
  · exact inv_reset h
  · exact inv_moved h go (fun _ => hphase) hnot hout

theorem inv_finishing {s : Daemon} (h : Inv s) : Inv { s with phase := .finishing } :=
  inv_moved h .finishing (fun hp => absurd rfl hp) (by simp) (fun hu => absurd hu id)

theorem inv_step (s : Daemon) (a : Action) (t : Daemon) (h : Inv s) (hguard : Remembers s a)
    (hstep : step s a = some t) : Inv t := by
  cases a with
  | send channel line =>
    cases hstep
    exact inv_sendMessage h channel line
  | remotePush count =>
    cases hstep
    exact inv_remotePush h count
  | beginCycle =>
    simp only [step, Option.ite_none_right_eq_some, Option.some.injEq] at hstep
    obtain ⟨hidle, rfl⟩ := hstep
    have hout : Unrecorded s.phase := by simp [hidle, Unrecorded]
    split
    · exact inv_moved h _ (by simp [hidle]) (by simp) (fun _ => hout)
    · exact inv_moved h _ (by simp [hidle]) (by simp) (fun _ => hout)
  | push outcome =>
    simp only [step] at hstep
    split at hstep
    · rename_i hphase
      exact inv_pushStep h outcome (by simp [hphase]) hstep
    · rename_i hphase
      exact inv_pushStep h outcome (by simp [hphase]) hstep
    · cases hstep
  | fetch ok =>
    simp only [step] at hstep
    split at hstep
    · rename_i attempt hphase
      cases hstep
      cases ok with
      | false => exact inv_finishing h
      | true =>
        exact inv_moved (inv_fetched h (by simp [hphase])) _ (by simp [hphase]) (by simp)
          (fun hu => absurd hu id)
    · rename_i hphase
      cases hstep
      cases ok with
      | false => exact inv_finishing h
      | true =>
        exact inv_moved (inv_fetched h (by simp [hphase])) _ (by simp [hphase]) (by simp)
          (by simp [hphase, Unrecorded])
    · cases hstep
  | enforceDivergence ok =>
    simp only [step] at hstep
    split at hstep
    · rename_i attempt hphase
      cases hstep
      exact inv_enforceMaxDivergence h ok _ (by simp [hphase]) (by simp) (fun hu => absurd hu id)
    · rename_i hphase
      cases hstep
      exact inv_enforceMaxDivergence h ok _ (by simp [hphase]) (by simp)
        (by simp [hphase, Unrecorded])
    · cases hstep
  | rewrite outcome =>
    simp only [step] at hstep
    split at hstep
    · rename_i attempt hphase
      cases hstep
      exact inv_rewriteStep h attempt outcome hphase hguard
    · cases hstep
  | confirm =>
    simp only [step] at hstep
    split at hstep
    · rename_i pushed hphase
      cases hstep
      exact inv_confirm h hphase
    · cases hstep
  | pullRebase ok =>
    simp only [step, Option.ite_none_right_eq_some, Option.some.injEq] at hstep
    obtain ⟨hphase, rfl⟩ := hstep
    cases ok with
    | false => exact inv_finishing h
    | true => exact inv_pullRebase h hphase hguard
  | cycleDone =>
    simp only [step, Option.ite_none_right_eq_some, Option.some.injEq] at hstep
    obtain ⟨-, rfl⟩ := hstep
    exact inv_cycleDone h hguard

end Cycles

section Samples

end Samples

end PushTracking
