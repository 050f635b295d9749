import GitIM.CommitChain
import GitIM.Runs

/-!
# Pull-only sync cycles

The pull-only branch of a sync cycle beside the handlers of the daemon. Handlers
commit under `commit_lock`; the cycle takes the lock only for its reset and its
rebase, and its probes run without it. The remote repository accepts fast-forward
pushes only.
-/

namespace PullOnlySync

open CommitChain Runs

def maxBehindBeforeHardReset : Nat := 32

/-- Where `run_sync_cycle_with_cache_inner` stands on its pull-only branch. -/
inductive Phase where
  | idle
  /-- `has_unpushed_commits` has answered false. -/
  | probed
  | fetched
  /-- `enforce_divergence_threshold` waits for the lock. -/
  | resetWanted
  | resetLocked
  /-- `sync_pull_only` waits for the lock. -/
  | rebaseWanted
  | rebaseLocked
  deriving DecidableEq

/-- The daemon's clone and its remote. The handlers' commits are recorded, all of them in `made`
and those since the last probe in `sinceProbe`. -/
structure Clone (Change : Type) where
  branch : Branch Change
  upstream : Branch Change
  origin : Branch Change
  next : Nat
  phase : Phase
  made : Branch Change
  sinceProbe : Branch Change
  deriving DecidableEq

inductive Action (Change : Type) where
  | handlerCommit (change : Change)
  /-- Another client pushes. -/
  | remotePush (cs : List Change)
  /-- A cycle on the other branch of `run_sync_cycle_with_cache_inner` pushes. -/
  | push
  | probeUnpushed
  | fetch (ok : Bool)
  | probeDivergence (ok : Bool)
  | acquire
  | reset (ok : Bool)
  | rebase (ok : Bool)
  deriving DecidableEq

variable {Change : Type} [DecidableEq Change]

def locked (s : Clone Change) : Prop := s.phase = .resetLocked ∨ s.phase = .rebaseLocked

instance (s : Clone Change) : Decidable (locked s) := inferInstanceAs (Decidable (_ ∨ _))

/-- How many commits HEAD is behind its upstream. -/
def behind (s : Clone Change) : Nat := (aheadOf s.upstream s.branch).length

def commitByHandler (s : Clone Change) (change : Change) : Clone Change :=
  let commit := ⟨s.next, change⟩
  { s with
    branch := s.branch ++ [commit]
    next := s.next + 1
    made := s.made ++ [commit]
    sinceProbe := s.sinceProbe ++ [commit] }

/-- The steps of a cycle and of its surroundings; a failed fetch and every end of the cycle
lead back to `idle`. -/
def step (s : Clone Change) : Action Change → Option (Clone Change)
  | .handlerCommit change => if locked s then none else some (commitByHandler s change)
  | .remotePush cs =>
    some { s with origin := s.origin ++ commitAll s.next cs, next := s.next + cs.length }
  | .push =>
    if s.phase = .idle ∧ s.origin <+: s.branch then
      some { s with origin := s.branch, upstream := s.branch }
    else none
  | .probeUnpushed =>
    if s.phase = .idle ∧ aheadOf s.branch s.upstream = [] then
      some { s with phase := .probed, sinceProbe := [] }
    else none
  | .fetch ok =>
    if s.phase = .probed then
      some (if ok then { s with phase := .fetched, upstream := s.origin }
        else { s with phase := .idle })
    else none
  | .probeDivergence ok =>
    if s.phase = .fetched then
      some (if ok ∧ maxBehindBeforeHardReset ≤ behind s then { s with phase := .resetWanted }
        else { s with phase := .rebaseWanted })
    else none
  | .acquire =>
    match s.phase with
    | .resetWanted => some { s with phase := .resetLocked }
    | .rebaseWanted => some { s with phase := .rebaseLocked }
    | _ => none
  | .reset ok =>
    if s.phase = .resetLocked then
      some (if ok then { s with phase := .idle, branch := s.upstream }
        else { s with phase := .rebaseWanted })
    else none
  | .rebase ok =>
    if s.phase = .rebaseLocked then
      some (if ok then
          { s with
            phase := .idle
            branch := rebaseOnto s.next s.upstream s.branch
            next := s.next + (replayed s.upstream s.branch).length }
        else { s with phase := .idle })
    else none

/-- A fresh clone of a remote repository with the given history. -/
def cloned (history : List Change) : Clone Change :=
  let origin := commitAll 0 history
  ⟨origin, origin, origin, history.length, .idle, [], []⟩

/-- Every commit of a handler is on the local branch, itself or with its change rebased. -/
def Keeps (s : Clone Change) : Prop :=
  ∀ c ∈ s.made, c ∈ s.branch ∨ c.change ∈ changes s.branch

instance (s : Clone Change) : Decidable (Keeps s) := List.decidableBAll _ _

/-- A hard reset goes through only if no handler has committed since the probe for unpushed
commits. -/
def ResetUndisturbed (s : Clone Change) : Action Change → Prop
  | .reset ok => ok = true → s.sinceProbe = []
  | _ => True

instance (s : Clone Change) : ∀ a, Decidable (ResetUndisturbed s a)
  | .reset ok => inferInstanceAs (Decidable (ok = true → s.sinceProbe = []))
  | .handlerCommit _ | .remotePush _ | .push | .probeUnpushed | .fetch _ | .probeDivergence _
  | .acquire | .rebase _ => isTrue trivial

structure Inv (s : Clone Change) : Prop where
  fetched : ∀ c ∈ s.upstream, c ∈ s.origin
  covered : s.phase ≠ .idle → ∀ c ∈ s.branch, c ∈ s.upstream ∨ c ∈ s.sinceProbe
  kept : ∀ c ∈ s.made, c.change ∈ changes s.branch

omit [DecidableEq Change] in
theorem inv_cloned (history : List Change) : Inv (cloned history) where
  fetched := fun _ h => h
  covered := fun h => absurd rfl h
  kept := fun _ h => absurd h List.not_mem_nil

omit [DecidableEq Change] in
/-- A step that moves the cycle on and leaves the branches as they are. -/
theorem inv_phase {s : Clone Change} (h : Inv s) (phase : Phase)
    (hphase : phase ≠ .idle → s.phase ≠ .idle) : Inv { s with phase := phase } where
  fetched := h.fetched
  covered := fun hne => h.covered (hphase hne)
  kept := h.kept

omit [DecidableEq Change] in
theorem inv_commitByHandler {s : Clone Change} (h : Inv s) (change : Change) :
    Inv (commitByHandler s change) where
  fetched := h.fetched
  covered := by
    intro hphase c hc
    simp only [commitByHandler, List.mem_append] at hc ⊢
    rcases hc with hc | hc
    · rcases h.covered hphase c hc with hup | hnew
      · exact Or.inl hup
      · exact Or.inr (Or.inl hnew)
    · exact Or.inr (Or.inr hc)
  kept := by
    intro c hc
    simp only [commitByHandler, List.mem_append, changes_append] at hc ⊢
    rcases hc with hc | hc
    · exact Or.inl (h.kept c hc)
    · exact Or.inr (change_mem_of_mem hc)

omit [DecidableEq Change] in
/-- A branch whose changes all survive keeps the handlers' commits. -/
theorem inv_rewritten {s : Clone Change} (h : Inv s) {branch : Branch Change} (next : Nat)
    (hsurvive : ∀ c ∈ s.branch, c.change ∈ changes branch) :
    Inv { s with phase := .idle, branch := branch, next := next } where
  fetched := h.fetched
  covered := fun hne => absurd rfl hne
  kept := by
    intro c hc
    obtain ⟨d, hd, heq⟩ := List.mem_map.mp (h.kept c hc)
    exact heq ▸ hsurvive d hd

theorem inv_step (s : Clone Change) (a : Action Change) (t : Clone Change) (h : Inv s)
    (hguard : ResetUndisturbed s a) (hstep : step s a = some t) : Inv t := by
  cases a with
  | handlerCommit change =>
    simp only [step, Option.ite_none_left_eq_some, Option.some.injEq] at hstep
    obtain ⟨-, rfl⟩ := hstep
    exact inv_commitByHandler h change
  | remotePush cs =>
    cases hstep
    exact ⟨fun c hc => List.mem_append_left _ (h.fetched c hc), h.covered, h.kept⟩
  | push =>
    simp only [step, Option.ite_none_right_eq_some, Option.some.injEq] at hstep
    obtain ⟨⟨hidle, -⟩, rfl⟩ := hstep
    exact ⟨fun _ hc => hc, fun hne => absurd hidle hne, h.kept⟩
  | probeUnpushed =>
    simp only [step, Option.ite_none_right_eq_some, Option.some.injEq] at hstep
    obtain ⟨⟨-, hnone⟩, rfl⟩ := hstep
    exact ⟨h.fetched, fun _ c hc => Or.inl (aheadOf_eq_nil_iff.mp hnone c hc), h.kept⟩
  | fetch ok =>
    simp only [step, Option.ite_none_right_eq_some, Option.some.injEq] at hstep
    obtain ⟨hphase, rfl⟩ := hstep
    have hcovered := h.covered (by simp [hphase])
    cases ok with
    | false => exact inv_phase h .idle (fun hne => absurd rfl hne)
    | true =>
      refine ⟨fun _ hc => hc, fun _ c hc => ?_, h.kept⟩
      rcases hcovered c hc with hup | hnew
      · exact Or.inl (h.fetched c hup)
      · exact Or.inr hnew
  | probeDivergence ok =>
    simp only [step, Option.ite_none_right_eq_some, Option.some.injEq] at hstep
    obtain ⟨hphase, rfl⟩ := hstep
    split
    · exact inv_phase h .resetWanted (fun _ => by simp [hphase])
    · exact inv_phase h .rebaseWanted (fun _ => by simp [hphase])
  | acquire =>
    simp only [step] at hstep
    split at hstep
    · rename_i hphase
      cases hstep
      exact inv_phase h .resetLocked (fun _ => by simp [hphase])
    · rename_i hphase
      cases hstep
      exact inv_phase h .rebaseLocked (fun _ => by simp [hphase])
    · cases hstep
  | reset ok =>
    simp only [step, Option.ite_none_right_eq_some, Option.some.injEq] at hstep
    obtain ⟨hphase, rfl⟩ := hstep
    have hcovered := h.covered (by simp [hphase])
    cases ok with
    | false => exact inv_phase h .rebaseWanted (fun _ => by simp [hphase])
    | true =>
      refine inv_rewritten h s.next (fun c hc => ?_)
      rcases hcovered c hc with hup | hnew
      · exact change_mem_of_mem hup
      · rw [hguard rfl] at hnew
        cases hnew
  | rebase ok =>
    simp only [step, Option.ite_none_right_eq_some, Option.some.injEq] at hstep
    obtain ⟨hphase, rfl⟩ := hstep
    cases ok with
    | false => exact inv_phase h .idle (fun hne => absurd rfl hne)
    | true => exact inv_rewritten h _ (fun c hc => change_mem_rebaseOnto hc)

/-- Along every interleaving in which no hard reset meets a commit made since the probe, every
commit of a handler stays on the local branch. -/
theorem pullOnly_keeps {history : List Change} {actions : List (Action Change)}
    {s : Clone Change} (hrun : run step (cloned history) actions = some s)
    (hguard : Along step ResetUndisturbed (cloned history) actions) : Keeps s := by
  have hinv : Inv s := run_invariant inv_step hrun hguard (inv_cloned history)
  exact fun c hc => Or.inr (hinv.kept c hc)

section Samples

/-- Thirty-two commits of other clients. -/
def remoteBurst : List Nat := List.range maxBehindBeforeHardReset

/-- A cycle that finds itself far behind, with handler commits around its critical window. -/
def farBehind (inWindow : List (Action Nat)) : List (Action Nat) :=
  [.handlerCommit 100, .push, .remotePush remoteBurst, .probeUnpushed, .fetch true,
    .probeDivergence true] ++ inWindow ++ [.acquire, .reset true, .handlerCommit 101]

/-- The reset of a cycle that no handler disturbs keeps the pushed commit and a later one. -/
theorem pullOnly_keeps_reset : ∃ s, run step (cloned [0]) (farBehind []) = some s ∧
    s.made.length = 2 ∧ Keeps s := by
  obtain ⟨s, hs⟩ := Option.isSome_iff_exists.mp
    (show (run step (cloned [0]) (farBehind [])).isSome by decide +kernel)
  have hmade : (run step (cloned [0]) (farBehind [])).map (·.made.length) = some 2 := by
    decide +kernel
  rw [hs] at hmade
  exact ⟨s, hs, Option.some.inj hmade, pullOnly_keeps hs (by decide +kernel)⟩

/-- A handler commits while the cycle waits for the lock: the reset discards the commit. -/
theorem pullOnly_discards : ∃ s,
    run step (cloned [0]) (farBehind [.handlerCommit 102]) = some s ∧ s.phase = .idle ∧
      ¬ Keeps s := by
  obtain ⟨s, hs⟩ := Option.isSome_iff_exists.mp
    (show (run step (cloned [0]) (farBehind [.handlerCommit 102])).isSome by decide +kernel)
  have hlost : (run step (cloned [0]) (farBehind [.handlerCommit 102])).map
      (fun s => decide (s.phase = .idle ∧ ¬ Keeps s)) = some true := by
    decide +kernel
  rw [hs] at hlost
  exact ⟨s, hs, of_decide_eq_true (Option.some.inj hlost)⟩

end Samples

end PullOnlySync
