import GitIM.ContentReplay

/-!
# Migration off a sealed epoch branch

`epoch_fence_and_follow` moves a clone with unpushed commits from a redirected branch
to the active one. It follows the redirect with a rebase and, if that fails, captures
the thread additions, discards the local commits, follows with a clean branch and
writes the additions again. Every git, file and resolver step may fail; its outcome is
an input.
-/

namespace EpochMigration

open TextLines FileTree ThreadFormat ThreadMerge DiffCapture ContentReplay

def sealSubjectPrefix : Text := "seal: redirect".toList

/-- What `epoch_status_at_ref` answers. -/
inductive EpochRead where
  | unreadable
  | absent
  | active
  | redirected
  deriving DecidableEq

/-- Only a missing or active epoch file leaves the fence open. -/
def EpochRead.fenced : EpochRead → Bool
  | .absent | .active => false
  | .unreadable | .redirected => true

inductive Head where
  | oldBranch
  | targetBranch
  /-- A rebase stopped and could not be aborted. -/
  | detached
  deriving DecidableEq

/-- Where the sealed branch points in the clone. -/
inductive OldTip where
  | original
  /-- The rebase has dragged the branch onto the target. -/
  | migrated
  | atOrigin
  deriving DecidableEq

/-- Where the target branch points in the clone. -/
inductive TargetTip where
  | atOrigin
  | migrated
  /-- The additions are resolved and committed on top of the target. -/
  | replayed (files : List ResolvedFile)
  deriving DecidableEq

structure Clone where
  head : Head
  old : OldTip
  target : TargetTip
  deriving DecidableEq

/-- The outcomes of the steps of `follow_redirect`; `redirect` is what the chain of epoch files
on origin says, if it can be read. -/
structure FollowOutcomes where
  fetch : Bool
  redirect : Option Bool
  probeUnpushed : Bool
  repointTarget : Bool
  setUpstream : Bool
  rebase : Bool
  abortRebase : Bool
  stampTarget : Bool
  checkout : Bool
  alignOld : Bool
  deriving DecidableEq

/-- The outcomes of the steps of `migrate_via_content_replay`; `diff` is the output of the
capturing `git diff`. -/
structure ReplayOutcomes where
  diff : Option Text
  snapshot : Bool
  discard : Bool
  follow : FollowOutcomes
  resolveIo : Bool
  write : Path → Bool
  commit : Bool

/-- The outcomes of the steps of the fence; `current_branch` is asked twice, for the check of
origin and again under the lock. -/
structure FenceOutcomes where
  headEpoch : EpochRead
  branchForCheck : Bool
  originEpoch : EpochRead
  currentBranch : Bool
  subjectsAhead : Bool
  /-- The answer of `has_dirty_tracked_files`. -/
  dirty : Option Bool
  resetToOrigin : Bool
  follow : FollowOutcomes
  replay : ReplayOutcomes

/-- The unpushed work on the old branch: the lines appended to each thread, and the subjects of
the commits. Handlers never write the subject of a seal. -/
structure Unpushed where
  appended : List (Path × List Text)
  subjects : List Text
  handlers : appended ≠ [] → ∃ subject ∈ subjects, ¬ sealSubjectPrefix <+: subject

inductive FollowResult where
  | switched
  | unchanged
  | failed
  deriving DecidableEq

section Following

/-- The end of `follow_redirect`; a failure to align the old branch is not fatal. -/
def switchToTarget (o : FollowOutcomes) (c : Clone) : FollowResult × Clone :=
  if o.checkout then
    (.switched, { c with
      head := .targetBranch
      old := if o.alignOld then .atOrigin else c.old })
  else (.failed, c)

/-- The old branch is rebased and the target is stamped at its new tip. -/
def migrateUnpushed (o : FollowOutcomes) (c : Clone) : FollowResult × Clone :=
  if o.rebase then
    let c := { c with old := .migrated }
    if o.stampTarget then switchToTarget o { c with target := .migrated } else (.failed, c)
  else (.failed, if o.abortRebase then c else { c with head := .detached })

def followRedirect (o : FollowOutcomes) (c : Clone) : FollowResult × Clone :=
  if o.fetch then
    match o.redirect with
    | none => (.failed, c)
    | some false => (.unchanged, c)
    | some true =>
      if o.probeUnpushed ∧ o.repointTarget then
        let c := { c with target := .atOrigin }
        if o.setUpstream then
          if c.old = .atOrigin then switchToTarget o c else migrateUnpushed o c
        else (.failed, c)
      else (.failed, c)
  else (.failed, c)

/-- `cleanup_failed_fire` resets the old branch only if all its commits are seals. -/
def cleanupFailedFire (u : Unpushed) (o : FenceOutcomes) (c : Clone) : Clone :=
  if o.subjectsAhead then
    if ∃ subject ∈ u.subjects, ¬ sealSubjectPrefix <+: subject then c
    else if o.dirty = some false ∧ o.resetToOrigin then { c with old := .atOrigin }
    else c
  else c

variable {Json : Type} (codec : JsonCodec Json) (tree : FileMap)

/-- The part of `migrate_via_content_replay` behind the clean follow; `tree` holds the files of
the target branch. -/
def applyAdditions (o : ReplayOutcomes) (additions : FileMap) (c : Clone) : Clone :=
  if additions = [] then c
  else
    match resolveContent codec o.resolveIo additions tree with
    | .error _ => c
    | .ok (files, _) =>
      if (∀ f ∈ files, o.write f.path) ∧ o.commit then
        { c with target := .replayed files }
      else c

/-- The content replay. With a detached HEAD `@{upstream}` does not resolve and the capture
fails; the restore of the saved HEAD always succeeds. -/
def migrateViaContentReplay (o : ReplayOutcomes) (c : Clone) : Clone :=
  match if c.head = .detached then none else o.diff with
  | none => c
  | some stdout =>
    if o.snapshot ∧ o.discard then
      match followRedirect o.follow { c with old := .atOrigin } with
      | (.switched, d) => applyAdditions codec tree o (parseDiffOutput stdout) d
      | (.unchanged, d) | (.failed, d) => { d with old := c.old }
    else c

/-- The clone when the fence is entered. -/
def unfollowed : Clone := ⟨.oldBranch, .original, .atOrigin⟩

/-- The answer says that this cycle must not push. -/
def epochFenceAndFollow (u : Unpushed) (o : FenceOutcomes) : Bool × Clone :=
  let headFenced := o.headEpoch.fenced
  let originFenced := o.branchForCheck && o.originEpoch.fenced
  if !headFenced && !originFenced then (false, unfollowed)
  else if !o.currentBranch then (true, unfollowed)
  else if headFenced && !originFenced then (true, cleanupFailedFire u o unfollowed)
  else
    match followRedirect o.follow unfollowed with
    | (.switched, c) => (true, c)
    | (.unchanged, c) => (false, c)
    | (.failed, c) => (true, migrateViaContentReplay codec tree o.replay c)

end Following

section Specification
variable {Json : Type} (codec : JsonCodec Json) (tree : FileMap)

/-- The committed file reads as the file of the target branch with every appended entry behind it,
renumbered. -/
def ReplayedOn (files : List ResolvedFile) (path : Path) (appended : List Text) : Prop :=
  ∃ content, (asWrites files).lookup path = some content ∧
    MergedBehind codec ((tree.lookup path).getD []) (unlines appended) content

/-- The lines appended to one thread are in the history of the branch that is left for them. -/
inductive Kept (c : Clone) (path : Path) (appended : List Text) : Prop where
  | intact (head : c.head ≠ .targetBranch) (old : c.old = .original)
  | rebasedOld (head : c.head = .oldBranch) (old : c.old = .migrated)
  | rebased (head : c.head = .targetBranch) (target : c.target = .migrated)
  | replayed (head : c.head = .targetBranch) {files : List ResolvedFile}
      (target : c.target = .replayed files) (here : ReplayedOn codec tree files path appended)

/-- No unpushed message is lost. -/
def NothingLost (u : Unpushed) (c : Clone) : Prop :=
  ∀ a ∈ u.appended, Kept codec tree c a.1 a.2

/-- The first follow ends in an error. -/
def FollowFails (o : FollowOutcomes) : Prop :=
  o.fetch = false ∨ o.redirect = none ∨ (o.redirect = some true ∧
    ¬ (o.probeUnpushed ∧ o.repointTarget ∧ o.setUpstream ∧ o.rebase ∧ o.stampTarget ∧ o.checkout))

/-- The first follow is stuck in its rebase. -/
def FollowStuck (o : FollowOutcomes) : Prop :=
  o.fetch ∧ o.redirect = some true ∧ o.probeUnpushed ∧ o.repointTarget ∧ o.setUpstream ∧
    o.rebase = false ∧ o.abortRebase = false

/-- The follow of a branch without local commits succeeds. -/
def CleanFollowSwitches (o : FollowOutcomes) : Prop :=
  o.fetch ∧ o.redirect = some true ∧ o.probeUnpushed ∧ o.repointTarget ∧ o.setUpstream ∧ o.checkout

/-- The replay gets past its last restore: the local commits are gone and only the captured
additions are left. -/
structure PastRestore (o : FenceOutcomes) (stdout : Text) : Prop where
  fenced : o.branchForCheck = true ∧ o.originEpoch.fenced = true
  branch : o.currentBranch = true
  followFails : FollowFails o.follow
  notStuck : ¬ FollowStuck o.follow
  diff : o.replay.diff = some stdout
  snapshot : o.replay.snapshot = true
  discard : o.replay.discard = true
  switches : CleanFollowSwitches o.replay.follow

/-- Past the last restore every further step has to succeed: the resolver takes the captured
additions, every file is written and the commit is made. -/
def ReplayCompletes (u : Unpushed) (o : FenceOutcomes) : Prop :=
  ∀ stdout, PastRestore o stdout → u.appended ≠ [] → o.replay.resolveIo = true ∧
    (∀ path text, (parseDiffOutput stdout).lookup path = some text →
      (∃ content, ResolvesTo codec tree path text content) ∧ o.replay.write path = true) ∧
    o.replay.commit = true

/-- What the diff parser captures of a thread is what was appended to it, and survives the
formatting. -/
def AppendsSurvive (u : Unpushed) (o : FenceOutcomes) : Prop :=
  ∀ stdout, PastRestore o stdout → ∀ a ∈ u.appended, ∃ text,
    (parseDiffOutput stdout).lookup a.1 = some text ∧
      Survives codec ((tree.lookup a.1).getD []) (unlines a.2) text

end Specification

section Following

theorem followRedirect_unfollowed (o : FollowOutcomes) :
    let result := followRedirect o unfollowed
    (result.1 = .switched ∧ ¬ FollowFails o ∧ result.2.head = .targetBranch ∧
      result.2.target = .migrated) ∨
    (result.1 = .unchanged ∧ ¬ FollowFails o ∧ result.2 = unfollowed) ∨
    (result.1 = .failed ∧ FollowFails o ∧ FollowStuck o ∧ result.2.head = .detached ∧
      result.2.old = .original) ∨
    (result.1 = .failed ∧ FollowFails o ∧ ¬ FollowStuck o ∧ result.2.head = .oldBranch ∧
      (result.2.old = .original ∨ result.2.old = .migrated)) := by
  obtain ⟨fetch, redirect, probe, repoint, upstream, rebase, abort, stamp, checkout, align⟩ := o
  simp only [followRedirect, migrateUnpushed, switchToTarget, unfollowed, FollowFails, FollowStuck]
  rcases fetch with _ | _
  · simp
  · rcases redirect with _ | _ | _
    · simp
    · simp
    · cases probe <;> cases repoint <;> cases upstream <;> try simp
      cases rebase <;> cases abort <;> cases stamp <;> cases checkout <;> simp

/-- Following with a branch that has nothing of its own. -/
theorem followRedirect_clean (o : FollowOutcomes) {c : Clone} (hhead : c.head = .oldBranch)
    (hold : c.old = .atOrigin) :
    let result := followRedirect o c
    (CleanFollowSwitches o ∧ result.1 = .switched ∧ result.2.head = .targetBranch ∧
      result.2.old = .atOrigin ∧ result.2.target = .atOrigin) ∨
    (¬ CleanFollowSwitches o ∧ result.1 ≠ .switched ∧ result.2.head = .oldBranch) := by
  obtain ⟨fetch, redirect, probe, repoint, upstream, rebase, abort, stamp, checkout, align⟩ := o
  simp only [followRedirect, switchToTarget, CleanFollowSwitches]
  rcases fetch with _ | _
  · simp [hhead]
  · rcases redirect with _ | _ | _
    · simp [hhead]
    · simp [hhead]
    · cases probe <;> cases repoint <;> cases upstream <;> try simp [hhead]
      cases checkout <;> simp [hold]

end Following

section Replaying
variable {Json : Type} (codec : JsonCodec Json) (tree : FileMap)

theorem applyAdditions_cases (o : ReplayOutcomes) (additions : FileMap) (c : Clone) :
    let result := applyAdditions codec tree o additions c
    result = c ∨ ∃ files mappings, result = { c with target := .replayed files } ∧
      o.resolveIo = true ∧ resolveContentPure codec additions tree = .ok (files, mappings) ∧
      (∀ f ∈ files, o.write f.path = true) ∧ o.commit = true := by
  simp only [applyAdditions]
  split
  · exact Or.inl rfl
  · split
    · exact Or.inl rfl
    · rename_i files mappings hresolve
      split
      · rename_i hdone
        rw [resolveContent] at hresolve
        split at hresolve
        · rename_i hio
          exact Or.inr ⟨files, mappings, rfl, hio, hresolve, hdone.1, hdone.2⟩
        · cases hresolve
      · exact Or.inl rfl

theorem applyAdditions_replays {o : ReplayOutcomes} {additions : FileMap} (c : Clone)
    (hadditions : additions ≠ []) (hio : o.resolveIo = true)
    (hresolve : ∀ path text, additions.lookup path = some text →
      (∃ content, ResolvesTo codec tree path text content) ∧ o.write path = true)
    (hcommit : o.commit = true) :
    ∃ files mappings, resolveContentPure codec additions tree = .ok (files, mappings) ∧
      applyAdditions codec tree o additions c = { c with target := .replayed files } := by
  obtain ⟨files, mappings, hok⟩ := resolveContentPure_succeeds codec
    (fun path text h => (hresolve path text h).1)
  have hwrite : ∀ f ∈ files, o.write f.path = true := by
    intro f hf
    have hmem : f.path ∈ (asWrites files).map Prod.fst := by
      rw [asWrites, List.map_map]
      exact List.mem_map_of_mem hf
    obtain ⟨content, hlookup⟩ := lookup_isSome_iff.mpr hmem
    cases htext : additions.lookup f.path with
    | none =>
      cases ((resolveContentPure_ok codec hok f.path).2 htext).symm.trans hlookup
    | some text => exact (hresolve f.path text htext).2
  refine ⟨files, mappings, hok, ?_⟩
  simp only [applyAdditions, if_neg hadditions, resolveContent, hio, if_true, hok]
  rw [if_pos ⟨hwrite, hcommit⟩]

/-- Where the replay does not get past its last restore, the clone keeps what the old branch
had. -/
theorem migrateViaContentReplay_restores {o : ReplayOutcomes} {c : Clone}
    (hhead : c.head = .oldBranch)
    (hearly : ∀ stdout, o.diff = some stdout → o.snapshot = true → o.discard = true →
      ¬ CleanFollowSwitches o.follow) :
    (migrateViaContentReplay codec tree o c).head = .oldBranch ∧
      (migrateViaContentReplay codec tree o c).old = c.old := by
  have hattached : ¬ c.head = .detached := by simp [hhead]
  simp only [migrateViaContentReplay, if_neg hattached]
  split
  · exact ⟨hhead, rfl⟩
  · rename_i stdout hdiff
    split
    · rename_i hdone
      have hclean := followRedirect_clean o.follow (c := { c with old := .atOrigin }) hhead rfl
      rcases hclean with ⟨hswitches, -⟩ | ⟨-, hnot, hh⟩
      · exact absurd hswitches (hearly stdout hdiff hdone.1 hdone.2)
      · split
        · rename_i d heq
          rw [heq] at hnot
          exact absurd rfl hnot
        · rename_i d heq
          rw [heq] at hh
          exact ⟨hh, rfl⟩
        · rename_i d heq
          rw [heq] at hh
          exact ⟨hh, rfl⟩
    · exact ⟨hhead, rfl⟩

/-- Past the last restore the clone is on the target branch, and what it holds is what the
additions give. -/
theorem migrateViaContentReplay_applies {o : ReplayOutcomes} {c : Clone} {stdout : Text}
    (hhead : c.head = .oldBranch) (hdiff : o.diff = some stdout) (hsnapshot : o.snapshot = true)
    (hdiscard : o.discard = true) (hswitches : CleanFollowSwitches o.follow) :
    ∃ d : Clone, d.head = .targetBranch ∧ d.old = .atOrigin ∧ d.target = .atOrigin ∧
      migrateViaContentReplay codec tree o c =
        applyAdditions codec tree o (parseDiffOutput stdout) d := by
  have hattached : ¬ c.head = .detached := by simp [hhead]
  have hclean := followRedirect_clean o.follow (c := { c with old := .atOrigin }) hhead rfl
  rcases hclean with ⟨-, hswitched, hh, ho, ht⟩ | ⟨hnot, -⟩
  · refine ⟨_, hh, ho, ht, ?_⟩
    simp only [migrateViaContentReplay, if_neg hattached, hdiff]
    rw [if_pos ⟨hsnapshot, hdiscard⟩]
    split
    · rename_i d heq
      rw [heq]
    · rename_i d heq
      rw [heq] at hswitched
      cases hswitched
    · rename_i d heq
      rw [heq] at hswitched
      cases hswitched
  · exact absurd hswitches hnot

end Replaying

section Migration
variable {Json : Type} (codec : JsonCodec Json) (tree : FileMap)

theorem nothingLost_intact {u : Unpushed} {c : Clone} (hhead : c.head ≠ .targetBranch)
    (hold : c.old = .original) : NothingLost codec tree u c :=
  fun _ _ => .intact hhead hold

/-- A cleanup that meets the commit of a handler leaves everything in place. -/
theorem nothingLost_cleanup (u : Unpushed) (o : FenceOutcomes) :
    NothingLost codec tree u (cleanupFailedFire u o unfollowed) := by
  intro a ha
  have hne : u.appended ≠ [] := List.ne_nil_of_mem ha
  have hsame : cleanupFailedFire u o unfollowed = unfollowed := by
    simp only [cleanupFailedFire, if_pos (u.handlers hne), ite_self]
  rw [hsame]
  exact .intact (by simp [unfollowed]) rfl

/-- Without a replay past its last restore nothing is lost. -/
theorem nothingLost_of_not_pastRestore (u : Unpushed) (o : FenceOutcomes)
    (hnot : ∀ stdout, ¬ PastRestore o stdout) :
    NothingLost codec tree u (epochFenceAndFollow codec tree u o).2 := by
  have hintact : NothingLost codec tree u unfollowed :=
    nothingLost_intact codec tree (by simp [unfollowed]) rfl
  simp only [epochFenceAndFollow]
  split
  · exact hintact
  · rename_i hfence
    split
    · exact hintact
    · rename_i hbranch
      split
      · exact nothingLost_cleanup codec tree u o
      · rename_i horigin
        have hcases := followRedirect_unfollowed o.follow
        split
        · rename_i c heq
          rw [heq] at hcases
          simp only [reduceCtorEq, false_and, or_false] at hcases
          exact fun _ _ => .rebased hcases.2.2.1 hcases.2.2.2
        · rename_i c heq
          rw [heq] at hcases
          simp only [reduceCtorEq, false_and, or_false, false_or] at hcases
          rw [hcases.2.2]
          exact hintact
        · rename_i c heq
          rw [heq] at hcases
          simp only [reduceCtorEq, false_and, false_or] at hcases
          rcases hcases with ⟨-, -, -, hdetached, horiginal⟩ | ⟨-, hfails, hstuck, hhead, htip⟩
          · refine nothingLost_intact codec tree ?_ ?_
            · simp [migrateViaContentReplay, hdetached]
            · simp [migrateViaContentReplay, hdetached, horiginal]
          · have hearly : ∀ stdout, o.replay.diff = some stdout → o.replay.snapshot = true →
                o.replay.discard = true → ¬ CleanFollowSwitches o.replay.follow := by
              intro stdout hdiff hsnapshot hdiscard hswitches
              refine hnot stdout ⟨?_, by simpa using hbranch, hfails, hstuck, hdiff, hsnapshot,
                hdiscard, hswitches⟩
              cases hh : o.headEpoch.fenced <;> simp_all
            obtain ⟨hh, ho⟩ := migrateViaContentReplay_restores codec tree hhead hearly
            rcases htip with htip | htip
            · exact nothingLost_intact codec tree (by simp [hh]) (ho.trans htip)
            · exact fun _ _ => .rebasedOld hh (ho.trans htip)

theorem pastRestore_applies {u : Unpushed} {o : FenceOutcomes} {stdout : Text}
    (h : PastRestore o stdout) :
    ∃ d : Clone, d.head = .targetBranch ∧ d.old = .atOrigin ∧ d.target = .atOrigin ∧
      (epochFenceAndFollow codec tree u o).2 =
        applyAdditions codec tree o.replay (parseDiffOutput stdout) d := by
  have hcases := followRedirect_unfollowed o.follow
  simp only [epochFenceAndFollow, h.branch, h.fenced.1, h.fenced.2, Bool.true_and, Bool.not_true,
    Bool.and_false, Bool.false_eq_true, if_false]
  split
  · rename_i c heq
    rw [heq] at hcases
    simp only [reduceCtorEq, false_and, or_false] at hcases
    exact absurd h.followFails hcases.2.1
  · rename_i c heq
    rw [heq] at hcases
    simp only [reduceCtorEq, false_and, or_false, false_or] at hcases
    exact absurd h.followFails hcases.2.1
  · rename_i c heq
    rw [heq] at hcases
    simp only [reduceCtorEq, false_and, false_or] at hcases
    rcases hcases with ⟨-, -, hstuck, -⟩ | ⟨-, -, -, hhead, -⟩
    · exact absurd hstuck h.notStuck
    · exact migrateViaContentReplay_applies codec tree hhead h.diff h.snapshot h.discard h.switches

theorem replayCompletes_of_nothingLost {u : Unpushed} {o : FenceOutcomes}
    (hkept : NothingLost codec tree u (epochFenceAndFollow codec tree u o).2) :
    ReplayCompletes codec tree u o := by
  intro stdout hpast hsome
  obtain ⟨a, ha⟩ := List.exists_mem_of_ne_nil _ hsome
  obtain ⟨d, hhead, -, htarget, heq⟩ := pastRestore_applies codec tree (u := u) hpast
  have hkeep := hkept a ha
  rw [heq] at hkeep
  rcases applyAdditions_cases codec tree o.replay (parseDiffOutput stdout) d with
    hsame | ⟨files, mappings, hdone, hio, hresolve, hwrite, hcommit⟩
  · rw [hsame] at hkeep
    cases hkeep with
    | intact hh => exact absurd hhead hh
    | rebasedOld hh => cases hhead.symm.trans hh
    | rebased _ ht => cases htarget.symm.trans ht
    | replayed _ ht => cases htarget.symm.trans ht
  · refine ⟨hio, fun path text htext => ?_, hcommit⟩
    obtain ⟨content, hcontent, hwritten⟩ := (resolveContentPure_ok codec hresolve path).1 text htext
    refine ⟨⟨content, hcontent⟩, ?_⟩
    obtain ⟨f, hf, hpath⟩ := List.mem_map.mp (lookup_isSome_iff.mp ⟨content, hwritten⟩)
    obtain ⟨g, hg, rfl⟩ := List.mem_map.mp hf
    exact hpath ▸ hwrite g hg

theorem nothingLost_of_replayCompletes (hcodec : codec.OneLine) {u : Unpushed} {o : FenceOutcomes}
    (hcompletes : ReplayCompletes codec tree u o) (hsurvive : AppendsSurvive codec tree u o) :
    NothingLost codec tree u (epochFenceAndFollow codec tree u o).2 := by
  by_cases hpast : ∃ stdout, PastRestore o stdout
  · obtain ⟨stdout, hpast⟩ := hpast
    obtain ⟨d, hhead, -, htarget, heq⟩ := pastRestore_applies codec tree (u := u) hpast
    rw [heq]
    intro a ha
    obtain ⟨text, hlookup, hsurvives⟩ := hsurvive stdout hpast a ha
    obtain ⟨hio, hresolve, hcommit⟩ := hcompletes stdout hpast (List.ne_nil_of_mem ha)
    have hadditions : parseDiffOutput stdout ≠ [] := by
      intro hnil
      rw [hnil] at hlookup
      cases hlookup
    obtain ⟨files, mappings, hok, hdone⟩ :=
      applyAdditions_replays codec tree d hadditions hio hresolve hcommit
    rw [hdone]
    obtain ⟨written, hwritten, hfound⟩ := (resolveContentPure_ok codec hok a.1).1 text hlookup
    obtain ⟨content, mapping, hcontent, hmerged, -⟩ := hsurvives.resolves hcodec a.1
    cases resolvesTo_unique codec hwritten ⟨mapping, hcontent⟩
    exact .replayed hhead rfl ⟨_, hfound, hmerged⟩
  · exact nothingLost_of_not_pastRestore codec tree u o (fun stdout h => hpast ⟨stdout, h⟩)

/-- A replay that gets past its last restore has to complete, and where it completes no unpushed
message is lost that survives the capture and the formatting. -/
theorem epochFenceAndFollow_keeps (hcodec : codec.OneLine) (u : Unpushed) (o : FenceOutcomes) :
    (NothingLost codec tree u (epochFenceAndFollow codec tree u o).2 → ReplayCompletes codec tree u o) ∧
      (ReplayCompletes codec tree u o → AppendsSurvive codec tree u o →
        NothingLost codec tree u (epochFenceAndFollow codec tree u o).2) :=
  ⟨replayCompletes_of_nothingLost codec tree, nothingLost_of_replayCompletes codec tree hcodec⟩

end Migration

section Samples

/-- Every step of a follow succeeds. -/
def smoothFollow : FollowOutcomes :=
  ⟨true, some true, true, true, true, true, true, true, true, true⟩

def localMessage : Text := "[L000002][P000000][@alice][20260101T000000Z] hello".toList

/-- One message is unpushed on the sealed branch. -/
def oneMessage : Unpushed where
  appended := [(generalThread, [localMessage])]
  subjects := ["msg: @alice -> general L000002".toList]
  handlers := fun _ => ⟨_, List.mem_cons_self, by decide⟩

/-- The rebase conflicts with a message of the target branch, and the replay runs. -/
def conflictedRebase (commit : Bool) : FenceOutcomes where
  headEpoch := .active
  branchForCheck := true
  originEpoch := .redirected
  currentBranch := true
  subjectsAhead := true
  dirty := some false
  resetToOrigin := true
  follow := { smoothFollow with rebase := false }
  replay :=
    { diff := some (renderDiff [appendDiff [⟨localMessage, by decide⟩]])
      snapshot := true
      discard := true
      follow := smoothFollow
      resolveIo := true
      write := fun _ => true
      commit := commit }

def targetTree : FileMap := [(generalThread, baseText ++ remoteAddition)]

def localEntry : ThreadEntry SmallJson := sampleMessage 2 0 "hello".toList

theorem localMessage_survives : Survives smallCodec ((targetTree.lookup generalThread).getD [])
    (unlines [localMessage]) localMessage := by
  refine ⟨⟨[sampleMessage 1 0 "hello".toList, sampleMessage 2 1 "first".toList]⟩, ⟨[localEntry]⟩,
    by decide +kernel, by decide +kernel, by decide +kernel, by decide, ⟨by decide, by decide⟩,
    ⟨?_, ?_, ?_⟩, by decide, by decide +kernel⟩
  · intro m hm
    cases List.mem_singleton.mp hm
    decide
  · intro e he
    cases List.mem_singleton.mp he
  · intro e he
    cases List.mem_singleton.mp he

theorem captured_localMessage : parseDiffOutput (renderDiff
    [appendDiff [⟨localMessage, by decide⟩]]) = [(generalThread, localMessage)] := by
  decide +kernel

/-- The replay puts the message behind that of the target branch. -/
theorem epochFenceAndFollow_keeps_replayed :
    NothingLost smallCodec targetTree oneMessage
      (epochFenceAndFollow smallCodec targetTree oneMessage (conflictedRebase true)).2 := by
  refine (epochFenceAndFollow_keeps smallCodec targetTree smallCodec_oneLine oneMessage _).2 ?_ ?_
  · intro stdout hpast _
    cases hpast.diff
    rw [captured_localMessage]
    refine ⟨rfl, fun path text htext => ⟨?_, rfl⟩, rfl⟩
    rw [lookup_cons_ite] at htext
    split at htext
    · rename_i hpath
      cases htext
      subst hpath
      obtain ⟨content, mappings, hresolve, -⟩ :=
        localMessage_survives.resolves smallCodec_oneLine generalThread
      exact ⟨content, mappings, hresolve⟩
    · cases htext
  · intro stdout hpast a ha
    cases hpast.diff
    cases List.mem_singleton.mp ha
    rw [captured_localMessage]
    exact ⟨localMessage, rfl, localMessage_survives⟩

/-- The commit behind the replay fails: the local commits are discarded and the message is on no
branch. -/
theorem epochFenceAndFollow_loses :
    ¬ NothingLost smallCodec targetTree oneMessage
      (epochFenceAndFollow smallCodec targetTree oneMessage (conflictedRebase false)).2 := by
  intro hkept
  have hstate : (epochFenceAndFollow smallCodec targetTree oneMessage (conflictedRebase false)).2 =
      ⟨.targetBranch, .atOrigin, .atOrigin⟩ := by decide +kernel
  rw [hstate] at hkept
  cases hkept _ List.mem_cons_self with
  | intact hh => exact hh rfl
  | rebasedOld hh => cases hh
  | rebased _ ht => cases ht
  | replayed _ ht => cases ht

end Samples

end EpochMigration
