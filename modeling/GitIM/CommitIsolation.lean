import GitIM.CommitCalls
import GitIM.ChannelMembership

/-!
# Whose changes a commit records

Calls that stage only while no other call has staged something commit their own files,
and a call that reports success finds its change in a commit of its own. The handlers
that hold no lock do not keep that order, and then a commit takes the files of another
call along.
-/

namespace CommitIsolation

open TextLines TextScan FileTree Checked Runs ThreadFormat ConflictReplay Channels GitIndex Cards
  CommitCalls

section Property

/-- The two trees differ only in files of the job. -/
def OnlyOwn (job : Job) (a b : FileMap) : Prop := ∀ p, a.lookup p ≠ b.lookup p → job.Owns p

/-- A card that was moved is gone from its old directory. -/
def Cleared (job : Job) (tree : FileMap) : Prop :=
  ∀ m ∈ job.move, ∀ rest, tree.lookup (inDir (cardDir m.1 m.2) rest) = none

/-- The commit makes the change of its job. -/
def Carries (k : Commit) : Prop :=
  k.job.WritesIn k.after ∧ Cleared k.job k.after ∧
    ∃ p, k.job.Owns p ∧ k.before.lookup p ≠ k.after.lookup p

def Recorded (w : World) (c : Nat) (job : Job) : Prop :=
  ∃ k ∈ w.commits, k.call = c ∧ k.job = job ∧ Carries k

/-- Every commit changes only files of the call that made it, and the change of every call that
reported success is in a commit of that call. -/
structure Isolated (w : World) : Prop where
  own : ∀ k ∈ w.commits, OnlyOwn k.job k.before k.after
  recorded : ∀ c outcome job, w.calls[c]? = some (.answered outcome) →
    outcome.success? = some job → Recorded w c job

end Property

section Guard

/-- The index may hold changes of the call that it has not committed or taken back. -/
def staged : Phase → Bool
  | .adding job => job.move.isSome
  | .committing _ => true
  | .movingBack _ _ => true
  | .resetting _ _ => true
  | _ => false

/-- No other call has something staged. -/
def Alone (w : World) (c : Nat) : Prop :=
  ∀ d < w.calls.length, d ≠ c → ∀ phase ∈ w.calls[d]?, staged phase = false

instance decidableAlone (w : World) (c : Nat) : Decidable (Alone w c) :=
  inferInstanceAs (Decidable (∀ d < w.calls.length, d ≠ c → ∀ phase ∈ w.calls[d]?, _))

/-- A call stages its first change while nothing is staged, its writes are still there when it
stages them, and git does not fail on a message. -/
def Undisturbed (w : World) (c : Nat) (env : Env) : Phase → Prop
  | .moving _ _ => Alone w c ∧ Agree w.repo.index w.repo.head
  | .adding job => job.WritesIn w.repo.worktree ∧
      (job.move = none → Alone w c ∧ Agree w.repo.index w.repo.head) ∧
      (job.message = true → env.done = true ∧
        ∃ p ∈ job.adds, w.repo.worktree.lookup p ≠ w.repo.head.lookup p)
  | .committing job => job.message = true → env.done = true
  | _ => True

instance decidableUndisturbed (w : World) (c : Nat) (env : Env) :
    DecidablePred (Undisturbed w c env)
  | .moving _ _ => inferInstanceAs (Decidable (_ ∧ _))
  | .adding _ => inferInstanceAs (Decidable (_ ∧ _ ∧ _))
  | .committing _ => inferInstanceAs (Decidable (_ → _))
  | .checking _ | .locking _ | .reading _ _ | .writing _ _ _ | .movingBack _ _
  | .resetting _ _ | .checkingOut _ _ | .pushing _ | .answered _ => isTrue trivial

def Guard (w : World) : Action → Prop
  | .start _ => True
  | .next c env => ∀ phase ∈ w.calls[c]?, Undisturbed w c env phase

instance decidableGuard (w : World) : DecidablePred (Guard w)
  | .start _ => isTrue trivial
  | .next c env => inferInstanceAs (Decidable (∀ phase ∈ w.calls[c]?, Undisturbed w c env phase))

theorem Alone.staged_eq_false {w : World} {c d : Nat} {phase : Phase} (h : Alone w c) (hne : d ≠ c)
    (hd : w.calls[d]? = some phase) : staged phase = false :=
  h d (List.getElem?_eq_some_iff.mp hd).1 hne phase hd

end Guard

section Invariant

/-- The job of a card that is moved writes below the card's directory; a message moves nothing. -/
structure Proper (job : Job) : Prop where
  below : ∀ m ∈ job.move, ∀ write ∈ job.writes, Under (cardDir m.1 m.2) write.path
  message : job.message = true → job.move = none

def PhaseOk (w : World) (c : Nat) : Phase → Prop
  | .reading task dir => ∀ author channel cardId, task = .archive author channel cardId →
      dir = cardDir channel cardId
  | .writing job _ _ => Proper job
  | .moving job card => Proper job ∧ job.move = some card
  | .adding job => Proper job ∧ (job.move.isSome = true →
      OnlyOwn job w.repo.index w.repo.head ∧ Cleared job w.repo.index)
  | .committing job => OnlyOwn job w.repo.index w.repo.head ∧ job.WritesIn w.repo.index ∧
      Cleared job w.repo.index ∧ (job.message = true → ¬ Agree w.repo.index w.repo.head)
  | .pushing job => Recorded w c job
  | .answered outcome => ∀ job, outcome.success? = some job → Recorded w c job
  | _ => True

structure Inv (w : World) : Prop where
  own : ∀ k ∈ w.commits, OnlyOwn k.job k.before k.after
  alone : ∀ c phase, w.calls[c]? = some phase → staged phase = true → Alone w c
  phases : ∀ c phase, w.calls[c]? = some phase → PhaseOk w c phase

theorem Inv.isolated {w : World} (h : Inv w) : Isolated w where
  own := h.own
  recorded := fun c outcome job hc hjob => h.phases c (.answered outcome) hc job hjob

theorem Recorded.mono {w w' : World} {c : Nat} {job : Job}
    (hcommits : ∀ k ∈ w.commits, k ∈ w'.commits) (h : Recorded w c job) : Recorded w' c job := by
  obtain ⟨k, hk, hcall⟩ := h
  exact ⟨k, hcommits k hk, hcall⟩

/-- What is known of a call stays true while the index and the head stay, or if nothing of it is
staged. -/
theorem PhaseOk.frame {w w' : World} {c : Nat} {phase : Phase}
    (hcommits : ∀ k ∈ w.commits, k ∈ w'.commits)
    (hindex : (w'.repo.index = w.repo.index ∧ w'.repo.head = w.repo.head) ∨ staged phase = false)
    (h : PhaseOk w c phase) : PhaseOk w' c phase := by
  cases phase with
  | adding job =>
    refine ⟨h.1, fun hmove => ?_⟩
    rcases hindex with ⟨hi, hh⟩ | hstaged
    · rw [hi, hh]
      exact h.2 hmove
    · rw [staged, hmove] at hstaged
      cases hstaged
  | committing job =>
    rcases hindex with ⟨hi, hh⟩ | hstaged
    · rw [PhaseOk, hi, hh]
      exact h
    · cases hstaged
  | pushing job => exact Recorded.mono hcommits h
  | answered outcome => exact fun job hjob => Recorded.mono hcommits (h job hjob)
  | checking req => trivial
  | locking m => trivial
  | reading task dir => exact h
  | writing job write rest => exact h
  | moving job card => exact h
  | movingBack card message => trivial
  | resetting card message => trivial
  | checkingOut card message => trivial

/-- One call takes a step: the others keep what they have staged. -/
theorem Inv.step {w w' : World} (h : Inv w) {c : Nat} {phase phase' : Phase}
    (hc : w.calls[c]? = some phase) (hcalls : w'.calls = w.calls.set c phase')
    (hcommits : ∀ k ∈ w.commits, k ∈ w'.commits)
    (hown : ∀ k ∈ w'.commits, k ∉ w.commits → OnlyOwn k.job k.before k.after)
    (hothers : (w'.repo.index = w.repo.index ∧ w'.repo.head = w.repo.head) ∨ Alone w c)
    (hstaged : staged phase' = true → Alone w c) (hok : PhaseOk w' c phase') : Inv w' := by
  have hlt : c < w.calls.length := (List.getElem?_eq_some_iff.mp hc).1
  have hother : ∀ d ≠ c, w'.calls[d]? = w.calls[d]? := by
    intro d hd
    rw [hcalls, List.getElem?_set_ne hd.symm]
  have hself : w'.calls[c]? = some phase' := by
    rw [hcalls, List.getElem?_set_self hlt]
  have halone : ∀ d, Alone w d → (d = c ∨ staged phase' = false) → Alone w' d := by
    intro d hd hnew e he hne ph hph
    by_cases hec : e = c
    · subst hec
      rw [hself] at hph
      cases hph
      exact hnew.resolve_left (fun heq => hne heq.symm)
    · rw [hother e hec] at hph
      exact hd.staged_eq_false hne hph
  constructor
  · intro k hk
    by_cases hold : k ∈ w.commits
    · exact h.own k hold
    · exact hown k hk hold
  · intro d ph hd hph
    by_cases hdc : d = c
    · subst hdc
      rw [hself] at hd
      cases hd
      exact halone d (hstaged hph) (Or.inl rfl)
    · rw [hother d hdc] at hd
      refine halone d (h.alone d ph hd hph) (Or.inr ?_)
      by_contra hnew
      have hfalse := (hstaged (Bool.eq_true_of_not_eq_false hnew)).staged_eq_false hdc hd
      rw [hph] at hfalse
      cases hfalse
  · intro d ph hd
    by_cases hdc : d = c
    · subst hdc
      rw [hself] at hd
      cases hd
      exact hok
    · rw [hother d hdc] at hd
      refine (h.phases d ph hd).frame hcommits ?_
      rcases hothers with hsame | hal
      · exact Or.inl hsame
      · exact Or.inr (hal.staged_eq_false hdc hd)

/-- A step that leaves index, head and commits alone. -/
theorem Inv.quiet {w w' : World} (h : Inv w) {c : Nat} {phase phase' : Phase}
    (hc : w.calls[c]? = some phase) (hcalls : w'.calls = w.calls.set c phase')
    (hcommits : w'.commits = w.commits) (hindex : w'.repo.index = w.repo.index)
    (hhead : w'.repo.head = w.repo.head) (hstaged : staged phase' = true → Alone w c)
    (hok : PhaseOk w' c phase') : Inv w' :=
  h.step hc hcalls (fun _ hk => hcommits ▸ hk) (fun _ hk hnot => absurd (hcommits ▸ hk) hnot)
    (Or.inl ⟨hindex, hhead⟩) hstaged hok

end Invariant

section Steps
variable {Json : Type} {json : EventJson Json} {yaml : MetaCodec} {cards : CardCodec}
  {users : List Text}

theorem staged_afterWrites (job : Job) : staged (afterWrites job) = false := by
  rw [afterWrites]
  split
  · rename_i hmove
    rw [staged, hmove]
    rfl
  · rfl

theorem staged_writesLeft (job : Job) (rest : List FileWrite) :
    staged (writesLeft job rest) = false := by
  cases rest with
  | nil => exact staged_afterWrites job
  | cons write rest => rfl

theorem phaseOk_afterWrites {w : World} {c : Nat} {job : Job} (h : Proper job) :
    PhaseOk w c (afterWrites job) := by
  rw [afterWrites]
  split
  · rename_i hmove
    refine ⟨h, fun hsome => ?_⟩
    rw [hmove] at hsome
    cases hsome
  · rename_i card hmove
    exact ⟨h, hmove⟩

theorem phaseOk_writesLeft {w : World} {c : Nat} {job : Job} (h : Proper job)
    (rest : List FileWrite) : PhaseOk w c (writesLeft job rest) := by
  cases rest with
  | nil => exact phaseOk_afterWrites h
  | cons write rest => exact h

/-- A call that goes on to its writes has nothing staged. -/
theorem Inv.writes {w w' : World} (h : Inv w) {c : Nat} {phase : Phase} {job : Job}
    {rest : List FileWrite} (hc : w.calls[c]? = some phase)
    (hcalls : w'.calls = w.calls.set c (writesLeft job rest)) (hcommits : w'.commits = w.commits)
    (hindex : w'.repo.index = w.repo.index) (hhead : w'.repo.head = w.repo.head)
    (hproper : Proper job) : Inv w' := by
  refine h.quiet hc hcalls hcommits hindex hhead (fun hstaged => ?_)
    (phaseOk_writesLeft hproper rest)
  rw [staged_writesLeft] at hstaged
  cases hstaged

/-- A call that ends in an error has nothing to show. -/
theorem Inv.failed {w w' : World} (h : Inv w) {c : Nat} {phase : Phase} {message : Text}
    (hc : w.calls[c]? = some phase)
    (hcalls : w'.calls = w.calls.set c (.answered (.error message)))
    (hcommits : w'.commits = w.commits) (hindex : w'.repo.index = w.repo.index)
    (hhead : w'.repo.head = w.repo.head) : Inv w' :=
  h.quiet hc hcalls hcommits hindex hhead (fun hstaged => by cases hstaged)
    (fun _ hjob => by cases hjob)

theorem proper_of_not_moved {op : Text} {writes : List FileWrite} {message : Bool} :
    Proper ⟨op, writes, none, message⟩ :=
  ⟨fun m hm => absurd hm (by simp), fun _ => rfl⟩

theorem findForArchive_eq_ok {tree : FileMap} {author channel cardId : Text} {dir : Path}
    (h : findForArchive users tree author channel cardId = .ok dir) :
    dir = cardDir channel cardId := by
  rw [findForArchive] at h
  obtain ⟨_, _, h⟩ := bind_eq_ok_iff.mp h
  obtain ⟨_, _, h⟩ := bind_eq_ok_iff.mp h
  obtain ⟨_, _, h⟩ := bind_eq_ok_iff.mp h
  split at h
  · cases h
  · rename_i located hlocated
    obtain ⟨_, hrefuse, h⟩ := bind_eq_ok_iff.mp h
    cases h
    exact relPath_of_active hlocated (refuse_eq_ok_iff.mp hrefuse)

theorem phaseOk_check {w : World} {c : Nat} {tree : FileMap} {env : Env} {req : Request}
    {phase : Phase} (h : check json yaml cards users tree env req = .ok phase) :
    PhaseOk w c phase ∧ staged phase = false := by
  cases req with
  | send author channel body replyTo =>
    rw [check] at h
    obtain ⟨_, _, h⟩ := bind_eq_ok_iff.mp h
    obtain ⟨_, _, h⟩ := bind_eq_ok_iff.mp h
    obtain ⟨_, _, h⟩ := bind_eq_ok_iff.mp h
    cases h
    exact ⟨trivial, rfl⟩
  | sendCardMessage author channel cardId body replyTo =>
    rw [check] at h
    obtain ⟨_, _, h⟩ := bind_eq_ok_iff.mp h
    obtain ⟨_, _, h⟩ := bind_eq_ok_iff.mp h
    obtain ⟨_, _, h⟩ := bind_eq_ok_iff.mp h
    obtain ⟨_, _, h⟩ := bind_eq_ok_iff.mp h
    split at h
    · cases h
    · obtain ⟨_, _, h⟩ := bind_eq_ok_iff.mp h
      cases h
      exact ⟨trivial, rfl⟩
  | createCard author channel title labels assignee status =>
    rw [check] at h
    obtain ⟨job, hjob, h⟩ := bind_eq_ok_iff.mp h
    cases h
    refine ⟨phaseOk_writesLeft ?_ job.writes, staged_writesLeft job job.writes⟩
    rw [prepareCard] at hjob
    obtain ⟨_, _, hjob⟩ := bind_eq_ok_iff.mp hjob
    obtain ⟨_, _, hjob⟩ := bind_eq_ok_iff.mp hjob
    obtain ⟨_, _, hjob⟩ := bind_eq_ok_iff.mp hjob
    obtain ⟨_, _, hjob⟩ := bind_eq_ok_iff.mp hjob
    obtain ⟨_, _, hjob⟩ := bind_eq_ok_iff.mp hjob
    obtain ⟨_, _, hjob⟩ := bind_eq_ok_iff.mp hjob
    obtain ⟨_, _, hjob⟩ := bind_eq_ok_iff.mp hjob
    cases hjob
    exact proper_of_not_moved
  | updateCard req =>
    rw [check] at h
    obtain ⟨_, _, h⟩ := bind_eq_ok_iff.mp h
    cases h
    exact ⟨fun _ _ _ htask => (by cases htask), rfl⟩
  | archiveCard author channel cardId =>
    rw [check] at h
    obtain ⟨dir, hdir, h⟩ := bind_eq_ok_iff.mp h
    cases h
    refine ⟨fun a ch id htask => ?_, rfl⟩
    cases htask
    exact findForArchive_eq_ok hdir
  | createChannel author name displayName introduction invitees =>
    rw [check] at h
    obtain ⟨job, hjob, h⟩ := bind_eq_ok_iff.mp h
    cases h
    refine ⟨phaseOk_writesLeft ?_ job.writes, staged_writesLeft job job.writes⟩
    rw [prepareChannel] at hjob
    obtain ⟨_, _, hjob⟩ := bind_eq_ok_iff.mp hjob
    obtain ⟨_, _, hjob⟩ := bind_eq_ok_iff.mp hjob
    obtain ⟨_, _, hjob⟩ := bind_eq_ok_iff.mp hjob
    obtain ⟨_, _, hjob⟩ := bind_eq_ok_iff.mp hjob
    obtain ⟨_, _, hjob⟩ := bind_eq_ok_iff.mp hjob
    obtain ⟨_, _, hjob⟩ := bind_eq_ok_iff.mp hjob
    obtain ⟨_, _, hjob⟩ := bind_eq_ok_iff.mp hjob
    cases hjob
    exact proper_of_not_moved

theorem proper_prepareTask {tree : FileMap} {env : Env} {task : CardTask} {dir : Path} {job : Job}
    (hdir : ∀ author channel cardId, task = .archive author channel cardId →
      dir = cardDir channel cardId)
    (h : prepareTask cards users tree env task dir = .ok job) : Proper job := by
  cases task with
  | update req =>
    rw [prepareTask] at h
    obtain ⟨_, _, h⟩ := bind_eq_ok_iff.mp h
    obtain ⟨_, _, h⟩ := bind_eq_ok_iff.mp h
    cases h
    exact proper_of_not_moved
  | archive author channel cardId =>
    have hd : dir = cardDir channel cardId := hdir author channel cardId rfl
    rw [prepareTask] at h
    obtain ⟨_, _, h⟩ := bind_eq_ok_iff.mp h
    obtain ⟨_, _, h⟩ := bind_eq_ok_iff.mp h
    cases h
    refine ⟨?_, fun hmessage => by cases hmessage⟩
    intro m hm write hwrite
    cases hm
    cases List.mem_singleton.mp hwrite
    exact hd ▸ under_inDir dir _

theorem place_of_not_moved {job : Job} (h : job.move = none) (p : Path) : job.place p = p := by
  rw [Job.place, h]

theorem place_mem_adds {job : Job} {write : FileWrite} (h : write ∈ job.writes) :
    job.place write.path ∈ job.adds :=
  List.mem_append_left _ (List.mem_map_of_mem h)

theorem adds_of_not_moved {job : Job} (h : job.move = none) :
    job.adds = job.writes.map FileWrite.path := by
  rw [Job.adds, h, List.append_nil]
  exact List.map_congr_left fun write _ => place_of_not_moved h write.path

/-- Everything that a moved card stages lies in the archive. -/
theorem under_archived_of_mem_adds {job : Job} (hproper : Proper job) {m : Text × Text}
    (hm : job.move = some m) {p : Path} (hp : p ∈ job.adds) :
    Under (archivedCardDir m.1 m.2) p := by
  rw [Job.adds, hm, List.mem_append] at hp
  rcases hp with hp | hp
  · obtain ⟨write, hwrite, rfl⟩ := List.mem_map.mp hp
    obtain ⟨rest, hrest⟩ := (hproper.below m hm write hwrite).exists_rest
    have hplace : job.place write.path = inDir (archivedCardDir m.1 m.2) rest := by
      rw [Job.place, hm, hrest]
      exact relocate_inDir _ _ rest
    exact hplace ▸ under_inDir _ rest
  · cases List.mem_singleton.mp hp
    exact under_inDir _ _

theorem owns_of_mem_adds {job : Job} (hproper : Proper job) {p : Path} (hp : p ∈ job.adds) :
    job.Owns p := by
  cases hm : job.move with
  | none => exact Or.inl (adds_of_not_moved hm ▸ hp)
  | some m => exact Or.inr ⟨m, hm, Or.inr (under_archived_of_mem_adds hproper hm hp)⟩

theorem writesIn_copyEntries {job : Job} {source tree : FileMap} (h : job.WritesIn source) :
    job.WritesIn (copyEntries source job.adds tree) := by
  intro write hwrite
  have hlookup : (copyEntries source job.adds tree).lookup (job.place write.path) =
      source.lookup (job.place write.path) := by
    rw [lookup_copyEntries, if_pos (place_mem_adds hwrite)]
  have hin := h write hwrite
  cases write with
  | replace path content what => exact hlookup.trans hin
  | append path text =>
    obtain ⟨content, hcontent, hsuffix⟩ := hin
    exact ⟨content, hlookup.trans hcontent, hsuffix⟩

/-- What a job wrote can be staged. -/
theorem add_succeeds {job : Job} {repo : Repo} (hmove : job.move = none)
    (h : job.WritesIn repo.worktree) :
    add repo job.adds = some { repo with index := copyEntries repo.worktree job.adds repo.index } := by
  rw [add, if_pos]
  intro p hp
  rw [adds_of_not_moved hmove] at hp
  obtain ⟨write, hwrite, rfl⟩ := List.mem_map.mp hp
  have hin := h write hwrite
  left
  cases write with
  | replace path content what =>
    rw [Job.WriteIn, place_of_not_moved hmove] at hin
    rw [FileWrite.path, hin]
    rfl
  | append path text =>
    rw [Job.WriteIn, place_of_not_moved hmove] at hin
    obtain ⟨content, hcontent, _⟩ := hin
    rw [FileWrite.path, hcontent]
    rfl

/-- Staging the files of a job changes only files of the job. -/
theorem onlyOwn_copyEntries {job : Job} (hproper : Proper job) {source index head : FileMap}
    (h : OnlyOwn job index head) : OnlyOwn job (copyEntries source job.adds index) head := by
  intro p hp
  by_cases hadds : p ∈ job.adds
  · exact owns_of_mem_adds hproper hadds
  · rw [lookup_copyEntries, if_neg hadds] at hp
    exact h p hp

theorem cleared_copyEntries {job : Job} (hproper : Proper job) {source index : FileMap}
    (h : Cleared job index) : Cleared job (copyEntries source job.adds index) := by
  intro m hm rest
  have hnot : inDir (cardDir m.1 m.2) rest ∉ job.adds := fun hadds =>
    not_under_both (under_inDir (cardDir m.1 m.2) rest)
      (under_archived_of_mem_adds hproper hm hadds)
  rw [lookup_copyEntries, if_neg hnot]
  exact h m hm rest

theorem onlyOwn_of_agree {job : Job} {a b : FileMap} (h : Agree a b) : OnlyOwn job a b :=
  fun p hp => absurd (h p) hp

theorem under_of_under_mvTarget {worktree : FileMap} {source target p : Path}
    (h : Under (mvTarget worktree source target) p) : Under target p := by
  rw [mvTarget] at h
  split at h
  · obtain ⟨rest, hrest⟩ := h.exists_rest
    rw [hrest, inDir, inDir, List.append_assoc, List.append_assoc]
    exact List.prefix_append _ _
  · exact h

/-- The move of a card changes only its two directories and clears the first. -/
theorem moved_index {job : Job} {card : Text × Text} (hm : job.move = some card) {repo repo' : Repo}
    (hagree : Agree repo.index repo.head)
    (hmv : mvDir repo (cardDir card.1 card.2) (archivedCardDir card.1 card.2) = some repo') :
    repo'.head = repo.head ∧ OnlyOwn job repo'.index repo'.head ∧ Cleared job repo'.index := by
  obtain ⟨_, _, _, rfl⟩ := mvDir_eq_some hmv
  refine ⟨rfl, ?_, ?_⟩
  · intro p hp
    by_cases hsource : Under (cardDir card.1 card.2) p
    · exact Or.inr ⟨card, hm, Or.inl hsource⟩
    · by_cases htarget : Under (mvTarget repo.worktree (cardDir card.1 card.2)
          (archivedCardDir card.1 card.2)) p
      · exact Or.inr ⟨card, hm, Or.inr (under_of_under_mvTarget htarget)⟩
      · exact absurd ((lookup_moveDir_other hsource htarget).trans (hagree p)) hp
  · intro m hm' rest
    cases hm.symm.trans hm'
    exact lookup_moveDir_source
      (fun p hp htarget => not_under_both hp (under_of_under_mvTarget htarget)) rest

/-- A failed commit of a call that is not a message ends in an error or in the move back. -/
theorem inv_commitFailed {w : World} (h : Inv w) {c : Nat} {phase : Phase} {job : Job}
    (hc : w.calls[c]? = some phase) (hmessage : ¬ job.message = true)
    (halone : job.move.isSome = true → Alone w c) : Inv (commitFailed w c job) := by
  rw [commitFailed, if_neg hmessage]
  split
  · rename_i card hmove
    exact h.quiet hc rfl rfl rfl rfl (fun _ => halone (hmove ▸ rfl)) trivial
  · exact h.failed hc rfl rfl rfl rfl

theorem inv_adding {w w' : World} (h : Inv w) {c : Nat} {env : Env} {job : Job}
    (hc : w.calls[c]? = some (.adding job)) (hclear : Undisturbed w c env (.adding job))
    (hstep : advance json yaml cards users w c env (.adding job) = some w') : Inv w' := by
  obtain ⟨hproper, hmoved⟩ := h.phases c _ hc
  obtain ⟨hwrites, hfirst, hmessage⟩ := hclear
  have halone : Alone w c := by
    cases hm : job.move with
    | none => exact (hfirst hm).1
    | some m => exact h.alone c _ hc (by rw [staged, hm]; rfl)
  have hindex : OnlyOwn job w.repo.index w.repo.head ∧ Cleared job w.repo.index := by
    cases hm : job.move with
    | none => exact ⟨onlyOwn_of_agree (hfirst hm).2, fun m hm' => by rw [hm] at hm'; cases hm'⟩
    | some m => exact hmoved (by rw [hm]; rfl)
  rw [advance] at hstep
  split at hstep
  · rename_i repo hadd
    cases hstep
    have hrepo := add_eq_some (fromOption_eq_some hadd)
    refine h.step hc rfl (fun _ hk => hk) (fun k hk hnot => absurd hk hnot) (Or.inr halone)
      (fun _ => halone) ?_
    rw [PhaseOk]
    change OnlyOwn job repo.index repo.head ∧ job.WritesIn repo.index ∧ Cleared job repo.index ∧
      (job.message = true → ¬ Agree repo.index repo.head)
    rw [hrepo]
    refine ⟨onlyOwn_copyEntries hproper hindex.1, writesIn_copyEntries hwrites,
      cleared_copyEntries hproper hindex.2, fun hmsg hagree => ?_⟩
    obtain ⟨_, p, hp, hdiffers⟩ := hmessage hmsg
    have hp' := hagree p
    rw [lookup_copyEntries, if_pos hp] at hp'
    exact hdiffers hp'
  · rename_i hadd
    cases hstep
    by_cases hmsg : job.message = true
    · have hnone := fromOption_eq_none (hmessage hmsg).1 hadd
      rw [add_succeeds (hproper.message hmsg) hwrites] at hnone
      cases hnone
    · exact inv_commitFailed h hc hmsg fun _ => halone

theorem inv_committing {w w' : World} (h : Inv w) {c : Nat} {env : Env} {job : Job}
    (hc : w.calls[c]? = some (.committing job)) (hclear : Undisturbed w c env (.committing job))
    (hstep : advance json yaml cards users w c env (.committing job) = some w') : Inv w' := by
  obtain ⟨hown, hwrites, hcleared, hchange⟩ := h.phases c _ hc
  have halone : Alone w c := h.alone c _ hc rfl
  rw [advance] at hstep
  split at hstep
  · rename_i repo hcommit
    obtain ⟨hdiffers, hrepo⟩ := commit_eq_some_iff.mp (fromOption_eq_some hcommit)
    have hk : OnlyOwn job w.repo.head repo.head := by
      rw [hrepo]
      exact fun p hp => hown p fun heq => hp heq.symm
    have hcarries : Carries ⟨c, job, w.repo.head, repo.head⟩ := by
      obtain ⟨p, hp⟩ := not_forall.mp hdiffers
      rw [hrepo]
      exact ⟨hwrites, hcleared, p, hown p hp, fun heq => hp heq.symm⟩
    split at hstep
    · cases hstep
      refine h.step hc rfl (fun k hk => List.mem_cons_of_mem _ hk) ?_ (Or.inr halone)
        (fun _ => halone) ?_
      · intro k hmem hnot
        cases (List.mem_cons.mp hmem).resolve_right hnot
        exact hk
      · intro job' hjob
        cases hjob
        exact ⟨_, List.mem_cons_self, rfl, rfl, hcarries⟩
    · cases hstep
      refine h.step hc rfl (fun k hk => List.mem_cons_of_mem _ hk) ?_ (Or.inr halone)
        (fun _ => halone) ?_
      · intro k hmem hnot
        cases (List.mem_cons.mp hmem).resolve_right hnot
        exact hk
      · exact ⟨_, List.mem_cons_self, rfl, rfl, hcarries⟩
  · rename_i hcommit
    cases hstep
    by_cases hmsg : job.message = true
    · have hnone := fromOption_eq_none (hclear hmsg) hcommit
      rw [commit, if_neg (hchange hmsg)] at hnone
      cases hnone
    · exact inv_commitFailed h hc hmsg fun _ => halone

theorem inv_moving {w w' : World} (h : Inv w) {c : Nat} {env : Env} {job : Job}
    {card : Text × Text} (hc : w.calls[c]? = some (.moving job card))
    (hclear : Undisturbed w c env (.moving job card))
    (hstep : advance json yaml cards users w c env (.moving job card) = some w') : Inv w' := by
  obtain ⟨hproper, hm⟩ := h.phases c _ hc
  obtain ⟨halone, hagree⟩ := hclear
  rw [advance] at hstep
  split at hstep
  · split at hstep
    · rename_i repo hmv
      cases hstep
      obtain ⟨_, hown, hcleared⟩ := moved_index hm hagree (fromOption_eq_some hmv)
      exact h.step hc rfl (fun _ hk => hk) (fun k hk hnot => absurd hk hnot) (Or.inr halone)
        (fun _ => halone) ⟨hproper, fun _ => ⟨hown, hcleared⟩⟩
    · cases hstep
      exact h.quiet hc rfl rfl rfl rfl (fun _ => halone) trivial
  · cases hstep
    exact h.quiet hc rfl rfl rfl rfl (fun _ => halone) trivial

/-- Moving a card back and resetting its metadata are steps of a call that has staged something. -/
theorem inv_rollback {w w' : World} (h : Inv w) {c : Nat} {phase phase' : Phase}
    (hc : w.calls[c]? = some phase) (hstaged : staged phase = true)
    (hcalls : w'.calls = w.calls.set c phase') (hcommits : w'.commits = w.commits)
    (hok : PhaseOk w' c phase') : Inv w' := by
  have halone : Alone w c := h.alone c phase hc hstaged
  exact h.step hc hcalls (fun _ hk => hcommits ▸ hk)
    (fun _ hk hnot => absurd (hcommits ▸ hk) hnot) (Or.inr halone) (fun _ => halone) hok

theorem inv_advance {w w' : World} (h : Inv w) {c : Nat} {env : Env} {phase : Phase}
    (hc : w.calls[c]? = some phase) (hclear : Undisturbed w c env phase)
    (hstep : advance json yaml cards users w c env phase = some w') : Inv w' := by
  cases phase with
  | checking req =>
    rw [advance] at hstep
    split at hstep
    · cases hstep
      exact h.failed hc rfl rfl rfl rfl
    · rename_i phase hphase
      cases hstep
      obtain ⟨hok, hstaged⟩ := phaseOk_check (w := w.goto c phase) (c := c) hphase
      exact h.quiet hc rfl rfl rfl rfl (fun htrue => by rw [hstaged] at htrue; cases htrue) hok
  | locking m =>
    rw [advance] at hstep
    split at hstep
    · split at hstep
      · cases hstep
        exact h.failed hc rfl rfl rfl rfl
      · cases hstep
        exact h.writes hc rfl rfl rfl rfl proper_of_not_moved
    · cases hstep
  | reading task dir =>
    rw [advance] at hstep
    split at hstep
    · cases hstep
      exact h.failed hc rfl rfl rfl rfl
    · rename_i job hjob
      cases hstep
      exact h.writes hc rfl rfl rfl rfl (proper_prepareTask (h.phases c _ hc) hjob)
  | writing job write rest =>
    have hproper : Proper job := h.phases c _ hc
    rw [advance] at hstep
    split at hstep
    · cases hstep
      exact h.writes hc rfl rfl rfl rfl hproper
    · cases hstep
      exact h.failed hc rfl rfl rfl rfl
  | moving job card => exact inv_moving h hc hclear hstep
  | adding job => exact inv_adding h hc hclear hstep
  | committing job => exact inv_committing h hc hclear hstep
  | movingBack card message =>
    rw [advance] at hstep
    split at hstep
    · cases hstep
      exact inv_rollback h hc rfl rfl rfl trivial
    · cases hstep
      exact inv_rollback h hc rfl rfl rfl trivial
  | resetting card message =>
    cases hstep
    exact inv_rollback h hc rfl rfl rfl trivial
  | checkingOut card message =>
    rw [advance] at hstep
    split at hstep
    · rename_i repo hcheckout
      cases hstep
      obtain ⟨content, _, rfl⟩ := checkoutPath_eq_some (fromOption_eq_some hcheckout)
      exact h.failed hc rfl rfl rfl rfl
    · cases hstep
      exact h.failed hc rfl rfl rfl rfl
  | pushing job =>
    have hrecorded : Recorded w c job := h.phases c _ hc
    rw [advance] at hstep
    split at hstep
    · cases hstep
      refine h.quiet hc rfl rfl rfl rfl (fun hstaged => by cases hstaged) ?_
      intro job' hjob
      cases hjob
      exact Recorded.mono (fun _ hk => hk) hrecorded
    · cases hstep
      exact h.failed hc rfl rfl rfl rfl
  | answered outcome => cases hstep

/-- A call that arrives has nothing staged. -/
theorem inv_start {w : World} (h : Inv w) (req : Request) :
    Inv { w with calls := w.calls ++ [.checking req] } := by
  have hold : ∀ (d : Nat) (phase : Phase), (w.calls ++ [Phase.checking req])[d]? = some phase →
      w.calls[d]? = some phase ∨ phase = Phase.checking req := by
    intro d phase hd
    rcases Nat.lt_or_ge d w.calls.length with hlt | hge
    · left
      rwa [List.getElem?_append_left hlt] at hd
    · right
      rw [List.getElem?_append_right hge] at hd
      exact List.mem_singleton.mp (List.mem_of_getElem? hd)
  constructor
  · exact h.own
  · intro c phase hc hstaged d hd hne phase' hphase'
    rcases hold c phase hc with hc | rfl
    · rcases hold d phase' hphase' with hd' | rfl
      · exact (h.alone c phase hc hstaged).staged_eq_false hne hd'
      · rfl
    · cases hstaged
  · intro c phase hc
    rcases hold c phase hc with hc | rfl
    · exact (h.phases c phase hc).frame (fun _ hk => hk) (Or.inl ⟨rfl, rfl⟩)
    · trivial

theorem inv_step {w w' : World} (h : Inv w) {a : Action} (hguard : Guard w a)
    (hstep : step json yaml cards users w a = some w') : Inv w' := by
  cases a with
  | start req =>
    cases hstep
    exact inv_start h req
  | next c env =>
    obtain ⟨phase, hc, hadvance⟩ := Option.bind_eq_some_iff.mp hstep
    exact inv_advance h hc (hguard phase hc) hadvance

theorem inv_initial (repo : Repo) : Inv (initial repo) where
  own := fun _ hk => absurd hk List.not_mem_nil
  alone := fun _ _ hc => by cases hc
  phases := fun _ _ hc => by cases hc

end Steps

section Result
variable {Json : Type}

/-- For every interleaving in which each call stages its first change while no other call has
anything staged, finds its own writes when it stages them, and gets its messages through git,
every commit changes only files of its own call, and every call that reports success has its
change in a commit of its own. -/
theorem commits_isolated (json : EventJson Json) (yaml : MetaCodec) (cards : CardCodec)
    (users : List Text) (repo : Repo) (actions : List Action) (w : World)
    (hrun : run (step json yaml cards users) (initial repo) actions = some w)
    (hguard : Along (step json yaml cards users) Guard (initial repo) actions) : Isolated w :=
  (run_invariant (fun _ _ _ h hg hs => inv_step h hg hs) hrun hguard (inv_initial repo)).isolated

end Result

section Samples
open ThreadMerge (newYear)
open DmThreads (sampleUsers)
open ChannelMembership (objectJson tableYaml generalChannel)

def sampleCard (title : Text) : CardMeta :=
  ⟨title, "general".toList, .todo, [], none, "alice".toList, newYear, newYear, none⟩

def sampleCards : CardCodec :=
  tableCards [sampleCard "one".toList, sampleCard "two".toList, sampleCard "three".toList,
    { sampleCard "one".toList with archivedVia := some .manual }]

def sampleRepo : Repo := ⟨generalChannel, generalChannel, generalChannel⟩

/-- Every command succeeds, and a new card gets the given name. -/
def sampleEnv (cardId : Text) : Env := ⟨newYear, cardId, .complete, true, true⟩

def newCard (title : Text) : Action :=
  .start (.createCard "alice".toList "general".toList title none none none)

def idOne : Text := "20260101-000000-001".toList

def idTwo : Text := "20260101-000000-002".toList

def idThree : Text := "20260101-000000-003".toList

/-- The steps of call `c` for a card of the given name. -/
def steps (c n : Nat) (cardId : Text) : List Action := List.replicate n (.next c (sampleEnv cardId))

abbrev sampleStep : World → Action → Option World :=
  step objectJson tableYaml sampleCards sampleUsers

/-- A card is created, a message is sent while the card is still being written, and the card is
archived. -/
def orderly : List Action :=
  [newCard "one".toList, .start (.send "alice".toList "general".toList "hello".toList none)] ++
    steps 0 2 idOne ++ steps 1 5 [] ++ steps 0 4 idOne ++
    [.start (.archiveCard "alice".toList "general".toList idOne)] ++ steps 2 7 []

theorem commits_isolated_orderly :
    ∃ w, run sampleStep (initial sampleRepo) orderly = some w ∧ w.commits.length = 3 ∧
      Isolated w := by
  have hevaluated : (run sampleStep (initial sampleRepo) orderly).isSome = true ∧
      Along sampleStep Guard (initial sampleRepo) orderly ∧
      ∀ w ∈ run sampleStep (initial sampleRepo) orderly, w.commits.length = 3 := by
    unfold orderly newCard idOne sampleRepo generalChannel
    repeat rw [String.toList_ofList]
    decide +kernel
  obtain ⟨hsome, hguard, hcommits⟩ := hevaluated
  obtain ⟨w, hw⟩ := Option.isSome_iff_exists.mp hsome
  exact ⟨w, hw, hcommits w hw, commits_isolated objectJson tableYaml sampleCards sampleUsers
    sampleRepo orderly w hw hguard⟩

def answerOf : Phase → Option Outcome
  | .answered outcome => some outcome
  | _ => none

theorem answerOf_eq_some {phase : Phase} {outcome : Outcome} (h : answerOf phase = some outcome) :
    phase = .answered outcome := by
  cases phase <;> cases h
  rfl

/-- Two cards are staged before either is committed, and a third before the second is. -/
def mixed : List Action :=
  [newCard "one".toList, newCard "two".toList, newCard "three".toList] ++
    steps 0 4 idOne ++ steps 1 4 idTwo ++ steps 0 2 idOne ++ steps 2 4 idThree ++ steps 1 2 idTwo

/-- The commit of the first call holds the second card, and the second call reports success with
a commit that holds only the third. -/
theorem commits_mixed :
    (¬ ∀ actions w, run sampleStep (initial sampleRepo) actions = some w →
      ∀ k ∈ w.commits, OnlyOwn k.job k.before k.after) ∧
    ¬ ∀ actions w, run sampleStep (initial sampleRepo) actions = some w →
      ∀ c outcome job, w.calls[c]? = some (.answered outcome) → outcome.success? = some job →
        Recorded w c job := by
  have hevaluated : (run sampleStep (initial sampleRepo) mixed).isSome = true ∧
      (∀ w ∈ run sampleStep (initial sampleRepo) mixed, ∃ k ∈ w.commits,
        k.before.lookup (metaIn (cardDir "general".toList idTwo)) ≠
          k.after.lookup (metaIn (cardDir "general".toList idTwo)) ∧
        ¬ k.job.Owns (metaIn (cardDir "general".toList idTwo))) ∧
      ∀ w ∈ run sampleStep (initial sampleRepo) mixed,
        (∃ phase ∈ w.calls[1]?, ∃ outcome ∈ answerOf phase, outcome.success?.isSome = true) ∧
        ∀ k ∈ w.commits, k.call = 1 → k.job.move = none ∧
          ∀ p ∈ k.job.writes.map FileWrite.path, k.before.lookup p = k.after.lookup p := by
    unfold mixed newCard idOne idTwo idThree sampleRepo generalChannel
    repeat rw [String.toList_ofList]
    decide +kernel
  obtain ⟨hsome, hforeign, hsecond⟩ := hevaluated
  obtain ⟨w, hw⟩ := Option.isSome_iff_exists.mp hsome
  constructor
  · intro h
    obtain ⟨k, hk, hchanged, hnot⟩ := hforeign w hw
    exact hnot (h mixed w hw k hk _ hchanged)
  · intro h
    obtain ⟨⟨phase, hphase, outcome, houtcome, hsuccess⟩, hunchanged⟩ := hsecond w hw
    obtain ⟨job, hjob⟩ := Option.isSome_iff_exists.mp hsuccess
    obtain ⟨k, hk, hcall, -, -, -, p, howns, hchanged⟩ :=
      h mixed w hw 1 outcome job (answerOf_eq_some houtcome ▸ hphase) hjob
    obtain ⟨hmove, hsame⟩ := hunchanged k hk hcall
    rcases howns with hwrite | ⟨m, hm, _⟩
    · exact hchanged (hsame p hwrite)
    · rw [hmove] at hm
      cases hm

end Samples

end CommitIsolation
