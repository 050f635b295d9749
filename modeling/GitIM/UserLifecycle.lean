import GitIM.Users
import GitIM.GitIndex
import GitIM.Departure
import GitIM.TableCodec

/-!
# The life of a user

Registration, profile updates, departure and return, as `handlers/user.rs` has them. Each
call writes or moves files, stages them and commits; any of its git commands may fail, and
each call takes back what it did in its own way.
-/

namespace UserLifecycle

open TextLines TextScan FileTree Checked Runs ThreadFormat DmThreads GitIndex Cards Users
open Departure (boardPath archivedBoardPath)

section Model

structure Daemon where
  repo : Repo
  users : List Text
  deriving DecidableEq

inductive Call where
  | register (handler displayName role introduction : Text) (kind : UserKind)
  | update (handler : Text) (displayName introduction : Option Text)
  | archive (handler author : Text)
  | unarchive (handler author : Text)
  deriving DecidableEq

/-- Which of the commands of a call succeed. -/
structure Env where
  serialized : Bool
  written : Bool
  parentMade : Bool
  boardDirMade : Bool
  metaMoved : Bool
  boardMoved : Bool
  added : Bool
  committed : Bool
  pushed : Bool
  deriving DecidableEq

/-- `refused` is an error at or before the commit. -/
inductive Outcome where
  | done
  | refused (e : Text)
  | notPushed
  deriving DecidableEq

variable (yaml : UserCodec)

/-- The list with the handler, in order. -/
def listed (users : List Text) (handler : Text) : List Text :=
  if handler ∈ users then users else (users ++ [handler]).insertionSort (· ≤ ·)

/-- `add_and_commit_as`, and whether the commit was made. -/
def addAndCommit (r : Repo) (paths : List Path) (env : Env) : Repo × Bool :=
  match if env.added then add r paths else none with
  | none => (r, false)
  | some staged =>
    match if env.committed then commit staged else none with
    | none => (staged, false)
    | some after => (after, true)

def checkRegister (s : Daemon) (handler : Text) : Except Text Unit := do
  let _ ← checkHandler handler "invalid handler".toList
  refuse (fileExists s.repo.worktree (departedPath handler) = true)
    ("handler @".toList ++ (handler ++ " is reserved (previously departed)".toList))

/-- The file is removed if it is not committed; what is staged stays staged. -/
def registerNew (s : Daemon) (handler : Text) (info : UserMeta) (env : Env) : Daemon × Outcome :=
  let written := { s.repo with
    worktree := writeFile s.repo.worktree (userPath handler) (yaml.toStr info) }
  match addAndCommit written [userPath handler] env with
  | (after, true) => (⟨after, listed s.users handler⟩, .done)
  | (after, false) =>
    (⟨{ after with worktree := removeFile after.worktree (userPath handler) },
        (listed s.users handler).filter (· ≠ handler)⟩,
      .refused "register_user commit failed".toList)

def handleRegisterUser (s : Daemon) (handler displayName role introduction : Text)
    (kind : UserKind) (env : Env) : Daemon × Outcome :=
  match checkRegister s handler with
  | .error e => (s, .refused e)
  | .ok () =>
    if fileExists s.repo.worktree (userPath handler) then
      ({ s with users := listed s.users handler }, .done)
    else if env.serialized = false then (s, .refused "failed to serialize user meta".toList)
    else if env.written = false then (s, .refused "failed to write user meta".toList)
    else registerNew yaml s handler ⟨displayName, role, introduction, [], kind⟩ env

/-- The text that a profile update writes; `none` if it changes nothing. -/
def profileText (s : Daemon) (handler : Text) (displayName introduction : Option Text) :
    Except Text (Option Text) := do
  checkProfile handler displayName introduction
  match s.repo.worktree.lookup (userPath handler) with
  | none => .error ("user not found: ".toList ++ handler)
  | some content =>
    match yaml.fromStr content with
    | none => .error "failed to parse user meta".toList
    | some info =>
      if editProfile displayName introduction info = info then .ok none
      else .ok (some (yaml.toStr (editProfile displayName introduction info)))

/-- Nothing is taken back. -/
def handleUpdateUser (s : Daemon) (handler : Text) (displayName introduction : Option Text)
    (env : Env) : Daemon × Outcome :=
  match profileText yaml s handler displayName introduction with
  | .error e => (s, .refused e)
  | .ok none => (s, .done)
  | .ok (some text) =>
    if env.serialized = false then (s, .refused "failed to serialize user meta".toList)
    else if env.written = false then (s, .refused "failed to write user meta".toList)
    else
      let written := { s.repo with
        worktree := writeFile s.repo.worktree (userPath handler) text }
      match addAndCommit written [userPath handler] env with
      | (after, true) => ({ s with repo := after }, .done)
      | (after, false) =>
        ({ s with repo := after }, .refused "update_user commit failed".toList)

/-- The files of a user on their way into the archive or out of it. -/
structure Move where
  source : Path
  target : Path
  boardSource : Path
  boardTarget : Path

/-- A move taken back; if that fails, it is logged. -/
def moveBack (r : Repo) (source target : Path) : Repo := (mvFile r target source).getD r

/-- A failed commit is followed by the reverse moves. -/
def commitMove (r : Repo) (m : Move) (withBoard : Bool) (env : Env) : Repo × Option Text :=
  match addAndCommit r (if withBoard then [m.target, m.boardTarget] else [m.target]) env with
  | (after, true) => (after, none)
  | (after, false) =>
    (moveBack (if withBoard then moveBack after m.boardSource m.boardTarget else after) m.source
      m.target, some "commit failed; rolled back git mv".toList)

def moveFiles (r : Repo) (m : Move) (env : Env) : Repo × Option Text :=
  match if env.metaMoved then mvFile r m.source m.target else none with
  | none => (r, some "git mv failed".toList)
  | some moved =>
    if fileExists moved.worktree m.boardSource then
      if env.boardDirMade = false then
        (moveBack moved m.source m.target, some "failed to create board dir".toList)
      else
        match if env.boardMoved then mvFile moved m.boardSource m.boardTarget else none with
        | none => (moveBack moved m.source m.target,
            some "board git mv failed; rolled back meta git mv".toList)
        | some both => commitMove both m true env
    else commitMove moved m false env

def archiveMove (handler : Text) : Move :=
  ⟨userPath handler, departedPath handler, boardPath handler, archivedBoardPath handler⟩

def unarchiveMove (handler : Text) : Move :=
  ⟨departedPath handler, userPath handler, archivedBoardPath handler, boardPath handler⟩

def checkArchive (s : Daemon) (handler author : Text) : Except Text Unit := do
  let _ ← checkHandler handler "invalid handler".toList
  ensureAuthorNotDeparted s.repo.worktree author
  ensureRegistered s.users author
  refuse (fileExists s.repo.worktree (departedPath handler) = true)
    ("user @".toList ++ (handler ++ " is already archived".toList))
  refuse (fileExists s.repo.worktree (userPath handler) = false)
    ("user @".toList ++ (handler ++ " not found".toList))

/-- A departed author may call the handler back. -/
def checkUnarchive (s : Daemon) (handler author : Text) : Except Text Unit := do
  let _ ← checkHandler handler "invalid handler".toList
  ensureRegistered s.users author
  refuse (fileExists s.repo.worktree (departedPath handler) = false)
    ("archive source does not exist for user @".toList ++ handler)
  refuse (fileExists s.repo.worktree (userPath handler) = true)
    ("user @".toList ++ (handler ++ " already exists in active location; unarchive aborted".toList))

/-- The common part of `handle_archive_user` and `handle_unarchive_user`; the list of users is
updated after the push. -/
def moveUser (s : Daemon) (check : Except Text Unit) (m : Move) (users : List Text) (env : Env) :
    Daemon × Outcome :=
  match check with
  | .error e => (s, .refused e)
  | .ok () =>
    if env.parentMade = false then (s, .refused "failed to create dir".toList)
    else
      match moveFiles s.repo m env with
      | (after, some e) => ({ s with repo := after }, .refused e)
      | (after, none) =>
        if env.pushed then (⟨after, users⟩, .done) else ({ s with repo := after }, .notPushed)

def handleArchiveUser (s : Daemon) (handler author : Text) (env : Env) : Daemon × Outcome :=
  moveUser s (checkArchive s handler author) (archiveMove handler)
    (s.users.filter (· ≠ handler)) env

def handleUnarchiveUser (s : Daemon) (handler author : Text) (env : Env) : Daemon × Outcome :=
  moveUser s (checkUnarchive s handler author) (unarchiveMove handler) (listed s.users handler) env

def answer (s : Daemon) (c : Call) (env : Env) : Daemon × Outcome :=
  match c with
  | .register handler displayName role introduction kind =>
    handleRegisterUser yaml s handler displayName role introduction kind env
  | .update handler displayName introduction =>
    handleUpdateUser yaml s handler displayName introduction env
  | .archive handler author => handleArchiveUser s handler author env
  | .unarchive handler author => handleUnarchiveUser s handler author env

def step (s : Daemon) (x : Call × Env) : Option Daemon := some (answer yaml s x.1 x.2).1

end Model

section Property

def Call.handler : Call → Text
  | .register handler _ _ _ _ => handler
  | .update handler _ _ => handler
  | .archive handler _ => handler
  | .unarchive handler _ => handler

def filesOf (handler : Text) : List Path :=
  [userPath handler, departedPath handler, boardPath handler, archivedBoardPath handler]

/-- Two repositories with the same files on disk, staged and committed. -/
structure Same (a b : Repo) : Prop where
  worktree : Agree a.worktree b.worktree
  index : Agree a.index b.index
  head : Agree a.head b.head

/-- Every handler is active or archived but not both, and its board is where it is. -/
structure Exclusive (tree : FileMap) (handler : Text) : Prop where
  one : ¬ (fileExists tree (userPath handler) = true ∧
    fileExists tree (departedPath handler) = true)
  board : fileExists tree (boardPath handler) = true → fileExists tree (userPath handler) = true
  archivedBoard : fileExists tree (archivedBoardPath handler) = true →
    fileExists tree (departedPath handler) = true

/-- A refused call leaves no trace, a commit holds only files of its own handler, and the name of
an archived handler stays taken. -/
structure Atomic (yaml : UserCodec) (s : Daemon) (x : Call × Env) : Prop where
  undone : ∀ e, (answer yaml s x.1 x.2).2 = .refused e →
    Same (answer yaml s x.1 x.2).1.repo s.repo ∧ (answer yaml s x.1 x.2).1.users = s.users
  own : ∀ p, (answer yaml s x.1 x.2).1.repo.head.lookup p ≠ s.repo.head.lookup p →
    p ∈ filesOf x.1.handler
  reserved : fileExists s.repo.worktree (departedPath x.1.handler) = true →
    ∀ displayName role introduction kind,
      x.1 = .register x.1.handler displayName role introduction kind →
        ∃ e, (answer yaml s x.1 x.2).2 = .refused e

/-- The condition: no commit of a new user fails once the file is staged, and no `git add` and no
commit of a changed profile fails. -/
def Undone (yaml : UserCodec) (s : Daemon) (x : Call × Env) : Prop :=
  match x.1 with
  | .register handler _ _ _ _ => checkRegister s handler = .ok () →
      fileExists s.repo.worktree (userPath handler) = false → x.2.serialized = true →
      x.2.written = true → x.2.added = true → x.2.committed = true
  | .update handler displayName introduction =>
      (∃ text, profileText yaml s handler displayName introduction = .ok (some text)) →
      x.2.serialized = true → x.2.written = true → x.2.added = true ∧ x.2.committed = true
  | .archive _ _ | .unarchive _ _ => True

/-- The daemon between two calls of the runs considered here: nothing is staged, the files of the
users are committed as they are, and the list of users is in order and names nobody else. -/
structure Settled (s : Daemon) : Prop where
  exclusive : ∀ handler, Exclusive s.repo.worktree handler
  staged : ∀ handler, ∀ p ∈ filesOf handler, s.repo.worktree.lookup p = s.repo.index.lookup p
  committed : Agree s.repo.index s.repo.head
  sorted : s.users.Pairwise (· ≤ ·)
  known : ∀ handler ∈ s.users, fileExists s.repo.worktree (userPath handler) = true ∨
    fileExists s.repo.worktree (departedPath handler) = true

end Property

section Files
variable {tree tree' : FileMap} {handler other : Text}

theorem mem_filesOf {p : Path} : p ∈ filesOf handler ↔ p = userPath handler ∨
    p = departedPath handler ∨ p = boardPath handler ∨ p = archivedBoardPath handler := by
  simp [filesOf]

theorem userPath_ne_departedPath (a b : Text) : userPath a ≠ departedPath b := fun h => by
  have hhead : some 'u' = some 'a' := congrArg List.head? h
  cases hhead

theorem boardPath_ne_userPath (a b : Text) : boardPath a ≠ userPath b := fun h => by
  have hhead : some 's' = some 'u' := congrArg List.head? h
  cases hhead

theorem boardPath_ne_departedPath (a b : Text) : boardPath a ≠ departedPath b := fun h => by
  have hhead : some 's' = some 'a' := congrArg List.head? h
  cases hhead

theorem archivedBoardPath_ne_userPath (a b : Text) : archivedBoardPath a ≠ userPath b := fun h => by
  have hhead : some 'a' = some 'u' := congrArg List.head? h
  cases hhead

theorem archivedBoardPath_ne_departedPath (a b : Text) :
    archivedBoardPath a ≠ departedPath b := fun h => by
  have hhead : some 's' = some 'u' := congrArg (fun p => (p.drop 8).head?) h
  cases hhead

theorem archivedBoardPath_ne_boardPath (a b : Text) : archivedBoardPath a ≠ boardPath b := fun h => by
  have hhead : some 'a' = some 's' := congrArg List.head? h
  cases hhead

/-- Different users have different files. -/
theorem eq_of_mem_filesOf {p : Path} (h : p ∈ filesOf handler) (h' : p ∈ filesOf other) :
    handler = other := by
  rcases mem_filesOf.mp h with rfl | rfl | rfl | rfl
  · rcases mem_filesOf.mp h' with heq | heq | heq | heq
    · exact List.append_cancel_right (List.append_cancel_left heq)
    · exact absurd heq (userPath_ne_departedPath _ _)
    · exact absurd heq.symm (boardPath_ne_userPath _ _)
    · exact absurd heq.symm (archivedBoardPath_ne_userPath _ _)
  · rcases mem_filesOf.mp h' with heq | heq | heq | heq
    · exact absurd heq.symm (userPath_ne_departedPath _ _)
    · exact List.append_cancel_right (List.append_cancel_left heq)
    · exact absurd heq.symm (boardPath_ne_departedPath _ _)
    · exact absurd heq.symm (archivedBoardPath_ne_departedPath _ _)
  · rcases mem_filesOf.mp h' with heq | heq | heq | heq
    · exact absurd heq (boardPath_ne_userPath _ _)
    · exact absurd heq (boardPath_ne_departedPath _ _)
    · exact List.append_cancel_right (List.append_cancel_left heq)
    · exact absurd heq.symm (archivedBoardPath_ne_boardPath _ _)
  · rcases mem_filesOf.mp h' with heq | heq | heq | heq
    · exact absurd heq (archivedBoardPath_ne_userPath _ _)
    · exact absurd heq (archivedBoardPath_ne_departedPath _ _)
    · exact absurd heq (archivedBoardPath_ne_boardPath _ _)
    · exact List.append_cancel_right (List.append_cancel_left heq)

theorem exclusive_congr (h : ∀ p ∈ filesOf handler, tree'.lookup p = tree.lookup p)
    (hex : Exclusive tree handler) : Exclusive tree' handler := by
  have hexists : ∀ p ∈ filesOf handler, fileExists tree' p = fileExists tree p :=
    fun p hp => congrArg Option.isSome (h p hp)
  have huser := hexists (userPath handler) (by simp [filesOf])
  have hdeparted := hexists (departedPath handler) (by simp [filesOf])
  have hboard := hexists (boardPath handler) (by simp [filesOf])
  have harchived := hexists (archivedBoardPath handler) (by simp [filesOf])
  constructor
  · rw [huser, hdeparted]
    exact hex.one
  · rw [hboard, huser]
    exact hex.board
  · rw [harchived, hdeparted]
    exact hex.archivedBoard

end Files

section Commands
variable {r r' after : Repo}

theorem same_refl (r : Repo) : Same r r := ⟨agree_refl _, agree_refl _, agree_refl _⟩

theorem Same.trans {a b c : Repo} (h : Same a b) (h' : Same b c) : Same a c :=
  ⟨h.worktree.trans h'.worktree, h.index.trans h'.index, h.head.trans h'.head⟩

/-- How staging and committing can end. -/
theorem addAndCommit_cases {paths : List Path} {env : Env} {ok : Bool}
    (h : addAndCommit r paths env = (after, ok)) :
    (ok = false ∧ after = r ∧ (env.added = true → add r paths = none)) ∨
    (ok = false ∧ env.added = true ∧
      after = { r with index := copyEntries r.worktree paths r.index } ∧
      (env.committed = true → Agree (copyEntries r.worktree paths r.index) r.head)) ∨
    (ok = true ∧ env.added = true ∧ env.committed = true ∧
      after = { r with
        index := copyEntries r.worktree paths r.index
        head := copyEntries r.worktree paths r.index }) := by
  rw [addAndCommit] at h
  cases hadded : env.added with
  | false =>
    simp only [hadded, Bool.false_eq_true, if_false, Prod.mk.injEq] at h
    exact .inl ⟨h.2.symm, h.1.symm, fun hfalse => (by cases hfalse)⟩
  | true =>
    simp only [hadded, if_true] at h
    cases hadd : add r paths with
    | none =>
      simp only [hadd, Prod.mk.injEq] at h
      exact .inl ⟨h.2.symm, h.1.symm, fun _ => rfl⟩
    | some staged =>
      have hstaged := add_eq_some hadd
      simp only [hadd] at h
      cases hcommitted : env.committed with
      | false =>
        simp only [hcommitted, Bool.false_eq_true, if_false, Prod.mk.injEq] at h
        exact .inr (.inl ⟨h.2.symm, rfl, h.1.symm.trans hstaged, fun hfalse => (by cases hfalse)⟩)
      | true =>
        simp only [hcommitted, if_true] at h
        cases hcommit : commit staged with
        | none =>
          simp only [hcommit, Prod.mk.injEq] at h
          refine .inr (.inl ⟨h.2.symm, rfl, h.1.symm.trans hstaged, fun _ => ?_⟩)
          by_contra hdiffer
          rw [hstaged, commit, if_neg hdiffer] at hcommit
          cases hcommit
        | some final =>
          simp only [hcommit, Prod.mk.injEq] at h
          obtain ⟨-, hfinal⟩ := commit_eq_some_iff.mp hcommit
          refine .inr (.inr ⟨h.2.symm, rfl, rfl, ?_⟩)
          rw [← h.1, hfinal, hstaged]

/-- A move of one file, on disk and in the index. -/
theorem mvFile_eq_some {source target : Path} (h : mvFile r source target = some r') :
    ∃ content staged, r.worktree.lookup source = some content ∧ r.worktree.lookup target = none ∧
      r.index.lookup source = some staged ∧ r'.head = r.head ∧
      (∀ q, r'.worktree.lookup q = if q = target then some content else
        if q = source then none else r.worktree.lookup q) ∧
      ∀ q, r'.index.lookup q = if q = target then some staged else
        if q = source then none else r.index.lookup q := by
  rw [mvFile] at h
  split at h
  · rename_i worktree staged hmove hstaged
    cases h
    obtain ⟨content, hsource, htarget, hlookup⟩ := gitMv_eq_some hmove
    refine ⟨content, staged, hsource, htarget, hstaged, rfl, hlookup, fun q => ?_⟩
    rw [lookup_writeFile, lookup_removeFile]
  · cases h

theorem mvFile_isSome {source target : Path} {content staged : Text}
    (hsource : r.worktree.lookup source = some content) (htarget : r.worktree.lookup target = none)
    (hstaged : r.index.lookup source = some staged) : ∃ r', mvFile r source target = some r' := by
  have hmove : gitMv r.worktree source target =
      some (writeFile (removeFile r.worktree source) target content) := by
    rw [gitMv, hsource, htarget]
  rw [mvFile, hmove, hstaged]
  exact ⟨_, rfl⟩

/-- A move taken back restores the repository, also after files that are staged as they are on disk
were staged again. -/
theorem moveBack_same {source target : Path} (hne : source ≠ target)
    (h : mvFile r source target = some r') (hfree : r.index.lookup target = none)
    (hafter : Same after r') : Same (moveBack after source target) r := by
  obtain ⟨content, staged, hsource, htarget, hstaged, hhead, hworktree, hindex⟩ := mvFile_eq_some h
  have hmoved : after.worktree.lookup target = some content := by
    rw [hafter.worktree target, hworktree, if_pos rfl]
  have hgone : after.worktree.lookup source = none := by
    rw [hafter.worktree source, hworktree, if_neg hne, if_pos rfl]
  have hindexed : after.index.lookup target = some staged := by
    rw [hafter.index target, hindex, if_pos rfl]
  obtain ⟨b, hb⟩ := mvFile_isSome hmoved hgone hindexed
  obtain ⟨content', staged', hcontent', -, hstaged', hhead', hworktree', hindex'⟩ :=
    mvFile_eq_some hb
  rw [hmoved] at hcontent'
  cases hcontent'
  rw [hindexed] at hstaged'
  cases hstaged'
  rw [moveBack, hb, Option.getD_some]
  refine ⟨fun q => ?_, fun q => ?_, fun q => ?_⟩
  · rw [hworktree', hafter.worktree q, hworktree]
    by_cases hq : q = source
    · rw [if_pos hq, hq, hsource]
    · by_cases hq' : q = target
      · rw [if_neg hq, if_pos hq', hq', htarget]
      · rw [if_neg hq, if_neg hq', if_neg hq', if_neg hq]
  · rw [hindex', hafter.index q, hindex]
    by_cases hq : q = source
    · rw [if_pos hq, hq, hstaged]
    · by_cases hq' : q = target
      · rw [if_neg hq, if_pos hq', hq', hfree]
      · rw [if_neg hq, if_neg hq', if_neg hq', if_neg hq]
  · rw [hhead', hafter.head q, hhead]

/-- A path at which disk and index agree stays one when a file is moved for which they agree. -/
theorem mvFile_staged {source target p : Path} (h : mvFile r source target = some r')
    (hsource : r.worktree.lookup source = r.index.lookup source)
    (hp : r.worktree.lookup p = r.index.lookup p) :
    r'.worktree.lookup p = r'.index.lookup p := by
  obtain ⟨content, staged, hcontent, -, hstaged, -, hworktree, hindex⟩ := mvFile_eq_some h
  rw [hcontent, hstaged] at hsource
  cases hsource
  rw [hworktree, hindex, hp]

/-- Staging what is staged already changes nothing. -/
theorem same_restage {paths : List Path}
    (h : ∀ p ∈ paths, r.worktree.lookup p = r.index.lookup p) :
    Same { r with index := copyEntries r.worktree paths r.index } r := by
  refine ⟨agree_refl _, fun p => ?_, agree_refl _⟩
  rw [lookup_copyEntries]
  split
  · exact h p ‹_›
  · rfl

end Commands

section Moves
variable {r after : Repo} {m : Move} {env : Env}

/-- The four paths are different, and what is on disk there is staged. -/
structure Movable (r : Repo) (m : Move) : Prop where
  apart : [m.source, m.target, m.boardSource, m.boardTarget].Nodup
  staged : ∀ p ∈ [m.source, m.target, m.boardSource, m.boardTarget],
    r.worktree.lookup p = r.index.lookup p

/-- The files of the user have arrived. -/
def Arrived (r : Repo) (m : Move) (final : Repo) : Prop :=
  (mvFile r m.source m.target = some final ∧ fileExists final.worktree m.boardSource = false) ∨
    ∃ mid, mvFile r m.source m.target = some mid ∧
      mvFile mid m.boardSource m.boardTarget = some final

theorem Movable.free (h : Movable r m) {moved : Repo}
    (hmove : mvFile r m.source m.target = some moved) : r.index.lookup m.target = none := by
  obtain ⟨-, -, -, htarget, -, -, -, -⟩ := mvFile_eq_some hmove
  rw [← h.staged m.target (by simp), htarget]

theorem Movable.boardFree (h : Movable r m) {moved both : Repo}
    (hmove : mvFile r m.source m.target = some moved)
    (hboard : mvFile moved m.boardSource m.boardTarget = some both) :
    moved.index.lookup m.boardTarget = none := by
  obtain ⟨-, -, -, htarget, -, -, -, -⟩ := mvFile_eq_some hboard
  rw [← mvFile_staged hmove (h.staged m.source (by simp)) (h.staged m.boardTarget (by simp)),
    htarget]

theorem Movable.staged_moved (h : Movable r m) {moved : Repo}
    (hmove : mvFile r m.source m.target = some moved) :
    ∀ p ∈ [m.source, m.target, m.boardSource, m.boardTarget],
      moved.worktree.lookup p = moved.index.lookup p :=
  fun p hp => mvFile_staged hmove (h.staged m.source (by simp)) (h.staged p hp)

theorem Movable.staged_both (h : Movable r m) {moved both : Repo}
    (hmove : mvFile r m.source m.target = some moved)
    (hboard : mvFile moved m.boardSource m.boardTarget = some both) :
    ∀ p ∈ [m.source, m.target, m.boardSource, m.boardTarget],
      both.worktree.lookup p = both.index.lookup p :=
  fun p hp => mvFile_staged hboard (h.staged_moved hmove m.boardSource (by simp))
    (h.staged_moved hmove p hp)

/-- Staging and committing moved files: either nothing has changed or all of it is committed. -/
theorem addAndCommit_staged {paths : List Path} {ok : Bool}
    (hstaged : ∀ p ∈ paths, r.worktree.lookup p = r.index.lookup p)
    (h : addAndCommit r paths env = (after, ok)) :
    (ok = false ∧ Same after r) ∨
      (ok = true ∧ Agree after.worktree r.worktree ∧ Agree after.index r.index ∧
        after.head = after.index) := by
  rcases addAndCommit_cases h with ⟨hok, rfl, -⟩ | ⟨hok, -, rfl, -⟩ | ⟨hok, -, -, rfl⟩
  · exact .inl ⟨hok, same_refl after⟩
  · exact .inl ⟨hok, same_restage hstaged⟩
  · exact .inr ⟨hok, agree_refl _, (same_restage hstaged).index, rfl⟩

theorem Movable.source_ne (h : Movable r m) : m.source ≠ m.target ∧
    m.boardSource ≠ m.boardTarget := by
  have := h.apart
  simp only [List.nodup_cons, List.mem_cons, not_or] at this
  exact ⟨this.1.1, this.2.2.1.1⟩

/-- The files of a user are moved and committed, or nothing has changed. -/
theorem moveFiles_spec (hm : Movable r m) :
    (∃ e, (moveFiles r m env).2 = some e ∧ Same (moveFiles r m env).1 r) ∨
      ((moveFiles r m env).2 = none ∧ ∃ final, Arrived r m final ∧
        Agree (moveFiles r m env).1.worktree final.worktree ∧
        Agree (moveFiles r m env).1.index final.index ∧
        (moveFiles r m env).1.head = (moveFiles r m env).1.index) := by
  rw [moveFiles]
  cases hmove : if env.metaMoved then mvFile r m.source m.target else none with
  | none => exact .inl ⟨_, rfl, same_refl r⟩
  | some moved =>
    have hmoved : mvFile r m.source m.target = some moved := by
      split at hmove
      · exact hmove
      · cases hmove
    have hback : ∀ a, Same a moved → Same (moveBack a m.source m.target) r :=
      fun a ha => moveBack_same hm.source_ne.1 hmoved (hm.free hmoved) ha
    dsimp only
    split
    · split
      · exact .inl ⟨_, rfl, hback moved (same_refl moved)⟩
      cases hboard : if env.boardMoved then mvFile moved m.boardSource m.boardTarget else none with
      | none => exact .inl ⟨_, rfl, hback moved (same_refl moved)⟩
      | some both =>
        have hboth : mvFile moved m.boardSource m.boardTarget = some both := by
          split at hboard
          · exact hboard
          · cases hboard
        dsimp only
        rw [commitMove]
        simp only [if_true]
        cases hcommit : addAndCommit both [m.target, m.boardTarget] env with
        | mk a ok =>
          have hstaged : ∀ p ∈ [m.target, m.boardTarget],
              both.worktree.lookup p = both.index.lookup p :=
            fun p hp => hm.staged_both hmoved hboth p (by
              simp only [List.mem_cons, List.not_mem_nil, or_false] at hp ⊢
              tauto)
          rcases addAndCommit_staged hstaged hcommit with ⟨rfl, hsame⟩ | ⟨rfl, hdone⟩
          · exact .inl ⟨_, rfl, hback _ (moveBack_same hm.source_ne.2 hboth
              (hm.boardFree hmoved hboth) hsame)⟩
          · exact .inr ⟨rfl, both, .inr ⟨moved, hmoved, hboth⟩, hdone⟩
    · rename_i hnone
      rw [commitMove]
      simp only [Bool.false_eq_true, if_false]
      cases hcommit : addAndCommit moved [m.target] env with
      | mk a ok =>
        have hstaged : ∀ p ∈ [m.target], moved.worktree.lookup p = moved.index.lookup p :=
          fun p hp => hm.staged_moved hmoved p (by
            simp only [List.mem_cons, List.not_mem_nil, or_false] at hp ⊢
            tauto)
        rcases addAndCommit_staged hstaged hcommit with ⟨rfl, hsame⟩ | ⟨rfl, hdone⟩
        · exact .inl ⟨_, rfl, hback _ hsame⟩
        · exact .inr ⟨rfl, moved, .inl ⟨hmoved, Bool.eq_false_of_not_eq_true hnone⟩, hdone⟩

theorem Movable.notMem (h : Movable r m) : m.source ≠ m.boardSource ∧ m.source ≠ m.boardTarget ∧
    m.target ≠ m.boardSource ∧ m.target ≠ m.boardTarget := by
  have := h.apart
  simp only [List.nodup_cons, List.mem_cons, not_or] at this
  exact ⟨this.1.2.1, this.1.2.2.1, this.2.1.1, this.2.1.2.1⟩

/-- Behind a move the files are at their targets, and the other files are as they were. -/
theorem Arrived.lookups {final : Repo} (hm : Movable r m) (h : Arrived r m final) :
    final.worktree.lookup m.source = none ∧ (final.worktree.lookup m.target).isSome = true ∧
      final.worktree.lookup m.boardSource = none ∧
      (∀ p ∉ [m.source, m.target, m.boardSource, m.boardTarget],
        final.worktree.lookup p = r.worktree.lookup p ∧ final.index.lookup p = r.index.lookup p) ∧
      ∀ p ∈ [m.source, m.target, m.boardSource, m.boardTarget],
        final.worktree.lookup p = final.index.lookup p := by
  obtain ⟨hne, hboardNe⟩ := hm.source_ne
  obtain ⟨hsb, hst, htb, htt⟩ := hm.notMem
  rcases h with ⟨hmove, hnone⟩ | ⟨mid, hmove, hboard⟩
  · obtain ⟨content, staged, -, -, -, -, hworktree, hindex⟩ := mvFile_eq_some hmove
    refine ⟨?_, ?_, fileExists_eq_false_iff.mp hnone, fun p hp => ?_, hm.staged_moved hmove⟩
    · rw [hworktree, if_neg hne, if_pos rfl]
    · rw [hworktree, if_pos rfl]
      rfl
    · simp only [List.mem_cons, not_or] at hp
      rw [hworktree, hindex, if_neg hp.2.1, if_neg hp.1, if_neg hp.2.1, if_neg hp.1]
      exact ⟨rfl, rfl⟩
  · obtain ⟨content, staged, -, -, -, -, hworktree, hindex⟩ := mvFile_eq_some hmove
    obtain ⟨content', staged', -, -, -, -, hworktree', hindex'⟩ := mvFile_eq_some hboard
    refine ⟨?_, ?_, ?_, fun p hp => ?_, hm.staged_both hmove hboard⟩
    · rw [hworktree', if_neg hst, if_neg hsb, hworktree, if_neg hne, if_pos rfl]
    · rw [hworktree', if_neg htt, if_neg htb, hworktree, if_pos rfl]
      rfl
    · rw [hworktree', if_neg hboardNe, if_pos rfl]
    · simp only [List.mem_cons, not_or] at hp
      obtain ⟨hs, ht, hb, hbt, -⟩ := hp
      rw [hworktree', hindex', if_neg hbt, if_neg hb, hworktree, if_neg ht, if_neg hs, if_neg hbt,
        if_neg hb, hindex, if_neg ht, if_neg hs]
      exact ⟨rfl, rfl⟩

theorem movable_archive {s : Daemon} (hs : Settled s) (handler : Text) :
    Movable s.repo (archiveMove handler) := by
  refine ⟨?_, fun p hp => hs.staged handler p hp⟩
  simp [archiveMove, userPath_ne_departedPath, (boardPath_ne_userPath _ _).symm,
    (archivedBoardPath_ne_userPath _ _).symm, (boardPath_ne_departedPath _ _).symm,
    (archivedBoardPath_ne_departedPath _ _).symm, (archivedBoardPath_ne_boardPath _ _).symm]

theorem movable_unarchive {s : Daemon} (hs : Settled s) (handler : Text) :
    Movable s.repo (unarchiveMove handler) := by
  refine ⟨?_, fun p hp => hs.staged handler p (by
    simp only [unarchiveMove, filesOf, List.mem_cons, List.not_mem_nil, or_false] at hp ⊢
    tauto)⟩
  simp [unarchiveMove, (userPath_ne_departedPath _ _).symm, (archivedBoardPath_ne_userPath _ _).symm,
    (boardPath_ne_departedPath _ _).symm, (archivedBoardPath_ne_departedPath _ _).symm,
    archivedBoardPath_ne_boardPath, (boardPath_ne_userPath _ _).symm]

end Moves

section Lists
variable {users : List Text} {handler : Text}

theorem mem_listed {u : Text} : u ∈ listed users handler ↔ u ∈ users ∨ u = handler := by
  rw [listed]
  split
  · rename_i hmem
    constructor
    · exact .inl
    · rintro (hu | rfl)
      · exact hu
      · exact hmem
  · rw [List.mem_insertionSort, List.mem_append, List.mem_singleton]

theorem sorted_listed (h : users.Pairwise (· ≤ ·)) : (listed users handler).Pairwise (· ≤ ·) := by
  rw [listed]
  split
  · exact h
  · exact List.pairwise_insertionSort _ _

/-- A handler that was not listed is taken out again without a trace. -/
theorem filter_listed (h : users.Pairwise (· ≤ ·)) (hnew : handler ∉ users) :
    (listed users handler).filter (· ≠ handler) = users := by
  rw [listed, if_neg hnew]
  refine List.Perm.eq_of_pairwise' (r := (· ≤ ·)) ((List.pairwise_insertionSort _ _).filter _) h ?_
  refine ((List.perm_insertionSort _ _).filter _).trans (List.Perm.of_eq ?_)
  rw [List.filter_append, List.filter_cons_of_neg (by simp), List.filter_nil, List.append_nil,
    List.filter_eq_self]
  intro u hu
  exact decide_eq_true fun heq => hnew (heq ▸ hu)

end Lists

section Steps
variable {yaml : UserCodec} {s : Daemon}

/-- What a call on one handler has to do for the daemon to be settled again. -/
theorem settled_of {t : Daemon} {handler : Text} (hs : Settled s)
    (hworktree : ∀ p ∉ filesOf handler, t.repo.worktree.lookup p = s.repo.worktree.lookup p)
    (hindex : ∀ p ∉ filesOf handler, t.repo.index.lookup p = s.repo.index.lookup p)
    (hexclusive : Exclusive t.repo.worktree handler)
    (hstaged : ∀ p ∈ filesOf handler, t.repo.worktree.lookup p = t.repo.index.lookup p)
    (hcommitted : Agree t.repo.index t.repo.head) (hsorted : t.users.Pairwise (· ≤ ·))
    (hkept : ∀ u ∈ t.users, u ∈ s.users ∨ u = handler)
    (hknown : fileExists t.repo.worktree (userPath handler) = true ∨
      fileExists t.repo.worktree (departedPath handler) = true) :
    Settled t ∧ ∀ p, t.repo.head.lookup p ≠ s.repo.head.lookup p → p ∈ filesOf handler := by
  have hother : ∀ other, other ≠ handler → ∀ p ∈ filesOf other, p ∉ filesOf handler :=
    fun other hne p hp hp' => hne (eq_of_mem_filesOf hp hp')
  refine ⟨⟨fun other => ?_, fun other p hp => ?_, hcommitted, hsorted, fun u hu => ?_⟩,
    fun p hp => ?_⟩
  · by_cases heq : other = handler
    · rw [heq]
      exact hexclusive
    · exact exclusive_congr (fun p hp => hworktree p (hother other heq p hp)) (hs.exclusive other)
  · by_cases heq : other = handler
    · exact hstaged p (heq ▸ hp)
    · rw [hworktree p (hother other heq p hp), hindex p (hother other heq p hp)]
      exact hs.staged other p hp
  · by_cases heq : u = handler
    · rw [heq]
      exact hknown
    · have huser := hworktree (userPath u) (hother u heq _ (by simp [filesOf]))
      have hdeparted := hworktree (departedPath u) (hother u heq _ (by simp [filesOf]))
      rw [fileExists, fileExists, huser, hdeparted]
      exact hs.known u ((hkept u hu).resolve_right heq)
  · by_contra hp'
    refine hp ?_
    rw [← hcommitted p, hindex p hp', hs.committed p]

/-- Settled and refused without a trace is settled. -/
theorem settled_same {t : Daemon} (hs : Settled s) (hsame : Same t.repo s.repo)
    (husers : t.users = s.users) : Settled t := by
  refine ⟨fun handler => ?_, fun handler p hp => ?_, ?_, husers ▸ hs.sorted, fun u hu => ?_⟩
  · exact exclusive_congr (fun p _ => hsame.worktree p) (hs.exclusive handler)
  · rw [hsame.worktree p, hsame.index p]
    exact hs.staged handler p hp
  · exact (hsame.index.trans hs.committed).trans hsame.head.symm
  · rw [fileExists, fileExists, hsame.worktree, hsame.worktree]
    exact hs.known u (husers ▸ hu)

/-- The two ways in which a call ends: settled again, with a commit of its own files, or refused. -/
def Ends (s : Daemon) (handler : Text) (t : Daemon × Outcome) : Prop :=
  ((∃ e, t.2 = .refused e) ∧ Agree t.1.repo.head s.repo.head) ∨
    ((∀ e, t.2 ≠ .refused e) ∧ Settled t.1 ∧
      ∀ p, t.1.repo.head.lookup p ≠ s.repo.head.lookup p → p ∈ filesOf handler)

/-- A file of a user that is written, staged and committed. -/
theorem committed_write {handler text : Text} {env : Env} {after : Repo}
    (h : addAndCommit { s.repo with worktree := writeFile s.repo.worktree (userPath handler) text }
      [userPath handler] env = (after, true)) :
    (∀ q, after.worktree.lookup q =
      if q = userPath handler then some text else s.repo.worktree.lookup q) ∧
    (∀ q, after.index.lookup q =
      if q = userPath handler then some text else s.repo.index.lookup q) ∧
    after.head = after.index := by
  rcases addAndCommit_cases h with ⟨hok, -⟩ | ⟨hok, -⟩ | ⟨-, -, -, rfl⟩
  · cases hok
  · cases hok
  · refine ⟨fun q => lookup_writeFile _ _ _ _, fun q => ?_, rfl⟩
    rw [lookup_copyEntries]
    simp only [List.mem_singleton, lookup_writeFile]
    by_cases hq : q = userPath handler
    · simp [hq]
    · simp [hq]

/-- A write to the file of an active user, or of a new one, keeps the daemon settled. -/
theorem settled_write {handler text : Text} {env : Env} {after : Repo} {users : List Text}
    (hs : Settled s) (hfree : fileExists s.repo.worktree (departedPath handler) = false)
    (hsorted : users.Pairwise (· ≤ ·)) (hkept : ∀ u ∈ users, u ∈ s.users ∨ u = handler)
    (h : addAndCommit { s.repo with worktree := writeFile s.repo.worktree (userPath handler) text }
      [userPath handler] env = (after, true)) :
    Settled ⟨after, users⟩ ∧
      ∀ p, after.head.lookup p ≠ s.repo.head.lookup p → p ∈ filesOf handler := by
  obtain ⟨hworktree, hindex, hhead⟩ := committed_write h
  have hactive : fileExists after.worktree (userPath handler) = true := by
    rw [fileExists, hworktree, if_pos rfl]
    rfl
  have hdeparted : fileExists after.worktree (departedPath handler) = false := by
    rw [fileExists, hworktree, if_neg (userPath_ne_departedPath _ _).symm]
    exact hfree
  have hout : ∀ p ∉ filesOf handler, p ≠ userPath handler := by
    rintro p hp rfl
    exact hp (by simp [filesOf])
  refine settled_of hs (fun p hp => ?_) (fun p hp => ?_) ?_ (fun p hp => ?_) ?_ hsorted hkept
    (.inl hactive)
  · rw [hworktree, if_neg (hout p hp)]
  · rw [hindex, if_neg (hout p hp)]
  · refine ⟨fun hboth => ?_, fun _ => hactive, fun hboard => ?_⟩
    · rw [hdeparted] at hboth
      cases hboth.2
    · rw [fileExists, hworktree, if_neg (archivedBoardPath_ne_userPath _ _)] at hboard
      have := (hs.exclusive handler).archivedBoard hboard
      rw [hfree] at this
      cases this
  · rw [hworktree, hindex, hs.staged handler p hp]
  · rw [hhead]
    exact agree_refl _

theorem checkRegister_ok {handler : Text} (h : checkRegister s handler = .ok ()) :
    fileExists s.repo.worktree (departedPath handler) = false := by
  simp only [checkRegister, bind_eq_ok_iff, refuse_eq_ok_iff] at h
  obtain ⟨-, -, hfree⟩ := h
  exact Bool.eq_false_of_not_eq_true hfree

theorem register_ends (hs : Settled s) (handler displayName role introduction : Text)
    (kind : UserKind) (env : Env) :
    Ends s handler (handleRegisterUser yaml s handler displayName role introduction kind env) := by
  rw [handleRegisterUser]
  cases hcheck : checkRegister s handler with
  | error e => exact .inl ⟨⟨e, rfl⟩, agree_refl _⟩
  | ok u =>
    have hfree := checkRegister_ok hcheck
    dsimp only
    split
    · rename_i hexists
      refine .inr ⟨fun e he => (by cases he), ?_⟩
      exact settled_of hs (fun _ _ => rfl) (fun _ _ => rfl) (hs.exclusive handler)
        (hs.staged handler) hs.committed (sorted_listed hs.sorted) (fun u hu => mem_listed.mp hu)
        (.inl hexists)
    split
    · exact .inl ⟨⟨_, rfl⟩, agree_refl _⟩
    split
    · exact .inl ⟨⟨_, rfl⟩, agree_refl _⟩
    rw [registerNew]
    dsimp only
    split
    · rename_i after hcommit
      refine .inr ⟨fun e he => (by cases he), ?_⟩
      exact settled_write hs hfree (sorted_listed hs.sorted) (fun u hu => mem_listed.mp hu) hcommit
    · rename_i after hcommit
      refine .inl ⟨⟨_, rfl⟩, ?_⟩
      rcases addAndCommit_cases hcommit with ⟨-, rfl, -⟩ | ⟨-, -, rfl, -⟩ | ⟨hok, -⟩
      · exact agree_refl _
      · exact agree_refl _
      · cases hok

/-- A profile that is changed is the one of an active user. -/
theorem profileText_ok {handler text : Text} {displayName introduction : Option Text}
    (h : profileText yaml s handler displayName introduction = .ok (some text)) :
    ∃ content info, s.repo.worktree.lookup (userPath handler) = some content ∧
      yaml.fromStr content = some info ∧ editProfile displayName introduction info ≠ info ∧
      text = yaml.toStr (editProfile displayName introduction info) := by
  simp only [profileText, bind_eq_ok_iff] at h
  obtain ⟨-, -, hrest⟩ := h
  split at hrest
  · cases hrest
  rename_i content hlookup
  split at hrest
  · cases hrest
  rename_i info hfrom
  split at hrest
  · cases hrest
  · rename_i hchanged
    cases hrest
    exact ⟨content, info, hlookup, hfrom, hchanged, rfl⟩

theorem update_ends (hs : Settled s) (handler : Text) (displayName introduction : Option Text)
    (env : Env) : Ends s handler (handleUpdateUser yaml s handler displayName introduction env) := by
  rw [handleUpdateUser]
  cases htext : profileText yaml s handler displayName introduction with
  | error e => exact .inl ⟨⟨e, rfl⟩, agree_refl _⟩
  | ok text =>
    cases text with
    | none => exact .inr ⟨fun e he => (by cases he), hs, fun p hp => absurd rfl hp⟩
    | some text =>
      obtain ⟨content, info, hlookup, -, -, -⟩ := profileText_ok htext
      have hfree : fileExists s.repo.worktree (departedPath handler) = false := by
        apply Bool.eq_false_of_not_eq_true
        intro hdeparted
        exact (hs.exclusive handler).one ⟨by rw [fileExists, hlookup]; rfl, hdeparted⟩
      dsimp only
      split
      · exact .inl ⟨⟨_, rfl⟩, agree_refl _⟩
      split
      · exact .inl ⟨⟨_, rfl⟩, agree_refl _⟩
      split
      · rename_i after hcommit
        exact .inr ⟨fun e he => (by cases he),
          settled_write hs hfree hs.sorted (fun u hu => .inl hu) hcommit⟩
      · rename_i after hcommit
        refine .inl ⟨⟨_, rfl⟩, ?_⟩
        rcases addAndCommit_cases hcommit with ⟨-, rfl, -⟩ | ⟨-, -, rfl, -⟩ | ⟨hok, -⟩
        · exact agree_refl _
        · exact agree_refl _
        · cases hok

theorem not_exists {tree : FileMap} {p : Path} (h : tree.lookup p = none) :
    ¬ fileExists tree p = true := by
  rw [fileExists_eq_false_iff.mpr h]
  exact Bool.false_ne_true

theorem exclusive_archived {final : Repo} {handler : Text} (hs : Settled s)
    (h : Arrived s.repo (archiveMove handler) final) : Exclusive final.worktree handler ∧
      fileExists final.worktree (departedPath handler) = true := by
  obtain ⟨hsource, htarget, hboard, -, -⟩ := h.lookups (movable_archive hs handler)
  refine ⟨⟨fun hboth => ?_, fun hexists => ?_, fun _ => htarget⟩, htarget⟩
  · exact absurd hboth.1 (not_exists hsource)
  · exact absurd hexists (not_exists hboard)

theorem exclusive_unarchived {final : Repo} {handler : Text} (hs : Settled s)
    (h : Arrived s.repo (unarchiveMove handler) final) : Exclusive final.worktree handler ∧
      fileExists final.worktree (userPath handler) = true := by
  obtain ⟨hsource, htarget, hboard, -, -⟩ := h.lookups (movable_unarchive hs handler)
  refine ⟨⟨fun hboth => ?_, fun _ => htarget, fun hexists => ?_⟩, htarget⟩
  · exact absurd hboth.2 (not_exists hsource)
  · exact absurd hexists (not_exists hboard)

/-- A move of a user is refused without a trace, or the daemon is settled with the files moved. -/
theorem moveUser_ends {check : Except Text Unit} {m : Move} {users : List Text} {env : Env}
    {handler : Text} (hs : Settled s) (hm : Movable s.repo m)
    (hfiles : ∀ p, p ∈ [m.source, m.target, m.boardSource, m.boardTarget] ↔ p ∈ filesOf handler)
    (harrived : ∀ final, Arrived s.repo m final → Exclusive final.worktree handler ∧
      (fileExists final.worktree (userPath handler) = true ∨
        fileExists final.worktree (departedPath handler) = true))
    (hsorted : users.Pairwise (· ≤ ·)) (hkept : ∀ u ∈ users, u ∈ s.users ∨ u = handler) :
    ((∃ e, (moveUser s check m users env).2 = .refused e) ∧
      Same (moveUser s check m users env).1.repo s.repo ∧
      (moveUser s check m users env).1.users = s.users) ∨
    ((∀ e, (moveUser s check m users env).2 ≠ .refused e) ∧
      Settled (moveUser s check m users env).1 ∧
      ∀ p, (moveUser s check m users env).1.repo.head.lookup p ≠ s.repo.head.lookup p →
        p ∈ filesOf handler) := by
  unfold moveUser
  cases check with
  | error e => exact .inl ⟨⟨e, rfl⟩, same_refl _, rfl⟩
  | ok u =>
    dsimp only
    split
    · exact .inl ⟨⟨_, rfl⟩, same_refl _, rfl⟩
    cases hmoves : moveFiles s.repo m env with
    | mk after result =>
      have hspec := @moveFiles_spec s.repo m env hm
      simp only [hmoves] at hspec
      rcases hspec with ⟨e, rfl, hsame⟩ | ⟨rfl, final, hfinal, hworktree, hindex, hhead⟩
      · exact .inl ⟨⟨e, rfl⟩, hsame, rfl⟩
      · obtain ⟨-, -, -, hother, hstaged⟩ := hfinal.lookups hm
        have hsettled : ∀ list : List Text, list.Pairwise (· ≤ ·) →
            (∀ u ∈ list, u ∈ s.users ∨ u = handler) → Settled ⟨after, list⟩ ∧
              ∀ p, after.head.lookup p ≠ s.repo.head.lookup p → p ∈ filesOf handler := by
          intro list hlist hnames
          refine settled_of hs (fun p hp => ?_) (fun p hp => ?_) ?_ (fun p hp => ?_) ?_ hlist hnames ?_
          · exact (hworktree p).trans (hother p (fun hin => hp ((hfiles p).mp hin))).1
          · exact (hindex p).trans (hother p (fun hin => hp ((hfiles p).mp hin))).2
          · exact exclusive_congr (fun p _ => hworktree p) (harrived final hfinal).1
          · exact (hworktree p).trans ((hstaged p ((hfiles p).mpr hp)).trans (hindex p).symm)
          · rw [hhead]
            exact agree_refl _
          · rw [fileExists, fileExists, hworktree, hworktree]
            exact (harrived final hfinal).2
        dsimp only
        split
        · exact .inr ⟨fun e he => (by cases he), hsettled users hsorted hkept⟩
        · exact .inr ⟨fun e he => (by cases he), hsettled s.users hs.sorted fun u hu => .inl hu⟩

theorem archive_ends (hs : Settled s) (handler author : Text) (env : Env) :
    ((∃ e, (handleArchiveUser s handler author env).2 = .refused e) ∧
      Same (handleArchiveUser s handler author env).1.repo s.repo ∧
      (handleArchiveUser s handler author env).1.users = s.users) ∨
    ((∀ e, (handleArchiveUser s handler author env).2 ≠ .refused e) ∧
      Settled (handleArchiveUser s handler author env).1 ∧
      ∀ p, (handleArchiveUser s handler author env).1.repo.head.lookup p ≠ s.repo.head.lookup p →
        p ∈ filesOf handler) := by
  apply moveUser_ends hs (movable_archive hs handler)
  · exact fun p => Iff.rfl
  · exact fun final hfinal => ⟨(exclusive_archived hs hfinal).1, .inr (exclusive_archived hs hfinal).2⟩
  · exact hs.sorted.filter _
  · exact fun u hu => .inl (List.mem_of_mem_filter hu)

theorem unarchive_ends (hs : Settled s) (handler author : Text) (env : Env) :
    ((∃ e, (handleUnarchiveUser s handler author env).2 = .refused e) ∧
      Same (handleUnarchiveUser s handler author env).1.repo s.repo ∧
      (handleUnarchiveUser s handler author env).1.users = s.users) ∨
    ((∀ e, (handleUnarchiveUser s handler author env).2 ≠ .refused e) ∧
      Settled (handleUnarchiveUser s handler author env).1 ∧
      ∀ p, (handleUnarchiveUser s handler author env).1.repo.head.lookup p ≠
        s.repo.head.lookup p → p ∈ filesOf handler) := by
  apply moveUser_ends hs (movable_unarchive hs handler)
  · intro p
    simp only [unarchiveMove, filesOf, List.mem_cons, List.not_mem_nil, or_false]
    tauto
  · exact fun final hfinal =>
      ⟨(exclusive_unarchived hs hfinal).1, .inl (exclusive_unarchived hs hfinal).2⟩
  · exact sorted_listed hs.sorted
  · exact fun u hu => mem_listed.mp hu

theorem answer_ends (hs : Settled s) (c : Call) (env : Env) :
    Ends s c.handler (answer yaml s c env) := by
  cases c with
  | register handler displayName role introduction kind =>
    exact register_ends hs handler displayName role introduction kind env
  | update handler displayName introduction =>
    exact update_ends hs handler displayName introduction env
  | archive handler author =>
    rcases archive_ends hs handler author env with ⟨hrefused, hsame, -⟩ | hdone
    · exact .inl ⟨hrefused, hsame.head⟩
    · exact .inr hdone
  | unarchive handler author =>
    rcases unarchive_ends hs handler author env with ⟨hrefused, hsame, -⟩ | hdone
    · exact .inl ⟨hrefused, hsame.head⟩
    · exact .inr hdone

end Steps

section Condition
variable {yaml : UserCodec} {s : Daemon}

/-- A refused call has changed nothing. -/
def Traceless (s : Daemon) (t : Daemon × Outcome) : Prop :=
  ∀ e, t.2 = .refused e → Same t.1.repo s.repo ∧ t.1.users = s.users

theorem traceless_same (s : Daemon) (o : Outcome) : Traceless s (s, o) :=
  fun _ _ => ⟨same_refl _, rfl⟩

theorem traceless_of_done {t : Daemon × Outcome} (h : t.2 = .done) : Traceless s t := by
  intro e he
  rw [h] at he
  cases he

/-- What is staged and committed of a file that was just written. -/
theorem written_cases {handler text : Text} {env : Env} {after : Repo} {ok : Bool}
    (h : addAndCommit { s.repo with worktree := writeFile s.repo.worktree (userPath handler) text }
      [userPath handler] env = (after, ok)) :
    (ok = false ∧ env.added = false ∧
      after = { s.repo with worktree := writeFile s.repo.worktree (userPath handler) text }) ∨
    (ok = false ∧ env.added = true ∧
      Agree after.worktree (writeFile s.repo.worktree (userPath handler) text) ∧
      after.index.lookup (userPath handler) = some text ∧
      (env.committed = true → s.repo.head.lookup (userPath handler) = some text)) ∨
    (ok = true ∧ env.added = true ∧ env.committed = true) := by
  have hstaged : (copyEntries (writeFile s.repo.worktree (userPath handler) text)
      [userPath handler] s.repo.index).lookup (userPath handler) = some text := by
    rw [lookup_copyEntries, if_pos (List.mem_singleton_self _), lookup_writeFile, if_pos rfl]
  rcases addAndCommit_cases h with ⟨hok, rfl, hadd⟩ | ⟨hok, hadded, rfl, hcommit⟩ |
    ⟨hok, hadded, hcommitted, -⟩
  · refine .inl ⟨hok, Bool.eq_false_of_not_eq_true fun hadded => ?_, rfl⟩
    have hnone := hadd hadded
    rw [add, if_pos] at hnone
    · cases hnone
    · intro p hp
      rw [List.mem_singleton.mp hp, lookup_writeFile, if_pos rfl]
      exact .inl rfl
  · refine .inr (.inl ⟨hok, hadded, agree_refl _, hstaged, fun hcommitted => ?_⟩)
    exact (hcommit hcommitted (userPath handler)).symm.trans hstaged
  · exact .inr (.inr ⟨hok, hadded, hcommitted⟩)

/-- The staged file of a new user outlives a failed commit. -/
theorem registerNew_traceless_iff {handler : Text} {info : UserMeta} {env : Env} (hs : Settled s)
    (hfree : fileExists s.repo.worktree (departedPath handler) = false)
    (hnew : fileExists s.repo.worktree (userPath handler) = false) :
    Traceless s (registerNew yaml s handler info env) ↔
      (env.added = true → env.committed = true) := by
  have habsent : s.repo.worktree.lookup (userPath handler) = none := fileExists_eq_false_iff.mp hnew
  have hunstaged : s.repo.index.lookup (userPath handler) = none :=
    (hs.staged handler _ (by simp [filesOf])).symm.trans habsent
  have hunlisted : handler ∉ s.users := by
    intro hmem
    rcases hs.known handler hmem with hknown | hknown
    · rw [hnew] at hknown
      cases hknown
    · rw [hfree] at hknown
      cases hknown
  rw [registerNew]
  dsimp only
  cases hcommit : addAndCommit { s.repo with
      worktree := writeFile s.repo.worktree (userPath handler) (yaml.toStr info) }
      [userPath handler] env with
  | mk after ok =>
    rcases written_cases hcommit with ⟨rfl, hadded, rfl⟩ |
      ⟨rfl, hadded, -, hindex, hhead⟩ | ⟨rfl, hadded, hcommitted⟩
    · simp only [hadded, Bool.false_eq_true, false_implies, iff_true]
      refine fun e _ => ⟨⟨fun q => ?_, agree_refl _, agree_refl _⟩, filter_listed hs.sorted hunlisted⟩
      rw [lookup_removeFile, lookup_writeFile]
      by_cases hq : q = userPath handler
      · rw [if_pos hq, hq, habsent]
      · rw [if_neg hq, if_neg hq]
    · constructor
      · intro htraceless
        have hsame := (htraceless _ rfl).1.index (userPath handler)
        rw [hunstaged] at hsame
        rw [hsame] at hindex
        cases hindex
      · intro hcommitted
        have hstaged := hhead (hcommitted hadded)
        rw [← hs.committed, hunstaged] at hstaged
        cases hstaged
    · exact ⟨fun _ _ => hcommitted, fun _ => traceless_of_done rfl⟩

theorem register_traceless_iff (hs : Settled s) (handler displayName role introduction : Text)
    (kind : UserKind) (env : Env) :
    Traceless s (handleRegisterUser yaml s handler displayName role introduction kind env) ↔
      (checkRegister s handler = .ok () →
        fileExists s.repo.worktree (userPath handler) = false → env.serialized = true →
        env.written = true → env.added = true → env.committed = true) := by
  rw [handleRegisterUser]
  cases hcheck : checkRegister s handler with
  | error e =>
    exact ⟨fun _ hok => (by cases hok), fun _ => traceless_same s _⟩
  | ok u =>
    dsimp only
    split
    · rename_i hexists
      exact ⟨fun _ _ hnew => (by cases hexists.symm.trans hnew), fun _ => traceless_of_done rfl⟩
    rename_i hnew
    have hnew := Bool.eq_false_of_not_eq_true hnew
    split
    · rename_i hserialized
      exact ⟨fun _ _ _ htrue => (by cases hserialized.symm.trans htrue), fun _ => traceless_same s _⟩
    rename_i hserialized
    split
    · rename_i hwritten
      exact ⟨fun _ _ _ _ htrue => (by cases hwritten.symm.trans htrue), fun _ => traceless_same s _⟩
    rename_i hwritten
    rw [registerNew_traceless_iff hs (checkRegister_ok hcheck) hnew]
    simp only [hnew, Bool.eq_true_of_not_eq_false hserialized,
      Bool.eq_true_of_not_eq_false hwritten, forall_const]

/-- A changed profile is on disk before anything can fail. -/
theorem update_traceless_iff (hyaml : ∀ m, yaml.fromStr (yaml.toStr m) = some m) (hs : Settled s)
    (handler : Text) (displayName introduction : Option Text) (env : Env) :
    Traceless s (handleUpdateUser yaml s handler displayName introduction env) ↔
      ((∃ text, profileText yaml s handler displayName introduction = .ok (some text)) →
        env.serialized = true → env.written = true →
          env.added = true ∧ env.committed = true) := by
  rw [handleUpdateUser]
  cases htext : profileText yaml s handler displayName introduction with
  | error e => exact ⟨fun _ ⟨_, hok⟩ => (by cases hok), fun _ => traceless_same s _⟩
  | ok text =>
    cases text with
    | none => exact ⟨fun _ ⟨_, hok⟩ => (by cases hok), fun _ => traceless_same s _⟩
    | some text =>
      obtain ⟨content, info, hlookup, hfrom, hchanged, hwrites⟩ := profileText_ok htext
      have hne : text ≠ content := by
        rintro rfl
        rw [hwrites, hyaml] at hfrom
        exact hchanged (Option.some.inj hfrom)
      dsimp only
      split
      · rename_i hserialized
        exact ⟨fun _ _ htrue => (by cases hserialized.symm.trans htrue), fun _ => traceless_same s _⟩
      rename_i hserialized
      split
      · rename_i hwritten
        exact ⟨fun _ _ _ htrue => (by cases hwritten.symm.trans htrue), fun _ => traceless_same s _⟩
      rename_i hwritten
      have hcondition : ((∃ t, (Except.ok (some text) : Except Text (Option Text)) =
          .ok (some t)) → env.serialized = true → env.written = true →
            env.added = true ∧ env.committed = true) ↔ env.added = true ∧ env.committed = true :=
        ⟨fun h => h ⟨text, rfl⟩ (Bool.eq_true_of_not_eq_false hserialized)
          (Bool.eq_true_of_not_eq_false hwritten), fun h _ _ _ => h⟩
      rw [hcondition]
      cases hcommit : addAndCommit { s.repo with
          worktree := writeFile s.repo.worktree (userPath handler) text }
          [userPath handler] env with
      | mk after ok =>
        have hleft : Agree after.worktree (writeFile s.repo.worktree (userPath handler) text) →
            ¬ Agree after.worktree s.repo.worktree := by
          intro hafter hsame
          have hboth := (hafter (userPath handler)).symm.trans (hsame (userPath handler))
          rw [lookup_writeFile, if_pos rfl, hlookup] at hboth
          exact hne (Option.some.inj hboth)
        rcases written_cases hcommit with ⟨rfl, hadded, rfl⟩ |
          ⟨rfl, hadded, hafter, hindex, hhead⟩ | ⟨rfl, hadded, hcommitted⟩
        · refine ⟨fun h => absurd (h _ rfl).1.worktree (hleft (agree_refl _)), fun h => ?_⟩
          rw [hadded] at h
          cases h.1
        · refine ⟨fun h => absurd (h _ rfl).1.worktree (hleft hafter), fun h => ?_⟩
          have hstaged := hhead h.2
          rw [← hs.committed, ← hs.staged handler _ (by simp [filesOf]), hlookup] at hstaged
          exact absurd (Option.some.inj hstaged).symm hne
        · exact ⟨fun _ => ⟨hadded, hcommitted⟩, fun _ => traceless_of_done rfl⟩

/-- In a settled daemon a call is atomic exactly if it meets the condition. -/
theorem atomic_iff (hyaml : ∀ m, yaml.fromStr (yaml.toStr m) = some m) (hs : Settled s)
    (x : Call × Env) : Atomic yaml s x ↔ Undone yaml s x := by
  obtain ⟨c, env⟩ := x
  have hundone : Traceless s (answer yaml s c env) ↔ Undone yaml s (c, env) := by
    cases c with
    | register handler displayName role introduction kind =>
      exact register_traceless_iff hs handler displayName role introduction kind env
    | update handler displayName introduction =>
      exact update_traceless_iff hyaml hs handler displayName introduction env
    | archive handler author =>
      refine ⟨fun _ => trivial, fun _ e he => ?_⟩
      rcases archive_ends hs handler author env with ⟨-, hsame⟩ | ⟨hdone, -⟩
      · exact hsame
      · exact absurd he (hdone e)
    | unarchive handler author =>
      refine ⟨fun _ => trivial, fun _ e he => ?_⟩
      rcases unarchive_ends hs handler author env with ⟨-, hsame⟩ | ⟨hdone, -⟩
      · exact hsame
      · exact absurd he (hdone e)
  refine ⟨fun h => hundone.mp h.undone, fun h => ⟨hundone.mpr h, fun p hp => ?_, ?_⟩⟩
  · rcases answer_ends hs c env with ⟨-, hhead⟩ | ⟨-, -, hown⟩
    · exact absurd (hhead p) hp
    · exact hown p hp
  · rintro hdeparted displayName role introduction kind hcall
    rw [hcall]
    change ∃ e, (handleRegisterUser yaml s c.handler displayName role introduction kind env).2 = _
    rw [handleRegisterUser]
    cases hcheck : checkRegister s c.handler with
    | error e => exact ⟨e, rfl⟩
    | ok u =>
      have hfree := checkRegister_ok hcheck
      rw [hdeparted] at hfree
      cases hfree

/-- An atomic call leaves a settled daemon settled. -/
theorem settled_step {t : Daemon} {x : Call × Env} (hs : Settled s) (hatomic : Atomic yaml s x)
    (hstep : step yaml s x = some t) : Settled t := by
  cases hstep
  rcases answer_ends hs x.1 x.2 with ⟨⟨e, he⟩, -⟩ | ⟨-, hsettled, -⟩
  · obtain ⟨hsame, husers⟩ := hatomic.undone e he
    exact settled_same hs hsame husers
  · exact hsettled

/-- A run of calls is atomic exactly if every call of it meets the condition, and then every handler
has its files in one place. -/
theorem lifecycle_atomic_iff (hyaml : ∀ m, yaml.fromStr (yaml.toStr m) = some m) (hs : Settled s)
    (calls : List (Call × Env)) :
    (Along (step yaml) (Atomic yaml) s calls ∧ ∀ t, run (step yaml) s calls = some t →
        ∀ handler, Exclusive t.repo.worktree handler) ↔
      Along (step yaml) (Undone yaml) s calls := by
  have hpreserve : ∀ u x t, Settled u → Atomic yaml u x → step yaml u x = some t → Settled t :=
    fun u x t hu hatomic hstep => settled_step hu hatomic hstep
  rw [← along_congr hpreserve (fun u x hu => atomic_iff hyaml hu x) hs]
  constructor
  · exact fun h => h.1
  · exact fun h => ⟨h, fun t hrun => (run_invariant hpreserve hrun h hs).exclusive⟩

end Condition

section Samples
open TableCodec

instance decidableExistsText (x : Except Text (Option Text)) : Decidable (∃ t, x = .ok (some t)) :=
  match x with
  | .ok (some t) => isTrue ⟨t, rfl⟩
  | .ok none => isFalse fun ⟨_, h⟩ => (by cases h)
  | .error _ => isFalse fun ⟨_, h⟩ => (by cases h)

instance decidableUndone (yaml : UserCodec) (s : Daemon) :
    (x : Call × Env) → Decidable (Undone yaml s x)
  | (.register handler _ _ _ _, env) =>
    inferInstanceAs (Decidable (checkRegister s handler = .ok () →
      fileExists s.repo.worktree (userPath handler) = false → env.serialized = true →
      env.written = true → env.added = true → env.committed = true))
  | (.update handler displayName introduction, env) =>
    inferInstanceAs (Decidable ((∃ t, profileText yaml s handler displayName introduction =
      .ok (some t)) → env.serialized = true → env.written = true →
        env.added = true ∧ env.committed = true))
  | (.archive _ _, _) => isTrue trivial
  | (.unarchive _ _, _) => isTrue trivial

def kindNumber : UserKind → Fin 3
  | .unknown => 0
  | .human => 1
  | .agent => 2

def kindOfNumber (n : Fin 3) : UserKind :=
  if n = 0 then .unknown else if n = 1 then .human else .agent

instance encodableKind : Encodable UserKind :=
  Encodable.ofLeftInverse kindNumber kindOfNumber fun k => by cases k <;> rfl

instance encodableUser : Encodable UserMeta :=
  Encodable.ofLeftInverse
    (fun m => (m.displayName, m.role, m.introduction, m.labels, m.kind))
    (fun m => ⟨m.1, m.2.1, m.2.2.1, m.2.2.2.1, m.2.2.2.2⟩) fun _ => rfl

def sampleUser (displayName : Text) : UserMeta := ⟨displayName, "dev".toList, [], [], .human⟩

def sampleUserYaml (displayName : Text) : Text := unlines ["display_name: ".toList ++ displayName,
  "role: dev".toList, "introduction: ''".toList, "kind: human".toList]

def userTable : List (UserMeta × Text) :=
  ["Alice".toList, "Alice B".toList, "Bob".toList].map fun n => (sampleUser n, sampleUserYaml n)

def sampleUsersYaml : UserCodec := ⟨tableValue userTable, tableText userTable⟩

theorem sampleUsersYaml_back (m : UserMeta) :
    sampleUsersYaml.fromStr (sampleUsersYaml.toStr m) = some m :=
  tableValue_tableText (by decide +kernel) m

def allGood : Env := ⟨true, true, true, true, true, true, true, true, true⟩

/-- The commit fails, as it does if a hook refuses it. -/
def commitFails : Env := { allGood with committed := false }

def aliceFiles : FileMap :=
  [(userPath "alice".toList, sampleUserYaml "Alice".toList),
    (boardPath "alice".toList, "# Alice\n".toList)]

/-- Alice is registered and has a board. -/
def aliceOnly : Daemon := ⟨⟨aliceFiles, aliceFiles, aliceFiles⟩, ["alice".toList]⟩

theorem exclusive_aliceFiles (handler : Text) : Exclusive aliceFiles handler := by
  by_cases heq : handler = "alice".toList
  · subst heq
    exact ⟨by decide, by decide, by decide⟩
  · have habsent : ∀ p ∈ filesOf handler, aliceFiles.lookup p = none := by
      intro p hp
      have hne : ∀ q ∈ filesOf "alice".toList, p ≠ q := by
        rintro q hq rfl
        exact heq (eq_of_mem_filesOf hp hq)
      rw [aliceFiles, lookup_cons_ite, if_neg (hne _ (by simp [filesOf])), lookup_cons_ite,
        if_neg (hne _ (by simp [filesOf]))]
      rfl
    have hnot : ∀ p ∈ filesOf handler, ¬ fileExists aliceFiles p = true :=
      fun p hp => not_exists (habsent p hp)
    exact ⟨fun h => hnot _ (by simp [filesOf]) h.1, fun h => absurd h (hnot _ (by simp [filesOf])),
      fun h => absurd h (hnot _ (by simp [filesOf]))⟩

theorem settled_aliceOnly : Settled aliceOnly where
  exclusive := exclusive_aliceFiles
  staged _ _ _ := rfl
  committed := agree_refl _
  sorted := List.pairwise_singleton _ _
  known handler h := by
    rw [List.mem_singleton.mp h]
    decide

/-- Bob registers, his departure fails at the commit, alice renames herself and departs. -/
def sampleLife : List (Call × Env) :=
  [(.register "bob".toList "Bob".toList "dev".toList [] .human, allGood),
    (.archive "bob".toList "alice".toList, commitFails),
    (.update "alice".toList (some "Alice B".toList) none, allGood),
    (.archive "alice".toList "bob".toList, allGood),
    (.register "alice".toList "Alice".toList "dev".toList [] .human, allGood)]

theorem lifecycle_sampleLife :
    ((run (step sampleUsersYaml) aliceOnly sampleLife).map fun t =>
        (t.users, t.repo.head.lookup (departedPath "alice".toList),
          t.repo.head.lookup (archivedBoardPath "alice".toList))) =
      some (["bob".toList], some (sampleUserYaml "Alice B".toList), some "# Alice\n".toList) ∧
    Along (step sampleUsersYaml) (Atomic sampleUsersYaml) aliceOnly sampleLife :=
  ⟨by decide +kernel, ((lifecycle_atomic_iff sampleUsersYaml_back settled_aliceOnly sampleLife).mpr
    (by decide +kernel)).1⟩

/-- The commit of bob's registration fails, and alice renames herself. -/
def stagedRegistration : List (Call × Env) :=
  [(.register "bob".toList "Bob".toList "dev".toList [] .human, commitFails),
    (.update "alice".toList (some "Alice B".toList) none, allGood)]

/-- Bob is refused and his file is removed, but it is still staged: the next commit has it. -/
theorem not_atomic_stagedRegistration :
    (answer sampleUsersYaml aliceOnly
        (.register "bob".toList "Bob".toList "dev".toList [] .human) commitFails).2 =
      .refused "register_user commit failed".toList ∧
    ((run (step sampleUsersYaml) aliceOnly stagedRegistration).map fun t =>
        (t.repo.worktree.lookup (userPath "bob".toList),
          t.repo.head.lookup (userPath "bob".toList))) =
      some (none, some (sampleUserYaml "Bob".toList)) ∧
    ¬ (Along (step sampleUsersYaml) (Atomic sampleUsersYaml) aliceOnly stagedRegistration ∧
      ∀ t, run (step sampleUsersYaml) aliceOnly stagedRegistration = some t →
        ∀ handler, Exclusive t.repo.worktree handler) := by
  refine ⟨by decide +kernel, by decide +kernel, fun h => ?_⟩
  have hindex := (h.1.1.undone "register_user commit failed".toList (by decide +kernel)).1.index
    (userPath "bob".toList)
  revert hindex
  decide +kernel

end Samples

end UserLifecycle
