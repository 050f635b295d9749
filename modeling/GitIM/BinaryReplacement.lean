import GitIM.TextLines
import Mathlib.Logic.Function.Basic

/-!
# Replacing the binaries

An update replaces the binaries of an install directory one by one. The old one is moved aside, the
new one is copied and made executable, and every change is recorded together with the way back. A
step that fails takes back all the changes, the last one first.
-/

namespace BinaryReplacement

open TextLines

def binaries : List Text := ["gitim".toList, "gitim-daemon".toList, "gitim-runtime".toList]

structure Binary (Bytes : Type) where
  bytes : Bytes
  mode : Nat
  deriving DecidableEq

/-- The regular files of a directory. -/
abbrev Dir (Bytes : Type) := Text → Option (Binary Bytes)

/-- What lies in an extracted archive. -/
inductive SourceEntry (Bytes : Type) where
  | file (name : Text) (binary : Binary Bytes)
  | dir (name : Text) (entries : List (SourceEntry Bytes))
  | symlink (name : Text)

inductive UpdateError (IoError : Type) where
  | io (error : IoError)

/-- The way back: a backup to restore, or a new file to remove. -/
inductive RollbackAction where
  | restore (dest backup : Text)
  | remove (dest : Text)

def RollbackAction.dest : RollbackAction → Text
  | .restore dest _ => dest
  | .remove dest => dest

/-- Which step fails for which binary. A copy that fails may leave something behind. -/
structure Faults (Bytes IoError : Type) where
  rename : Text → Option IoError
  copy : Text → Option (IoError × Option (Binary Bytes))
  setPermissions : Text → Option IoError

/-- The changes so far, what has been installed and the install directory. -/
structure Progress (Bytes : Type) where
  actions : List RollbackAction
  installed : List Text
  dir : Dir Bytes

section Model
variable {Bytes IoError : Type}

mutual
/-- Symbolic links are skipped. -/
def walkEntry : SourceEntry Bytes → List (Text × Binary Bytes)
  | .file name binary => [(name, binary)]
  | .dir _ entries => walkdir entries
  | .symlink _ => []

def walkdir : List (SourceEntry Bytes) → List (Text × Binary Bytes)
  | [] => []
  | entry :: entries => walkEntry entry ++ walkdir entries
end

def findBinary (src : List (SourceEntry Bytes)) (name : Text) : Option (Binary Bytes) :=
  (walkdir src).lookup name

def backupPath (dest : Text) : Text := dest ++ ".old".toList

/-- A rename takes the place of what was at the target. -/
def rename (dir : Dir Bytes) (source target : Text) : Dir Bytes :=
  match dir source with
  | none => dir
  | some file => Function.update (Function.update dir source none) target (some file)

def removeFile (dir : Dir Bytes) (path : Text) : Dir Bytes := Function.update dir path none

def setExecPerms (binary : Binary Bytes) : Binary Bytes := { binary with mode := 0o755 }

def undo (dir : Dir Bytes) : RollbackAction → Dir Bytes
  | .restore dest backup =>
    rename (if (dir dest).isSome then removeFile dir dest else dir) backup dest
  | .remove dest => if (dir dest).isSome then removeFile dir dest else dir

def rollback (actions : List RollbackAction) (dir : Dir Bytes) : Dir Bytes :=
  actions.reverse.foldl undo dir

variable (faults : Faults Bytes IoError)

/-- Moves the old binary aside, if there is one. -/
def moveAside (progress : Progress Bytes) (dest : Text) :
    Except (UpdateError IoError × Dir Bytes) (Progress Bytes) :=
  if (progress.dir dest).isSome then
    match faults.rename dest with
    | some e => .error (.io e, rollback progress.actions progress.dir)
    | none => .ok { progress with
        actions := progress.actions ++ [.restore dest (backupPath dest)]
        dir := rename progress.dir dest (backupPath dest) }
  else .ok { progress with actions := progress.actions ++ [.remove dest] }

def copyInto (binary : Binary Bytes) (progress : Progress Bytes) (dest : Text) :
    Except (UpdateError IoError × Dir Bytes) (Progress Bytes) :=
  match faults.copy dest with
  | some (e, leftover) =>
    let dir := Function.update progress.dir dest leftover
    .error (.io e, rollback progress.actions (removeFile dir dest))
  | none =>
    let dir := Function.update progress.dir dest (some binary)
    match faults.setPermissions dest with
    | some e => .error (.io e, rollback progress.actions (removeFile dir dest))
    | none => .ok { progress with
        installed := progress.installed ++ [dest]
        dir := Function.update dir dest (some (setExecPerms binary)) }

/-- A binary that is not in the archive is skipped. -/
def replaceBinary (src : List (SourceEntry Bytes)) (progress : Progress Bytes) (dest : Text) :
    Except (UpdateError IoError × Dir Bytes) (Progress Bytes) :=
  match findBinary src dest with
  | none => .ok progress
  | some binary => do
    let progress ← moveAside faults progress dest
    copyInto faults binary progress dest

def dropBackups : List RollbackAction → Dir Bytes → Dir Bytes
  | [], dir => dir
  | .restore _ backup :: actions, dir => dropBackups actions (removeFile dir backup)
  | .remove _ :: actions, dir => dropBackups actions dir

/-- The answer and the install directory it leaves. -/
def replaceBinaries (src : List (SourceEntry Bytes)) (dir : Dir Bytes) (keepBackup : Bool) :
    Except (UpdateError IoError) (List Text) × Dir Bytes :=
  match binaries.foldlM (replaceBinary faults src) ⟨[], [], dir⟩ with
  | .error (e, dir) => (.error e, dir)
  | .ok progress =>
    (.ok progress.installed,
      if keepBackup then progress.dir else dropBackups progress.actions progress.dir)

end Model

section Backups

theorem backupPath_injective : Function.Injective backupPath := fun _ _ h =>
  List.append_cancel_right h

/-- No binary is the backup of another. -/
theorem backupPath_ne {a b : Text} (hb : b ∈ binaries) : backupPath a ≠ b := by
  rintro rfl
  have hsuffix : ".old".toList <:+ backupPath a := List.suffix_append _ _
  revert hb
  generalize backupPath a = name at hsuffix
  intro hb
  simp only [binaries, List.mem_cons, List.not_mem_nil, or_false] at hb
  rcases hb with rfl | rfl | rfl <;> exact absurd hsuffix (by decide)

end Backups

section Undo
variable {Bytes : Type} {dir before : Dir Bytes} {actions : List RollbackAction}

theorem rename_of_some {source target : Text} {file : Binary Bytes} (h : dir source = some file) :
    rename dir source target =
      Function.update (Function.update dir source none) target (some file) := by
  simp only [rename, h]

theorem rename_other {source target path : Text} (hsource : path ≠ source)
    (htarget : path ≠ target) : rename dir source target path = dir path := by
  cases hfile : dir source with
  | none => simp only [rename, hfile]
  | some file =>
    rw [rename_of_some hfile, Function.update_of_ne htarget, Function.update_of_ne hsource]

/-- The changes are recorded: what was replaced lies in its backup, and what was added can go. -/
structure Logged (before dir : Dir Bytes) (actions : List RollbackAction) : Prop where
  distinct : (actions.map RollbackAction.dest).Nodup
  known : ∀ action ∈ actions, action.dest ∈ binaries
  untouched : ∀ b ∈ binaries, b ∉ actions.map RollbackAction.dest → dir b = before b
  saved : ∀ dest backup, .restore dest backup ∈ actions →
    backup = backupPath dest ∧ dir backup = before dest ∧ (before dest).isSome
  added : ∀ dest, .remove dest ∈ actions → before dest = none

theorem removed_other {dest path : Text} (h : path ≠ dest) :
    (if (dir dest).isSome then removeFile dir dest else dir) path = dir path := by
  split
  · exact Function.update_of_ne h _ _
  · rfl

theorem undo_other {action : RollbackAction} {path : Text} (hdest : path ≠ action.dest)
    (hbackup : ∀ dest backup, action = .restore dest backup → path ≠ backup) :
    undo dir action path = dir path := by
  cases action with
  | restore dest backup =>
    exact (rename_other (hbackup dest backup rfl) hdest).trans (removed_other hdest)
  | remove dest => exact removed_other hdest

/-- What is at the place of a recorded change does not matter. -/
theorem Logged.update (h : Logged before dir actions) {dest : Text}
    (hdest : dest ∈ actions.map RollbackAction.dest) (file : Option (Binary Bytes)) :
    Logged before (Function.update dir dest file) actions := by
  refine ⟨h.distinct, h.known, fun b hb hnot => ?_, fun d backup hmem => ?_, h.added⟩
  · have hne : b ≠ dest := by
      rintro rfl
      exact hnot hdest
    rw [Function.update_of_ne hne]
    exact h.untouched b hb hnot
  · obtain ⟨hbackup, hsaved, hsome⟩ := h.saved d backup hmem
    obtain ⟨action, haction, hname⟩ := List.mem_map.mp hdest
    have hbinary : dest ∈ binaries := hname ▸ h.known action haction
    refine ⟨hbackup, ?_, hsome⟩
    rw [hbackup, Function.update_of_ne (backupPath_ne hbinary), ← hbackup, hsaved]

/-- Taking back the last change puts back what was there. -/
theorem undo_last {action : RollbackAction} (h : Logged before dir (actions ++ [action])) :
    undo dir action action.dest = before action.dest := by
  have hmem : action ∈ actions ++ [action] := List.mem_append_right _ List.mem_cons_self
  have hbinary : action.dest ∈ binaries := h.known action hmem
  cases action with
  | restore dest backup =>
    obtain ⟨hbackup, hsaved, hsome⟩ := h.saved dest backup hmem
    obtain ⟨file, hfile⟩ := Option.isSome_iff_exists.mp hsome
    have hne : backup ≠ dest := hbackup ▸ backupPath_ne hbinary
    have hcleared : (if (dir dest).isSome then removeFile dir dest else dir) backup = some file := by
      rw [removed_other hne, hsaved, hfile]
    rw [undo, rename_of_some hcleared]
    exact (Function.update_self _ _ _).trans hfile.symm
  | remove dest =>
    rw [undo]
    refine Eq.trans ?_ (h.added dest hmem).symm
    split
    · exact Function.update_self _ _ _
    · rename_i hnone
      exact Option.not_isSome_iff_eq_none.mp hnone

theorem Logged.undo {action : RollbackAction} (h : Logged before dir (actions ++ [action])) :
    Logged before (undo dir action) actions := by
  have hmem : action ∈ actions ++ [action] := List.mem_append_right _ List.mem_cons_self
  have hnodup := h.distinct
  rw [List.map_append, List.map_singleton, List.nodup_append] at hnodup
  obtain ⟨hdistinct, -, hnew⟩ := hnodup
  have hapart : action.dest ∉ actions.map RollbackAction.dest := fun hin =>
    hnew _ hin _ List.mem_cons_self rfl
  have hbackup : ∀ dest backup, action = .restore dest backup → backup = backupPath action.dest := by
    rintro dest backup rfl
    exact (h.saved dest backup hmem).1
  refine ⟨hdistinct, fun a ha => h.known a (List.mem_append_left _ ha), fun b hb hnot => ?_,
    fun dest backup ha => ?_, fun dest ha => h.added dest (List.mem_append_left _ ha)⟩
  · by_cases hb' : b = action.dest
    · rw [hb']
      exact undo_last h
    · rw [undo_other hb' fun dest backup heq => hbackup dest backup heq ▸ (backupPath_ne hb).symm]
      refine h.untouched b hb fun hin => ?_
      rw [List.map_append, List.mem_append] at hin
      exact hin.elim hnot fun hlast => hb' (List.mem_singleton.mp hlast)
  · obtain ⟨hsame, hsaved, hsome⟩ := h.saved dest backup (List.mem_append_left _ ha)
    refine ⟨hsame, ?_, hsome⟩
    have hdest : dest ≠ action.dest := fun heq =>
      hapart (heq ▸ List.mem_map_of_mem (f := RollbackAction.dest) ha)
    rw [undo_other, hsaved]
    · exact hsame ▸ backupPath_ne (h.known action hmem)
    · intro dest' backup' heq hbackups
      exact hdest (backupPath_injective (hsame ▸ hbackups.trans (hbackup dest' backup' heq)))

/-- Taking back all changes puts back every binary. -/
theorem rollback_before (h : Logged before dir actions) {b : Text} (hb : b ∈ binaries) :
    rollback actions dir b = before b := by
  induction actions using List.reverseRecOn generalizing dir with
  | nil => exact h.untouched b hb List.not_mem_nil
  | append_singleton actions action ih =>
    rw [rollback, List.reverse_append, List.reverse_singleton, List.singleton_append,
      List.foldl_cons]
    exact ih h.undo

theorem Logged.distinct_append (h : Logged before dir actions) {action : RollbackAction}
    (hnew : action.dest ∉ actions.map RollbackAction.dest) :
    ((actions ++ [action]).map RollbackAction.dest).Nodup := by
  rw [List.map_append, List.map_singleton]
  refine List.nodup_append.mpr ⟨h.distinct, List.pairwise_singleton _ _, fun a ha b hb heq => ?_⟩
  exact hnew (List.mem_singleton.mp hb ▸ heq ▸ ha)

theorem Logged.known_append (h : Logged before dir actions) {action : RollbackAction}
    (hbinary : action.dest ∈ binaries) : ∀ a ∈ actions ++ [action], a.dest ∈ binaries :=
  List.forall_mem_append.mpr ⟨h.known, List.forall_mem_singleton.mpr hbinary⟩

theorem Logged.recordRename (h : Logged before dir actions) {dest : Text}
    (hbinary : dest ∈ binaries) (hnew : dest ∉ actions.map RollbackAction.dest)
    (hsome : (dir dest).isSome) :
    Logged before (rename dir dest (backupPath dest))
      (actions ++ [.restore dest (backupPath dest)]) := by
  have hbefore : dir dest = before dest := h.untouched dest hbinary hnew
  obtain ⟨file, hfile⟩ := Option.isSome_iff_exists.mp hsome
  refine ⟨h.distinct_append hnew, h.known_append hbinary, ?_, ?_, ?_⟩
  · intro b hb hin
    rw [List.map_append, List.mem_append, not_or] at hin
    have hne : b ≠ dest := fun heq => hin.2 (List.mem_singleton.mpr heq)
    rw [rename_other hne (backupPath_ne hb).symm]
    exact h.untouched b hb hin.1
  · intro d backup hmem
    rcases List.mem_append.mp hmem with hold | hlast
    · obtain ⟨hbackup, hsaved, hwas⟩ := h.saved d backup hold
      have hd : d ∈ actions.map RollbackAction.dest :=
        List.mem_map_of_mem (f := RollbackAction.dest) hold
      refine ⟨hbackup, ?_, hwas⟩
      rw [rename_other, hsaved]
      · exact hbackup ▸ backupPath_ne hbinary
      · intro heq
        exact hnew (backupPath_injective (hbackup ▸ heq) ▸ hd)
    · cases List.mem_singleton.mp hlast
      refine ⟨rfl, ?_, hbefore ▸ hsome⟩
      rw [rename_of_some hfile, Function.update_self, ← hbefore, hfile]
  · intro d hmem
    rcases List.mem_append.mp hmem with hold | hlast
    · exact h.added d hold
    · cases List.mem_singleton.mp hlast

theorem Logged.recordAdded (h : Logged before dir actions) {dest : Text}
    (hbinary : dest ∈ binaries) (hnew : dest ∉ actions.map RollbackAction.dest)
    (hnone : dir dest = none) :
    Logged before dir (actions ++ [.remove dest]) := by
  refine ⟨h.distinct_append hnew, h.known_append hbinary, ?_, ?_, ?_⟩
  · intro b hb hin
    rw [List.map_append, List.mem_append, not_or] at hin
    exact h.untouched b hb hin.1
  · intro d backup hmem
    rcases List.mem_append.mp hmem with hold | hlast
    · exact h.saved d backup hold
    · cases List.mem_singleton.mp hlast
  · intro d hmem
    rcases List.mem_append.mp hmem with hold | hlast
    · exact h.added d hold
    · cases List.mem_singleton.mp hlast
      rw [← h.untouched dest hbinary hnew, hnone]

end Undo

section Loop
variable {Bytes IoError : Type} {faults : Faults Bytes IoError} {src : List (SourceEntry Bytes)}
  {before : Dir Bytes} {progress : Progress Bytes} {dest : Text}

/-- A failed step has put back every binary. -/
def EndsIn (before : Dir Bytes) (P : Progress Bytes → Prop) :
    Except (UpdateError IoError × Dir Bytes) (Progress Bytes) → Prop
  | .error (_, dir) => ∀ b ∈ binaries, dir b = before b
  | .ok progress => P progress

theorem EndsIn.bind {P Q : Progress Bytes → Prop}
    {x : Except (UpdateError IoError × Dir Bytes) (Progress Bytes)}
    {f : Progress Bytes → Except (UpdateError IoError × Dir Bytes) (Progress Bytes)}
    (h : EndsIn before P x) (hf : ∀ progress, P progress → EndsIn before Q (f progress)) :
    EndsIn before Q (x >>= f) := by
  cases x with
  | error e => exact h
  | ok progress => exact hf progress h

/-- The binaries that have been gone through are new where the archive has them. -/
structure Installing (src : List (SourceEntry Bytes)) (before : Dir Bytes) (done : List Text)
    (progress : Progress Bytes) : Prop where
  logged : Logged before progress.dir progress.actions
  recorded : progress.actions.map RollbackAction.dest = progress.installed
  installed : progress.installed = done.filter fun b => (findBinary src b).isSome
  new : ∀ b ∈ done, ∀ binary, findBinary src b = some binary →
    progress.dir b = some (setExecPerms binary)

/-- After the old binary has been moved aside its change is recorded. -/
structure Aside (before : Dir Bytes) (dest : Text) (progress moved : Progress Bytes) : Prop where
  logged : Logged before moved.dir moved.actions
  recorded : moved.actions.map RollbackAction.dest =
    progress.actions.map RollbackAction.dest ++ [dest]
  installed : moved.installed = progress.installed
  others : ∀ b ∈ binaries, b ≠ dest → moved.dir b = progress.dir b

theorem moveAside_ends (h : Logged before progress.dir progress.actions) (hbinary : dest ∈ binaries)
    (hnew : dest ∉ progress.actions.map RollbackAction.dest) :
    EndsIn before (Aside before dest progress) (moveAside faults progress dest) := by
  rw [moveAside]
  split
  · rename_i hsome
    split
    · exact fun b hb => rollback_before h hb
    · refine ⟨h.recordRename hbinary hnew hsome, List.map_append, rfl, fun b hb hne => ?_⟩
      exact rename_other hne (backupPath_ne hb).symm
  · rename_i hnone
    exact ⟨h.recordAdded hbinary hnew (Option.not_isSome_iff_eq_none.mp hnone), List.map_append, rfl,
      fun _ _ _ => rfl⟩

variable (faults) in
theorem copyInto_ends (binary : Binary Bytes) (h : Logged before progress.dir progress.actions)
    (hdest : dest ∈ progress.actions.map RollbackAction.dest) :
    EndsIn before (fun copied => copied = { progress with
        installed := progress.installed ++ [dest]
        dir := Function.update progress.dir dest (some (setExecPerms binary)) })
      (copyInto faults binary progress dest) := by
  have hback : ∀ file, ∀ b ∈ binaries,
      rollback progress.actions (removeFile (Function.update progress.dir dest file) dest) b =
        before b := fun file b hb =>
    rollback_before ((h.update hdest file).update hdest none) hb
  rw [copyInto]
  split
  · exact hback _
  · simp only
    split
    · exact hback _
    · rw [EndsIn, Function.update_idem]

theorem replaceBinary_ends {done : List Text} (h : Installing src before done progress)
    (hbinary : dest ∈ binaries) (hdone : done ⊆ binaries) (hnew : dest ∉ done) :
    EndsIn before (Installing src before (done ++ [dest])) (replaceBinary faults src progress dest) := by
  have hfresh : dest ∉ progress.actions.map RollbackAction.dest := by
    rw [h.recorded, h.installed]
    exact fun hin => hnew (List.mem_filter.mp hin).1
  cases hfind : findBinary src dest with
  | none =>
    simp only [replaceBinary, hfind]
    refine ⟨h.logged, h.recorded, ?_, ?_⟩
    · rw [h.installed, List.filter_append, List.filter_cons_of_neg (by simp [hfind]), List.filter_nil,
        List.append_nil]
    · intro b hb binary hbin
      rcases List.mem_append.mp hb with hold | hlast
      · exact h.new b hold binary hbin
      · cases List.mem_singleton.mp hlast
        rw [hfind] at hbin
        cases hbin
  | some binary =>
    simp only [replaceBinary, hfind]
    refine (moveAside_ends h.logged hbinary hfresh).bind fun moved hmoved => ?_
    have hdest : dest ∈ moved.actions.map RollbackAction.dest := by
      rw [hmoved.recorded]
      exact List.mem_append_right _ List.mem_cons_self
    have hcopy := copyInto_ends faults binary hmoved.logged hdest
    cases hcopied : copyInto faults binary moved dest with
    | error e =>
      rw [hcopied] at hcopy
      exact hcopy
    | ok copied =>
      rw [hcopied] at hcopy
      rw [EndsIn] at hcopy ⊢
      subst hcopy
      refine ⟨hmoved.logged.update hdest _, ?_, ?_, ?_⟩
      · simp only [hmoved.recorded, hmoved.installed, h.recorded]
      · simp only [hmoved.installed, h.installed, List.filter_append]
        rw [List.filter_cons_of_pos (by simp [hfind]), List.filter_nil]
      · intro b hb new hbin
        by_cases heq : b = dest
        · subst heq
          rw [hfind] at hbin
          cases hbin
          exact Function.update_self _ _ _
        · rcases List.mem_append.mp hb with hold | hlast
          · have hsame := (Function.update_of_ne heq (some (setExecPerms binary)) moved.dir).trans
              (hmoved.others b (hdone hold) heq)
            exact hsame.trans (h.new b hold new hbin)
          · exact absurd (List.mem_singleton.mp hlast) heq

variable (faults) in
theorem replaceAll_ends (todo : List Text) {done : List Text} (h : Installing src before done progress)
    (hall : done ++ todo ⊆ binaries) (hnodup : (done ++ todo).Nodup) :
    EndsIn before (Installing src before (done ++ todo))
      (todo.foldlM (replaceBinary faults src) progress) := by
  induction todo generalizing done progress with
  | nil =>
    rw [List.append_nil]
    exact h
  | cons dest todo ih =>
    have hsplit : done ++ dest :: todo = (done ++ [dest]) ++ todo := List.append_cons _ _ _
    have hnew : dest ∉ done := fun hin =>
      (List.nodup_append.mp hnodup).2.2 dest hin dest List.mem_cons_self rfl
    rw [List.foldlM_cons]
    refine (replaceBinary_ends h (hall (List.mem_append_right _ List.mem_cons_self))
      (fun b hb => hall (List.mem_append_left _ hb)) hnew).bind fun progress hprogress => ?_
    rw [hsplit] at hall hnodup ⊢
    exact ih hprogress hall hnodup

end Loop

section Result
variable {Bytes IoError : Type}

theorem dropBackups_other {actions : List RollbackAction} (dir : Dir Bytes) {path : Text}
    (h : ∀ dest, .restore dest path ∉ actions) : dropBackups actions dir path = dir path := by
  induction actions generalizing dir with
  | nil => rfl
  | cons action actions ih =>
    have hrest : ∀ dest, .restore dest path ∉ actions := fun dest hmem =>
      h dest (List.mem_cons_of_mem _ hmem)
    cases action with
    | restore dest backup =>
      have hne : path ≠ backup := by
        rintro rfl
        exact h dest List.mem_cons_self
      exact (ih _ hrest).trans (Function.update_of_ne hne _ _)
    | remove dest => exact ih _ hrest

theorem dropBackups_absent (actions : List RollbackAction) {dir : Dir Bytes} {path : Text}
    (h : dir path = none) : dropBackups actions dir path = none := by
  induction actions generalizing dir with
  | nil => exact h
  | cons action actions ih =>
    cases action with
    | restore dest backup =>
      apply ih
      by_cases heq : path = backup
      · rw [heq]
        exact Function.update_self _ _ _
      · exact (Function.update_of_ne heq _ _).trans h
    | remove dest => exact ih h

theorem dropBackups_backup {actions : List RollbackAction} (dir : Dir Bytes) {dest path : Text}
    (h : .restore dest path ∈ actions) : dropBackups actions dir path = none := by
  induction actions generalizing dir with
  | nil => cases h
  | cons action actions ih =>
    rcases List.mem_cons.mp h with rfl | hrest
    · exact dropBackups_absent actions (Function.update_self _ _ _)
    · cases action with
      | restore dest' backup => exact ih _ hrest
      | remove dest' => exact ih _ hrest

/-- What a successful replacement leaves. -/
structure Replaced (src : List (SourceEntry Bytes)) (keepBackup : Bool) (before after : Dir Bytes)
    (installed : List Text) : Prop where
  listed : installed = binaries.filter fun b => (findBinary src b).isSome
  new : ∀ b ∈ binaries, ∀ binary, findBinary src b = some binary →
    after b = some (setExecPerms binary)
  others : ∀ b ∈ binaries, findBinary src b = none → after b = before b
  backups : ∀ b ∈ installed, (before b).isSome →
    after (backupPath b) = if keepBackup then before b else none

theorem replaced_of_installing {src : List (SourceEntry Bytes)}
    {before : Dir Bytes} {progress : Progress Bytes} (h : Installing src before binaries progress)
    (keepBackup : Bool) :
    Replaced src keepBackup before
      (if keepBackup then progress.dir else dropBackups progress.actions progress.dir)
      progress.installed := by
  have hkept : ∀ b ∈ binaries,
      (if keepBackup then progress.dir else dropBackups progress.actions progress.dir) b =
        progress.dir b := by
    intro b hb
    cases keepBackup with
    | true => rfl
    | false =>
      refine dropBackups_other _ fun dest hmem => ?_
      exact backupPath_ne hb (h.logged.saved dest b hmem).1.symm
  refine ⟨h.installed, fun b hb binary hfind => ?_, fun b hb hfind => ?_, fun b hb hsome => ?_⟩
  · rw [hkept b hb, h.new b hb binary hfind]
  · rw [hkept b hb]
    refine h.logged.untouched b hb ?_
    rw [h.recorded, h.installed, List.mem_filter, hfind]
    exact fun hin => Bool.false_ne_true hin.2
  · rw [← h.recorded] at hb
    obtain ⟨action, haction, rfl⟩ := List.mem_map.mp hb
    cases action with
    | restore dest backup =>
      obtain ⟨rfl, hsaved, -⟩ := h.logged.saved dest backup haction
      cases keepBackup with
      | true => exact hsaved
      | false => exact dropBackups_backup _ haction
    | remove dest =>
      have hsome : (before dest).isSome := hsome
      rw [h.logged.added dest haction] at hsome
      cases hsome

/-- A replacement is all or nothing, whichever step fails. -/
theorem replaceBinaries_atomic (faults : Faults Bytes IoError) (src : List (SourceEntry Bytes))
    (before : Dir Bytes) (keepBackup : Bool) :
    match replaceBinaries faults src before keepBackup with
    | (.error _, after) => ∀ b ∈ binaries, after b = before b
    | (.ok installed, after) => Replaced src keepBackup before after installed := by
  have hstart : Installing src before [] ⟨[], [], before⟩ := by
    refine ⟨⟨List.Pairwise.nil, ?_, fun _ _ _ => rfl, ?_, ?_⟩, rfl, rfl, ?_⟩
    all_goals intros; contradiction
  have hends := replaceAll_ends faults binaries hstart (List.Subset.refl _) (by decide)
  rw [List.nil_append] at hends
  rw [replaceBinaries]
  cases hall : binaries.foldlM (replaceBinary faults src) ⟨[], [], before⟩ with
  | error e =>
    rw [hall] at hends
    exact hends
  | ok progress =>
    rw [hall] at hends
    exact replaced_of_installing hends keepBackup

end Result

end BinaryReplacement
