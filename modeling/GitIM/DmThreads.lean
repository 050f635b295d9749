import GitIM.ThreadValidation
import GitIM.FileTree
import GitIM.Runs
import Mathlib.Data.Sym.Sym2

/-!
# Where a direct message thread lives

Sending to a direct message thread, archiving it, bringing it back and the second
phase of a departure, on one daemon. Every call first looks at the files without the
commit lock and then changes them in a section under the lock; the sections are atomic
and run in any order. What git and the file system answer is part of the action.
-/

namespace DmThreads

open TextLines TextScan FileTree Checked Runs ThreadFormat ThreadValidation

section Names

/-- The pair of a direct message thread, in order. -/
def dmFilename (a b : Text) : Text :=
  if a ≤ b then a ++ ("--".toList ++ b) else b ++ ("--".toList ++ a)

/-- Split at the first double hyphen. -/
def splitPair : Text → Option (Text × Text)
  | [] => none
  | c :: rest =>
    match stripPrefix "--".toList (c :: rest) with
    | some second => some ([], second)
    | none => (splitPair rest).map fun p => (c :: p.1, p.2)

def parseDmFilename (stem : Text) : Option (Text × Text) :=
  match splitPair stem with
  | some (first, second) => if first = [] ∨ second = [] then none else some (first, second)
  | none => none

def dmPath (stem : Text) : Path := "dm/".toList ++ (stem ++ ".thread".toList)

def archivedDmPath (stem : Text) : Path := "archive/dm/".toList ++ (stem ++ ".thread".toList)

def departedPath (author : Text) : Path :=
  "archive/users/".toList ++ (author ++ ".meta.yaml".toList)

def userPath (author : Text) : Path := "users/".toList ++ (author ++ ".meta.yaml".toList)

def fileExists (tree : FileMap) (path : Path) : Bool := (tree.lookup path).isSome

/-- The stem of a file `dm/<stem>.thread`. -/
def dmStem (path : Path) : Option Text := do
  let rest ← stripPrefix "dm/".toList path
  if '/' ∈ rest then none
  else if ".thread".toList <:+ rest then some (rest.take (rest.length - 7)) else none

/-- The active threads of a handler, in order. -/
def departTargets (tree : FileMap) (handler : Text) : List Text :=
  ((tree.map Prod.fst).filterMap fun path => do
    let stem ← dmStem path
    let (a, b) ← parseDmFilename stem
    if a = handler ∨ b = handler then some stem else none).insertionSort fun a b => a ≤ b

theorem splitPair_append {a b : Text} (hend : a.getLast? ≠ some '-') (hno : ¬"--".toList <:+: a) :
    splitPair (a ++ ("--".toList ++ b)) = some (a, b) := by
  induction a with
  | nil => rfl
  | cons c a ih =>
    have hstrip : stripPrefix "--".toList (c :: (a ++ ("--".toList ++ b))) = none := by
      rw [stripPrefix, if_neg]
      rintro ⟨rest, hrest⟩
      cases a with
      | nil =>
        have hc : '-' = c := (List.cons.inj hrest).1
        exact hend (by rw [← hc]; rfl)
      | cons d a =>
        obtain ⟨hc, htail⟩ := List.cons.inj hrest
        obtain ⟨hd, -⟩ := List.cons.inj htail
        exact hno ⟨[], a, by rw [← hc, ← hd]; rfl⟩
    have hrest : splitPair (a ++ ("--".toList ++ b)) = some (a, b) := by
      cases a with
      | nil => rfl
      | cons d a =>
        refine ih hend fun hin => hno ?_
        exact hin.trans (List.suffix_cons c (d :: a)).isInfix
    rw [List.cons_append, splitPair, hstrip]
    simp only [hrest, Option.map_some]

/-- A handler is not empty, does not end in a hyphen and has no two hyphens in a row. -/
theorem handler_hyphens (h : Handler) :
    h.name ≠ [] ∧ h.name.getLast? ≠ some '-' ∧ ¬"--".toList <:+: h.name := by
  obtain ⟨name, hvalid | hsystem⟩ := h
  · simp only [handlerError] at hvalid
    split at hvalid
    · cases hvalid
    rename_i hne
    split at hvalid
    · cases hvalid
    split at hvalid
    · cases hvalid
    split at hvalid
    · cases hvalid
    split at hvalid
    · cases hvalid
    rename_i hends
    split at hvalid
    · cases hvalid
    rename_i hyphens
    exact ⟨hne, fun hlast => hends (.inr hlast), hyphens⟩
  · subst hsystem
    decide

theorem parseDmFilename_of_handlers (a b : Handler) :
    parseDmFilename (dmFilename a.name b.name) =
      some (if a.name ≤ b.name then (a.name, b.name) else (b.name, a.name)) := by
  obtain ⟨hane, halast, hahyphens⟩ := handler_hyphens a
  obtain ⟨hbne, hblast, hbhyphens⟩ := handler_hyphens b
  rw [dmFilename]
  split
  · rw [parseDmFilename, splitPair_append halast hahyphens]
    exact if_neg fun h => h.elim hane hbne
  · rw [parseDmFilename, splitPair_append hblast hbhyphens]
    exact if_neg fun h => h.elim hbne hane

theorem dmFilename_comm (a b : Text) : dmFilename a b = dmFilename b a := by
  rw [dmFilename, dmFilename]
  rcases lt_trichotomy a b with h | rfl | h
  · rw [if_pos (le_of_lt h), if_neg (not_le_of_gt h)]
  · rfl
  · rw [if_neg (not_le_of_gt h), if_pos (le_of_lt h)]

/-- The file name of a pair reads back as its handlers in order, so it is the name of no other
pair. -/
theorem dmFilename_identifies (a b : Handler) :
    (∃ first second : Handler, parseDmFilename (dmFilename a.name b.name) =
        some (first.name, second.name) ∧ first.name ≤ second.name ∧ s(first, second) = s(a, b)) ∧
      dmFilename a.name b.name = dmFilename b.name a.name ∧
      ∀ c d : Handler, dmFilename a.name b.name = dmFilename c.name d.name → s(a, b) = s(c, d) := by
  have hread : ∀ a b : Handler, ∃ first second : Handler,
      parseDmFilename (dmFilename a.name b.name) = some (first.name, second.name) ∧
        first.name ≤ second.name ∧ s(first, second) = s(a, b) := by
    intro a b
    rw [parseDmFilename_of_handlers]
    by_cases hle : a.name ≤ b.name
    · exact ⟨a, b, by rw [if_pos hle], hle, rfl⟩
    · exact ⟨b, a, by rw [if_neg hle], le_of_not_ge hle, Sym2.eq_swap⟩
  refine ⟨hread a b, dmFilename_comm a.name b.name, fun c d hsame => ?_⟩
  obtain ⟨a₁, b₁, hab, -, hpair⟩ := hread a b
  obtain ⟨c₁, d₁, hcd, -, hpair'⟩ := hread c d
  rw [← hsame, hab] at hcd
  obtain ⟨hfirst, hsecond⟩ := Prod.mk.inj (Option.some.inj hcd)
  rw [← hpair, ← hpair', Handler.ext hfirst, Handler.ext hsecond]

theorem dmPath_injective {a b : Text} (h : dmPath a = dmPath b) : a = b :=
  List.append_cancel_right (List.append_cancel_left h)

theorem archivedDmPath_injective {a b : Text} (h : archivedDmPath a = archivedDmPath b) :
    a = b :=
  List.append_cancel_right (List.append_cancel_left h)

theorem archivedDmPath_ne (a b : Text) : archivedDmPath a ≠ dmPath b := by
  intro h
  have hhead : some 'a' = some 'd' := congrArg List.head? h
  cases hhead

end Names

section Calls

inductive Request where
  | send (author pair body : Text) (replyTo : Option Nat)
  | archiveDm (peer author : Text)
  | unarchiveDm (peer author : Text)
  | depart (handler : Text)
  deriving DecidableEq

/-- A call behind its checks: waiting for the commit lock, or a departure between two threads. -/
inductive Call where
  | send (author : Handler) (stem : Text) (participants : List Text) (body : Text)
      (replyTo : Option Nat)
  | archiveDm (stem : Text)
  | unarchiveDm (stem : Text)
  | depart (targets : List Text)
  | departMove (stem : Text) (rest : List Text)
  deriving DecidableEq

variable (users : List Text) (tree : FileMap)

def checkHandler (name label : Text) : Except Text Handler :=
  (Handler.new name).mapError fun e => label ++ (": ".toList ++ handlerErrorText e)

def ensureAuthorNotDeparted (author : Text) : Except Text Unit :=
  refuse (fileExists tree (departedPath author) = true)
    ("user @".toList ++ (author ++ " is departed".toList))

def ensureRegistered (author : Text) : Except Text Unit :=
  refuse (author ∉ users) ("unknown user: ".toList ++ author)

/-- The participant an error message names. -/
def peerOf (author first second : Text) : Text := if first = author then second else first

/-- The stem of the pair behind `dm:`; a thread that is archived is refused first. -/
def resolveDm (author pair : Text) : Except Text Text :=
  match pair.splitOn ',' with
  | [first, second] => do
    if handlerError first = none ∧ handlerError second = none then
      refuse (fileExists tree (archivedDmPath (dmFilename first second)) = true)
        ("DM with @".toList ++ (peerOf author first second ++ " is archived".toList))
    else .ok ()
    let h₁ ← checkHandler first "invalid DM handler".toList
    let h₂ ← checkHandler second "invalid DM handler".toList
    .ok (dmFilename h₁.name h₂.name)
  | _ => .error "DM format must be dm:handler1,handler2".toList

/-- What a call does before the lock: its checks on the files as they are now. -/
def precheck : Request → Except Text Call
  | .send author pair body replyTo => do
    let handler ← checkHandler author "invalid author".toList
    ensureAuthorNotDeparted tree author
    ensureRegistered users author
    let stem ← resolveDm tree author pair
    .ok (.send handler stem (pair.splitOn ',') body replyTo)
  | .archiveDm peer author => do
    let p ← checkHandler peer "invalid peer".toList
    let a ← checkHandler author "invalid author".toList
    ensureAuthorNotDeparted tree author
    ensureRegistered users author
    refuse (fileExists tree (archivedDmPath (dmFilename a.name p.name)) = true)
      ("DM with @".toList ++ (peer ++ " is already archived".toList))
    refuse (fileExists tree (dmPath (dmFilename a.name p.name)) = false)
      ("DM with @".toList ++ (peer ++ " not found".toList))
    .ok (.archiveDm (dmFilename a.name p.name))
  | .unarchiveDm peer author => do
    let p ← checkHandler peer "invalid peer".toList
    let a ← checkHandler author "invalid author".toList
    ensureRegistered users author
    refuse (fileExists tree (dmPath (dmFilename a.name p.name)) = true)
      ("DM with @".toList ++ (peer ++ " is not archived".toList))
    refuse (fileExists tree (archivedDmPath (dmFilename a.name p.name)) = false)
      ("DM with @".toList ++ (peer ++ " not found in archive".toList))
    .ok (.unarchiveDm (dmFilename a.name p.name))
  | .depart handler => do
    let h ← checkHandler handler "invalid handler".toList
    -- a handler that has departed is answered with success and no further work
    if fileExists tree (departedPath handler) = true then .ok (.depart [])
    else do
      refuse (fileExists tree (userPath handler) = false)
        ("user @".toList ++ (handler ++ " not found".toList))
      .ok (.depart (departTargets tree h.name))

end Calls

section Sections
variable {Json : Type} (codec : JsonCodec Json) (isObject : Json → Bool) (users : List Text)

/-- What the clock, the file system and git answer during one section. -/
structure Environment where
  now : Text
  opened : Bool
  /-- How many characters reach the file. -/
  written : Nat
  moved : Bool
  committed : Bool
  rolledBack : Bool
  pushed : Bool

/-- A direct message that was accepted: its pair, its line, and whether the archive held a thread
of the pair at that moment. -/
structure Accepted where
  stem : Text
  line : Nat
  archived : Bool
  deriving DecidableEq

structure Outcome where
  tree : FileMap
  next : Option Call
  accepted : Option Accepted

/-- The line of a direct message and its text, as far as the checks let it pass. A missing thread
is read as an empty one. -/
def composeDm (tree : FileMap) (env : Environment) (author : Handler) (stem : Text)
    (participants : List Text) (body : Text) (replyTo : Option Nat) : Option (Nat × Text) :=
  match parseThread codec ((tree.lookup (dmPath stem)).getD []) with
  | .error _ => none
  | .ok file =>
    if (∀ p ∈ participants, p ∈ users) ∧ validateAppend codec isObject users participants
        ((tree.lookup (dmPath stem)).getD [])
        (formatMessage (nextLine (lastLineNumber file.entries)) (replyTo.getD 0) author env.now
          body) = .ok () then
      some (nextLine (lastLineNumber file.entries),
        formatMessage (nextLine (lastLineNumber file.entries)) (replyTo.getD 0) author env.now body)
    else none

def sendSection (tree : FileMap) (env : Environment) (author : Handler) (stem : Text)
    (participants : List Text) (body : Text) (replyTo : Option Nat) : Outcome :=
  match composeDm codec isObject users tree env author stem participants body replyTo with
  | none => ⟨tree, none, none⟩
  | some (line, text) =>
    if env.opened then
      ⟨writeFile tree (dmPath stem) ((tree.lookup (dmPath stem)).getD [] ++ text.take env.written),
        none, if text.length ≤ env.written then
          some ⟨stem, line, fileExists tree (archivedDmPath stem)⟩ else none⟩
    else ⟨tree, none, none⟩

/-- A move and its commit; a commit that fails is answered by moving the file back. The flag says
whether the call goes on. -/
def moveSection (tree : FileMap) (env : Environment) (source target : Path) : FileMap × Bool :=
  if env.moved then
    match gitMv tree source target with
    | none => (tree, false)
    | some after =>
      if env.committed then (after, env.pushed)
      else if env.rolledBack then ((gitMv after target source).getD after, false)
      else (after, false)
  else (tree, false)

/-- The next section of a call, or the next check of a departure. -/
def proceed (tree : FileMap) (env : Environment) : Call → Outcome
  | .send author stem participants body replyTo =>
    sendSection codec isObject users tree env author stem participants body replyTo
  | .archiveDm stem => ⟨(moveSection tree env (dmPath stem) (archivedDmPath stem)).1, none, none⟩
  | .unarchiveDm stem => ⟨(moveSection tree env (archivedDmPath stem) (dmPath stem)).1, none, none⟩
  | .depart [] => ⟨tree, none, none⟩
  | .depart (stem :: rest) =>
    if fileExists tree (archivedDmPath stem) = true ∨ fileExists tree (dmPath stem) = false then
      ⟨tree, some (.depart rest), none⟩
    else ⟨tree, some (.departMove stem rest), none⟩
  | .departMove stem rest =>
    match moveSection tree env (dmPath stem) (archivedDmPath stem) with
    | (after, true) => ⟨after, some (.depart rest), none⟩
    | (after, false) => ⟨after, none, none⟩

structure Daemon where
  tree : FileMap
  waiting : List Call
  accepted : List Accepted
  deriving DecidableEq

inductive Action where
  | call (request : Request)
  | resume (index : Nat) (env : Environment)

def step (d : Daemon) : Action → Option Daemon
  | .call request =>
    match precheck users d.tree request with
    | .ok c => some { d with waiting := d.waiting ++ [c] }
    | .error _ => some d
  | .resume index env =>
    (d.waiting[index]?).map fun c =>
      { tree := (proceed codec isObject users d.tree env c).tree
        waiting := d.waiting.eraseIdx index ++
          (proceed codec isObject users d.tree env c).next.toList
        accepted := d.accepted ++ (proceed codec isObject users d.tree env c).accepted.toList }

end Sections

section OnePlace

/-- No pair has a thread in both places. -/
def OnePlace (tree : FileMap) : Prop :=
  ∀ stem, ¬ (fileExists tree (dmPath stem) = true ∧ fileExists tree (archivedDmPath stem) = true)

theorem fileExists_eq_false_iff {tree : FileMap} {path : Path} :
    fileExists tree path = false ↔ tree.lookup path = none := by
  rw [fileExists, Option.isSome_eq_false_iff, Option.isNone_iff_eq_none]

theorem onePlace_archive {tree after : FileMap} {stem : Text} (h : OnePlace tree)
    (hmove : gitMv tree (dmPath stem) (archivedDmPath stem) = some after) : OnePlace after := by
  obtain ⟨content, -, -, hlookup⟩ := gitMv_eq_some hmove
  rintro q ⟨hactive, harchived⟩
  rw [fileExists, hlookup, if_neg (archivedDmPath_ne stem q).symm] at hactive
  split at hactive
  · cases hactive
  · rename_i hq
    have hne : archivedDmPath q ≠ archivedDmPath stem := fun heq =>
      hq (congrArg dmPath (archivedDmPath_injective heq))
    rw [fileExists, hlookup, if_neg hne, if_neg (archivedDmPath_ne q stem)] at harchived
    exact h q ⟨hactive, harchived⟩

theorem onePlace_unarchive {tree after : FileMap} {stem : Text} (h : OnePlace tree)
    (hmove : gitMv tree (archivedDmPath stem) (dmPath stem) = some after) : OnePlace after := by
  obtain ⟨content, -, -, hlookup⟩ := gitMv_eq_some hmove
  rintro q ⟨hactive, harchived⟩
  rw [fileExists, hlookup, if_neg (archivedDmPath_ne q stem)] at harchived
  split at harchived
  · cases harchived
  · rename_i hq
    have hne : dmPath q ≠ dmPath stem := fun heq =>
      hq (congrArg archivedDmPath (dmPath_injective heq))
    rw [fileExists, hlookup, if_neg hne, if_neg (archivedDmPath_ne stem q).symm] at hactive
    exact h q ⟨hactive, harchived⟩

/-- A section that moves, commits or moves back keeps what both of its moves keep. -/
theorem moveSection_keeps {P : FileMap → Prop} {tree : FileMap} {env : Environment}
    {source target : Path} (h : P tree)
    (hmove : ∀ a b, P a → gitMv a source target = some b → P b)
    (hback : ∀ a b, P a → gitMv a target source = some b → P b) :
    P (moveSection tree env source target).1 := by
  rw [moveSection]
  split
  · cases hmv : gitMv tree source target with
    | none => exact h
    | some after =>
      have hafter : P after := hmove tree after h hmv
      simp only
      split
      · exact hafter
      · split
        · cases hrollback : gitMv after target source with
          | none => exact hafter
          | some restored => exact hback after restored hafter hrollback
        · exact hafter
  · exact h

theorem onePlace_archiveSection {tree : FileMap} {env : Environment} {stem : Text}
    (h : OnePlace tree) :
    OnePlace (moveSection tree env (dmPath stem) (archivedDmPath stem)).1 :=
  moveSection_keeps h (fun _ _ => onePlace_archive) (fun _ _ => onePlace_unarchive)

theorem onePlace_unarchiveSection {tree : FileMap} {env : Environment} {stem : Text}
    (h : OnePlace tree) :
    OnePlace (moveSection tree env (archivedDmPath stem) (dmPath stem)).1 :=
  moveSection_keeps h (fun _ _ => onePlace_unarchive) (fun _ _ => onePlace_archive)

theorem onePlace_write {tree : FileMap} {stem content : Text} (h : OnePlace tree)
    (harchived : fileExists tree (archivedDmPath stem) = false) :
    OnePlace (writeFile tree (dmPath stem) content) := by
  rintro q ⟨hactive, hq⟩
  rw [fileExists, lookup_writeFile, if_neg (archivedDmPath_ne q stem)] at hq
  rw [fileExists, lookup_writeFile] at hactive
  split at hactive
  · rename_i heq
    rw [dmPath_injective heq] at hq
    rw [fileExists, hq] at harchived
    cases harchived
  · exact h q ⟨hactive, hq⟩

end OnePlace

section Runs
variable {Json : Type} {codec : JsonCodec Json} {isObject : Json → Bool} {users : List Text}

/-- The check of a send: the archive has no thread of its pair. -/
def archiveChecked (tree : FileMap) : Call → Bool
  | .send _ stem _ _ _ => !fileExists tree (archivedDmPath stem)
  | _ => true

/-- A send that enters its section still passes the check it made before the lock. -/
def CheckStillHolds (d : Daemon) : Action → Prop
  | .call _ => True
  | .resume index _ => ∀ c ∈ d.waiting[index]?, archiveChecked d.tree c = true

instance decidableCheckStillHolds (d : Daemon) : ∀ a, Decidable (CheckStillHolds d a)
  | .call _ => isTrue trivial
  | .resume index _ =>
    inferInstanceAs (Decidable (∀ c ∈ d.waiting[index]?, archiveChecked d.tree c = true))

/-- One place for every pair, and no message accepted in front of an archived thread. -/
structure Inv (d : Daemon) : Prop where
  onePlace : OnePlace d.tree
  accepted : ∀ m ∈ d.accepted, m.archived = false

theorem sendSection_keeps {tree : FileMap} {env : Environment} {author : Handler} {stem : Text}
    {participants : List Text} {body : Text} {replyTo : Option Nat} (h : OnePlace tree)
    (hcheck : fileExists tree (archivedDmPath stem) = false) :
    OnePlace (sendSection codec isObject users tree env author stem participants body replyTo).tree ∧
      ∀ m ∈ (sendSection codec isObject users tree env author stem participants body
        replyTo).accepted, m.archived = false := by
  rw [sendSection]
  cases composeDm codec isObject users tree env author stem participants body replyTo with
  | none => exact ⟨h, by simp⟩
  | some composed =>
    simp only
    split
    · refine ⟨onePlace_write h hcheck, ?_⟩
      intro m hm
      split at hm
      · cases hm
        exact hcheck
      · cases hm
    · exact ⟨h, by simp⟩

theorem proceed_keeps {tree : FileMap} {env : Environment} {c : Call} (h : OnePlace tree)
    (hcheck : archiveChecked tree c = true) :
    OnePlace (proceed codec isObject users tree env c).tree ∧
      ∀ m ∈ (proceed codec isObject users tree env c).accepted, m.archived = false := by
  cases c with
  | send author stem participants body replyTo =>
    exact sendSection_keeps h (by simpa [archiveChecked] using hcheck)
  | archiveDm stem => exact ⟨onePlace_archiveSection h, by simp [proceed]⟩
  | unarchiveDm stem => exact ⟨onePlace_unarchiveSection h, by simp [proceed]⟩
  | depart targets =>
    cases targets with
    | nil => exact ⟨h, by simp [proceed]⟩
    | cons stem rest =>
      rw [proceed]
      split <;> exact ⟨h, by simp⟩
  | departMove stem rest =>
    have hmoved : OnePlace (moveSection tree env (dmPath stem) (archivedDmPath stem)).1 :=
      onePlace_archiveSection h
    rw [proceed]
    split
    · rename_i after hsection
      rw [hsection] at hmoved
      exact ⟨hmoved, by simp⟩
    · rename_i after hsection
      rw [hsection] at hmoved
      exact ⟨hmoved, by simp⟩

theorem step_inv {d d' : Daemon} {a : Action} (h : Inv d) (hcheck : CheckStillHolds d a)
    (hstep : step codec isObject users d a = some d') : Inv d' := by
  cases a with
  | call request =>
    rw [step] at hstep
    split at hstep
    · cases hstep
      exact ⟨h.onePlace, h.accepted⟩
    · cases hstep
      exact h
  | resume index env =>
    rw [step, Option.map_eq_some_iff] at hstep
    obtain ⟨c, hc, rfl⟩ := hstep
    have hkeeps := @proceed_keeps Json codec isObject users d.tree env c h.onePlace (hcheck c hc)
    refine ⟨hkeeps.1, fun m hm => ?_⟩
    rcases List.mem_append.mp hm with hm | hm
    · exact h.accepted m hm
    · exact hkeeps.2 m (Option.mem_toList.mp hm)

/-- A pair's thread is never in both places and no accepted message starts a new thread in front of
an archived one, in every run in which no send enters its section behind an archived thread. -/
theorem dm_in_one_place (tree : FileMap) (actions : List Action) (d : Daemon)
    (htree : OnePlace tree)
    (hrun : run (step codec isObject users) ⟨tree, [], []⟩ actions = some d)
    (hchecks : Along (step codec isObject users) CheckStillHolds ⟨tree, [], []⟩ actions) :
    OnePlace d.tree ∧ ∀ m ∈ d.accepted, ¬ (m.line = 1 ∧ m.archived = true) := by
  have hinv : Inv d :=
    run_invariant (fun _ _ _ => step_inv) hrun hchecks ⟨htree, by simp⟩
  refine ⟨hinv.onePlace, fun m hm hboth => ?_⟩
  rw [hinv.accepted m hm] at hboth
  cases hboth.2

end Runs

section Samples

def calm : Environment where
  now := "20260101T000000Z".toList
  opened := true
  written := 1000
  moved := true
  committed := true
  rolledBack := true
  pushed := true

def sampleTree : FileMap :=
  [("dm/alice--bob.thread".toList, "[L000001][P000000][@alice][20260101T000000Z] hello\n".toList)]

def sampleUsers : List Text := ["alice".toList, "bob".toList]

def sendToBob : Action :=
  .call (.send "alice".toList "alice,bob".toList "hi".toList none)

def archiveWithBob : Action := .call (.archiveDm "bob".toList "alice".toList)

theorem sampleTree_onePlace : OnePlace sampleTree := by
  rintro stem ⟨-, harchived⟩
  have hne : archivedDmPath stem ≠ "dm/alice--bob.thread".toList := by
    intro h
    have hhead : some 'a' = some 'd' := congrArg List.head? h
    cases hhead
  rw [fileExists, sampleTree, lookup_cons_ite, if_neg hne] at harchived
  cases harchived

def finalState (actions : List Action) : Option Daemon :=
  run (step ThreadMerge.smallCodec smallObject sampleUsers) ⟨sampleTree, [], []⟩ actions

def orderly : List Action := [sendToBob, archiveWithBob, .resume 0 calm, .resume 0 calm]

def orderlyEnd : Daemon := (finalState orderly).getD ⟨[], [], []⟩

theorem dm_in_one_place_orderly :
    finalState orderly = some orderlyEnd ∧
      orderlyEnd.accepted = [⟨"alice--bob".toList, 2, false⟩] ∧ OnePlace orderlyEnd.tree ∧
      ∀ m ∈ orderlyEnd.accepted, ¬ (m.line = 1 ∧ m.archived = true) := by
  have hrun : finalState orderly = some orderlyEnd := by decide +kernel
  exact ⟨hrun, by decide +kernel,
    dm_in_one_place sampleTree orderly orderlyEnd sampleTree_onePlace hrun (by decide +kernel)⟩

/-- Both calls pass their checks, and the archive call is the first to get the lock. -/
def overtaken : List Action := [sendToBob, archiveWithBob, .resume 1 calm, .resume 0 calm]

def overtakenEnd : Daemon := (finalState overtaken).getD ⟨[], [], []⟩

theorem dm_in_two_places :
    OnePlace sampleTree ∧ finalState overtaken = some overtakenEnd ∧
      ¬ OnePlace overtakenEnd.tree ∧
      overtakenEnd.accepted = [⟨"alice--bob".toList, 1, true⟩] := by
  refine ⟨sampleTree_onePlace, by decide +kernel, fun hone => ?_, by decide +kernel⟩
  exact hone "alice--bob".toList ⟨by decide +kernel, by decide +kernel⟩

end Samples

end DmThreads
