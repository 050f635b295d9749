import GitIM.Departure
import GitIM.GitIndex

/-!
# Departures, step by step

A departure takes the commit lock once for each thread, direct message and channel, and once more for
the user itself. Between two of its steps others write, any step can fail, and a call that failed is
made again. What it has already committed stays.
-/

namespace DepartureSteps

open TextLines TextScan FileTree GitIndex Checked ThreadFormat ThreadValidation ConflictReplay
  DmThreads Channels Departure

section Calls

/-- An attempt to push. Without a remote nothing is in the way. What a rebase brings in is the step of
another writer. -/
inductive Attempt where
  | pushed
  | rebased
  | fetchFailed (e : Text)
  | rebaseFailed (e : Text)
  | pushFailed (e : Text)

/-- What the clock, the file system and git answer during one step. -/
structure Weather where
  now : Text
  /-- The directories can be listed; where not, nothing is found in them. -/
  listed : Bool
  readable : Bool
  write : WriteResult
  dirError : Option Text
  /-- git refuses a move for a reason of its own. -/
  moveError : Path → Option Text
  commitError : Option Text
  /-- What was moved is moved back when a later step of the call fails. -/
  rolledBack : Bool
  /-- How the file behind a failed commit is written over with its old text. -/
  restored : WriteResult
  /-- How pushing goes, by the attempts that are left. -/
  attempt : Nat → Attempt
  /-- What a library complains about. -/
  words : Text

inductive Answer where
  | failed (message : Text)
  | panicParseU64 (digits : Text)
  | already
  | departed (commits : Nat)
  deriving DecidableEq

/-- Where a call is: in front of the next file of a phase, or waiting for the commit lock. -/
inductive Position where
  | telling (paths : List Path)
  | appending (path : Path) (rest : List Path)
  | archiving (stems : List Text)
  | moving (stem : Text) (rest : List Text)
  | cleaning (channels : List Text)
  | rewriting (channel : Text) (rest : List Text)
  | retiring
  | leaving
  deriving DecidableEq

inductive Next where
  | goOn (position : Position) (commits : Nat)
  | answered (answer : Answer)

structure Outcome where
  workspace : Workspace
  next : Next

/-- How a file is called in a message. -/
def display (root : Path) (path : Path) : Text := root ++ ('/' :: path)

def Outcome.fail (w : Workspace) (message : Text) : Outcome := ⟨w, .answered (.failed message)⟩

def maxPushRetries : Nat := 3

/-- `push_with_retry`: what is wrong at its end. -/
def pushWithRetry (attempt : Nat → Attempt) (phase : Text) : Nat → Option Text
  | 0 => some (phase ++ ": push still conflicting after 3 retries".toList)
  | left + 1 =>
    match attempt left with
    | .pushed => none
    | .rebased => pushWithRetry attempt phase left
    | .fetchFailed e => some (phase ++ (": fetch failed: ".toList ++ e))
    | .rebaseFailed e => some (phase ++ (": rebase failed: ".toList ++ e))
    | .pushFailed e => some (phase ++ (": push failed: ".toList ++ e))

/-- Behind a commit. -/
def pushThen (weather : Weather) (phase : Text) (w : Workspace) (next : Next) : Outcome :=
  match pushWithRetry weather.attempt phase maxPushRetries with
  | some e => .fail w e
  | none => ⟨w, next⟩

variable {Json : Type} (json : EventJson Json) (yaml : MetaCodec) (root : Path) (weather : Weather)
  (w : Workspace) (handler : Handler) (commits : Nat)

/-- Nothing is to be told by a user that has not written, or has said goodbye. -/
def NothingToTell (file : ThreadFile Json) : Prop :=
  threadHasAuthor handler file.entries = false ∨ lastEntryIsLeaveWorkspace handler file.entries = true

instance decidableNothingToTell (file : ThreadFile Json) : Decidable (NothingToTell handler file) :=
  inferInstanceAs (Decidable (_ ∨ _))

/-- The look at a thread before the lock. -/
def lookAtThread (path : Path) (rest : List Path) : Outcome :=
  match w.tree.lookup path with
  | none => ⟨w, .goOn (.telling rest) commits⟩
  | some content =>
    if weather.readable then
      match parseThread json.toJsonCodec content with
      | .error (.panicParseU64 digits) => ⟨w, .answered (.panicParseU64 digits)⟩
      | .error (.error _) => ⟨w, .goOn (.telling rest) commits⟩
      | .ok file =>
        if NothingToTell handler file then ⟨w, .goOn (.telling rest) commits⟩
        else ⟨w, .goOn (.appending path rest) commits⟩
    else ⟨w, .goOn (.telling rest) commits⟩

/-- A text that could not be committed is replaced by the old one; a write that stops has cut the
file off first. -/
def writeBack (path : Path) (old written : Text) : FileMap :=
  match weather.restored with
  | .notOpened => writeFile w.tree path written
  | .stopped n => writeFile w.tree path (old.take n)
  | .complete => writeFile w.tree path old

def leaveEvent (entries : List (ThreadEntry Json)) : Text :=
  formatEvent json.toJsonCodec (nextLine (lastLineNumber entries)) handler weather.now
    "leave-workspace".toList json.empty

/-- The thread is read once more, as empty if that fails. -/
def appendLocked (path : Path) (rest : List Path) : Outcome :=
  let cur := if weather.readable then (w.tree.lookup path).getD [] else []
  match parseThread json.toJsonCodec cur with
  | .error (.panicParseU64 digits) => ⟨w, .answered (.panicParseU64 digits)⟩
  | .error (.error _) => .fail w ("phase1: failed to parse ".toList ++ (display root path ++
      (" under lock: ".toList ++ weather.words)))
  | .ok file =>
    if NothingToTell handler file then ⟨w, .goOn (.telling rest) commits⟩
    else
      let appended := cur ++ leaveEvent json weather handler file.entries
      match weather.write with
      | .notOpened => .fail w ("phase1: open ".toList ++ (display root path ++ (" failed: ".toList ++
          weather.words)))
      | .stopped n => .fail ⟨writeFile w.tree path (cur ++
            (leaveEvent json weather handler file.entries).take n), w.users⟩
          ("phase1: append to ".toList ++ (display root path ++ (" failed: ".toList ++ weather.words)))
      | .complete =>
        match weather.commitError with
        | some e => .fail ⟨writeBack weather w path cur appended, w.users⟩
            ("phase1: commit failed for ".toList ++ (display root path ++ (": ".toList ++ e)))
        | none => pushThen weather "phase1".toList ⟨writeFile w.tree path appended, w.users⟩
            (.goOn (.telling rest) (commits + 1))

/-- The direct messages are listed, and their archive is made if there are any. -/
def listDms : Outcome :=
  let stems := if weather.listed then departTargets w.tree handler.name else []
  match stems, weather.dirError with
  | _ :: _, some e => .fail w ("phase2: failed to create archive/dm dir: ".toList ++ e)
  | stems, _ => ⟨w, .goOn (.archiving stems) commits⟩

def lookAtDm (stem : Text) (rest : List Text) : Outcome :=
  if fileExists w.tree (archivedDmPath stem) = true ∨ fileExists w.tree (dmPath stem) = false then
    ⟨w, .goOn (.archiving rest) commits⟩
  else ⟨w, .goOn (.moving stem rest) commits⟩

/-- A move as git makes it. -/
def tryMove (tree : FileMap) (source target : Path) : Except Text FileMap :=
  match weather.moveError source, gitMv tree source target with
  | some e, _ => .error e
  | none, none => .error weather.words
  | none, some after => .ok after

/-- A move is taken back. -/
def moveBack (tree : FileMap) (source target : Path) : FileMap :=
  if weather.rolledBack then (gitMv tree target source).getD tree else tree

def moveLocked (stem : Text) (rest : List Text) : Outcome :=
  match tryMove weather w.tree (dmPath stem) (archivedDmPath stem) with
  | .error e => .fail w ("phase2: git mv ".toList ++ (stem ++ (" failed: ".toList ++ e)))
  | .ok after =>
    match weather.commitError with
    | some e => .fail ⟨moveBack weather after (dmPath stem) (archivedDmPath stem), w.users⟩
        ("phase2: commit failed for ".toList ++ (stem ++ (": ".toList ++ e)))
    | none => pushThen weather "phase2".toList ⟨after, w.users⟩
        (.goOn (.archiving rest) (commits + 1))

def lookAtChannel (channel : Text) (rest : List Text) : Outcome :=
  match (w.tree.lookup (metaPath channel)).bind yaml.fromStr with
  | none => ⟨w, .goOn (.cleaning rest) commits⟩
  | some info =>
    if weather.readable ∧ handler.name ∈ info.members then ⟨w, .goOn (.rewriting channel rest) commits⟩
    else ⟨w, .goOn (.cleaning rest) commits⟩

def rewriteLocked (channel : Text) (rest : List Text) : Outcome :=
  match w.tree.lookup (metaPath channel), weather.readable with
  | some content, true =>
    match yaml.fromStr content with
    | none => .fail w ("phase3: parse ".toList ++ (metaPath channel ++ (" under lock: ".toList ++
        weather.words)))
    | some info =>
      if handler.name ∈ info.members then
        let written := yaml.toStr (without handler.name info)
        match weather.write with
        | .notOpened => .fail w ("phase3: write ".toList ++ (metaPath channel ++
            (" failed: ".toList ++ weather.words)))
        | .stopped n => .fail ⟨writeFile w.tree (metaPath channel) (written.take n), w.users⟩
            ("phase3: write ".toList ++ (metaPath channel ++ (" failed: ".toList ++ weather.words)))
        | .complete =>
          match weather.commitError with
          | some e => .fail ⟨writeBack weather w (metaPath channel) content written, w.users⟩
              ("phase3: commit ".toList ++ (metaPath channel ++ (" failed: ".toList ++ e)))
          | none => pushThen weather "phase3".toList
              ⟨writeFile w.tree (metaPath channel) written, w.users⟩
              (.goOn (.cleaning rest) (commits + 1))
      else ⟨w, .goOn (.cleaning rest) commits⟩
  | _, _ => .fail w ("phase3: read ".toList ++ (metaPath channel ++ (" under lock: ".toList ++
      weather.words)))

def lookAtUser : Outcome :=
  if fileExists w.tree (departedPath handler.name) then ⟨w, .answered (.departed commits)⟩
  else if fileExists w.tree (userPath handler.name) = false then
    .fail w ("phase4: users/".toList ++ (handler.name ++
      ".meta.yaml is missing and not in archive/ either".toList))
  else match weather.dirError with
    | some e => .fail w ("phase4: failed to create archive/users dir: ".toList ++ e)
    | none => ⟨w, .goOn .leaving commits⟩

/-- The end of phase 4: the commit, and what is left to do behind it. -/
def commitLeave (undone after : FileMap) : Outcome :=
  match weather.commitError with
  | some e => .fail ⟨undone, w.users⟩ ("phase4: commit failed: ".toList ++ (e ++
      "; rolled back git mv".toList))
  | none =>
    match pushWithRetry weather.attempt "phase4".toList maxPushRetries with
    | some e => .fail ⟨after, w.users⟩ e
    | none => ⟨⟨after, w.users.filter (· ≠ handler.name)⟩, .answered (.departed (commits + 1))⟩

/-- The file of the user goes to the archive, and its board with it. -/
def leaveLocked : Outcome :=
  match tryMove weather w.tree (userPath handler.name) (departedPath handler.name) with
  | .error e => .fail w ("phase4: git mv failed: ".toList ++ e)
  | .ok gone =>
    let back := fun tree => moveBack weather tree (userPath handler.name) (departedPath handler.name)
    if fileExists gone (boardPath handler.name) then
      match weather.dirError with
      | some e => .fail ⟨back gone, w.users⟩ ("phase4: failed to create archive/showboards dir: ".toList ++
          e)
      | none =>
        match tryMove weather gone (boardPath handler.name) (archivedBoardPath handler.name) with
        | .error e => .fail ⟨back gone, w.users⟩ ("phase4: board git mv failed: ".toList ++ (e ++
            "; rolled back meta git mv".toList))
        | .ok after => commitLeave weather w handler commits
            (back (moveBack weather after (boardPath handler.name) (archivedBoardPath handler.name))) after
    else commitLeave weather w handler commits (back gone) gone

/-- One step of a call. -/
def advance : Position → Outcome
  | .telling (path :: rest) => lookAtThread json weather w handler commits path rest
  | .telling [] => listDms weather w handler commits
  | .appending path rest => appendLocked json root weather w handler commits path rest
  | .archiving (stem :: rest) => lookAtDm w commits stem rest
  | .archiving [] => ⟨w, .goOn (.cleaning (if weather.listed then channelNames w.tree else [])) commits⟩
  | .moving stem rest => moveLocked weather w commits stem rest
  | .cleaning (channel :: rest) => lookAtChannel yaml weather w handler commits channel rest
  | .cleaning [] => ⟨w, .goOn .retiring commits⟩
  | .rewriting channel rest => rewriteLocked yaml weather w handler commits channel rest
  | .retiring => lookAtUser weather w handler commits
  | .leaving => leaveLocked weather w handler commits

/-- The beginning of `handle_depart_user`. A user that has departed is only pushed once more. -/
def beginDeparture (name : Text) : Except Answer (Handler × Position) := do
  let h ← (checkHandler name "invalid handler".toList).mapError .failed
  if fileExists w.tree (departedPath name) then
    match pushWithRetry weather.attempt "depart_user(terminal-resync)".toList maxPushRetries with
    | some e => .error (.failed e)
    | none => .error .already
  else do
    refuse (fileExists w.tree (userPath name) = false)
      (.failed ("user @".toList ++ (name ++ " not found".toList)))
    .ok (h, .telling (if weather.listed then threadPaths w.tree else []))

end Calls

section World
variable {Json : Type} (json : EventJson Json) (yaml : MetaCodec) (root : Path)

/-- A call on its way. -/
structure Departing where
  handler : Handler
  position : Position
  commits : Nat

structure World where
  workspace : Workspace
  calls : List Departing
  answers : List (Text × Answer)

/-- A call is made, a call makes its next step, or another writer appends entries to a thread. -/
inductive Action where
  | depart (name : Text) (weather : Weather)
  | resume (index : Nat) (weather : Weather)
  | append (path : Path) (text : Text)

/-- An active thread: a channel's or a direct message's. -/
def ActiveThread (path : Path) : Prop :=
  path ∈ collectThreadPaths "channels/".toList [(path, [])] ∨
    path ∈ collectThreadPaths "dm/".toList [(path, [])]

instance decidableActiveThread (path : Path) : Decidable (ActiveThread path) :=
  inferInstanceAs (Decidable (_ ∨ _))

/-- All writers read the thread first, a missing one as empty, and give up where it does not parse. -/
def appendEntries (tree : FileMap) (path : Path) (text : Text) : FileMap :=
  match parseThread json.toJsonCodec ((tree.lookup path).getD []) with
  | .error _ => tree
  | .ok _ => if ActiveThread path then writeFile tree path ((tree.lookup path).getD [] ++ text) else tree

/-- The call at a place goes on, or is answered. -/
def settle (world : World) (index : Nat) (call : Departing) (o : Outcome) : World :=
  match o.next with
  | .goOn position commits =>
    ⟨o.workspace, world.calls.set index ⟨call.handler, position, commits⟩, world.answers⟩
  | .answered answer => ⟨o.workspace, world.calls.eraseIdx index,
      world.answers ++ [(call.handler.name, answer)]⟩

def departureStep (world : World) : Action → Option World
  | .depart name weather =>
    match beginDeparture weather world.workspace name with
    | .error answer => some { world with answers := world.answers ++ [(name, answer)] }
    | .ok (h, position) => some { world with calls := world.calls ++ [⟨h, position, 0⟩] }
  | .resume index weather =>
    (world.calls[index]?).map fun call => settle world index call
      (advance json yaml root weather world.workspace call.handler call.commits call.position)
  | .append path text => some
      { world with workspace := { world.workspace with
        tree := appendEntries json world.workspace.tree path text } }

end World

section Effects
variable {Json : Type} {json : EventJson Json} {yaml : MetaCodec} {root : Path} {weather : Weather}
  {handler : Handler} {commits : Nat} {w : Workspace} {tree gone after back : FileMap}
  {source target : Path}

theorem gitMv_frame {p : Path} (hmove : gitMv tree source target = some gone) (hsource : p ≠ source)
    (htarget : p ≠ target) : gone.lookup p = tree.lookup p := by
  obtain ⟨content, -, -, hlookup⟩ := gitMv_eq_some hmove
  rw [hlookup, if_neg htarget, if_neg hsource]

/-- The places that a user takes up itself. -/
def OfUser (name : Text) (path : Path) : Prop :=
  path = userPath name ∨ path = departedPath name ∨ path = boardPath name ∨ path = archivedBoardPath name

/-- The user is in the archive, and its board too. -/
structure Gone (name : Text) (tree after : FileMap) : Prop where
  user : ∃ content, tree.lookup (userPath name) = some content ∧
    after.lookup (departedPath name) = some content
  nobody : after.lookup (userPath name) = none
  board : after.lookup (boardPath name) = none
  kept : ∀ content, tree.lookup (boardPath name) = some content →
    after.lookup (archivedBoardPath name) = some content

variable (json yaml weather handler tree) in
/-- What a step can do to the files. -/
inductive Effect : Position → FileMap → Prop where
  | same {position : Position} {after : FileMap} (h : Agree after tree) : Effect position after
  | told {path : Path} {rest : List Path} {content text : Text} {file : ThreadFile Json}
      (hcontent : tree.lookup path = some content)
      (hfile : parseThread json.toJsonCodec content = .ok file)
      (htext : text = leaveEvent json weather handler file.entries ∨ ∃ n, weather.write = .stopped n) :
      Effect (.appending path rest) (writeFile tree path (content ++ text))
  | cut {path : Path} {rest : List Path} {text : Text} {n : Nat}
      (hrestored : weather.restored = .stopped n) : Effect (.appending path rest) (writeFile tree path text)
  | archived {stem : Text} {rest : List Text} {after : FileMap}
      (hmove : gitMv tree (dmPath stem) (archivedDmPath stem) = some after) : Effect (.moving stem rest) after
  | rewritten {channel content text : Text} {rest : List Text} {info : ChannelMeta}
      (hcontent : tree.lookup (metaPath channel) = some content) (hinfo : yaml.fromStr content = some info)
      (htext : text = yaml.toStr (without handler.name info) ∨
        ∃ n, weather.write = .stopped n ∨ weather.restored = .stopped n) :
      Effect (.rewriting channel rest) (writeFile tree (metaPath channel) text)
  | left {after : FileMap} (hframe : ∀ p, ¬ OfUser handler.name p → after.lookup p = tree.lookup p)
      (hgone : weather.rolledBack = true → Gone handler.name tree after) : Effect .leaving after

@[simp] theorem head_userPath (name : Text) : (userPath name).head? = some 'u' := rfl

@[simp] theorem head_departedPath (name : Text) : (departedPath name).head? = some 'a' := rfl

@[simp] theorem head_boardPath (name : Text) : (boardPath name).head? = some 's' := rfl

@[simp] theorem head_archivedBoardPath (name : Text) : (archivedBoardPath name).head? = some 'a' := rfl

theorem userPath_ne_departedPath (a b : Text) : userPath a ≠ departedPath b := fun h => by
  simpa using congrArg List.head? h

theorem userPath_ne_boardPath (a b : Text) : userPath a ≠ boardPath b := fun h => by
  simpa using congrArg List.head? h

theorem userPath_ne_archivedBoardPath (a b : Text) : userPath a ≠ archivedBoardPath b := fun h => by
  simpa using congrArg List.head? h

theorem departedPath_ne_boardPath (a b : Text) : departedPath a ≠ boardPath b := fun h => by
  simpa using congrArg List.head? h

theorem boardPath_ne_archivedBoardPath (a b : Text) : boardPath a ≠ archivedBoardPath b := fun h => by
  simpa using congrArg List.head? h

/-- `archive/users/` and `archive/showboards/` differ behind the first slash. -/
theorem departedPath_ne_archivedBoardPath (a b : Text) : departedPath a ≠ archivedBoardPath b := by
  intro h
  have hleft : (departedPath a)[8]? = some 'u' := rfl
  have hright : (archivedBoardPath b)[8]? = some 's' := rfl
  rw [h, hright] at hleft
  simp at hleft

end Effects

end DepartureSteps
