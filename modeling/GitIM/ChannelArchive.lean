import GitIM.Cards
import GitIM.GitMoves

/-!
# Archiving channels and cards

A channel goes to the archive with its active cards, and comes back with the cards that went along:
each of them is stamped, moved, and all is committed at once. Where a step fails, the moves are taken
back and the stamped files restored. Cards can be archived and fetched back by hand as well.
-/

namespace ChannelArchive

open Checked TextLines TextScan FileTree GitIndex GitMoves ThreadFormat ConflictReplay DmThreads Channels
open Cards

section Paths

inductive Side where
  | active
  | archived
  deriving DecidableEq

def Side.other : Side → Side
  | active => archived
  | archived => active

def Side.front : Side → Path
  | active => "channels/".toList
  | archived => "archive/channels/".toList

def threadAt (side : Side) (channel : Text) : Path := side.front ++ (channel ++ ".thread".toList)

def metaAt (side : Side) (channel : Text) : Path := side.front ++ (channel ++ ".meta.yaml".toList)

/-- What comes before the id of a card. -/
def cardsAt (side : Side) (channel : Text) : Path := side.front ++ (channel ++ "/cards/".toList)

def cardAt (side : Side) (channel cardId : Text) : Path :=
  side.front ++ (channel ++ ("/cards/".toList ++ cardId))

theorem under_cardAt_side {a b : Side} {c d e f : Text} {p : Path} (h : Under (cardAt a c d) p)
    (h' : Under (cardAt b e f) p) : a = b := by
  obtain ⟨r, hr⟩ := h.exists_rest
  obtain ⟨r', hr'⟩ := h'.exists_rest
  have hhead := congrArg List.head? (hr.symm.trans hr')
  cases a <;> cases b <;> first
    | rfl
    | cases hhead

theorem cardAt_apart (side : Side) (channel cardId : Text) :
    Apart (cardAt side channel cardId) (cardAt side.other channel cardId) := by
  intro p h h'
  have hside := under_cardAt_side h h'
  cases side <;> cases hside

theorem threadAt_ne (side : Side) (channel : Text) :
    threadAt side channel ≠ threadAt side.other channel := by
  intro h
  have hhead := congrArg List.head? h
  cases side <;> cases hhead

theorem metaAt_ne (side : Side) (channel : Text) : metaAt side channel ≠ metaAt side.other channel := by
  intro h
  have hhead := congrArg List.head? h
  cases side <;> cases hhead

def moveCard (source : Side) (channel cardId : Text) : Move :=
  .dir (cardAt source channel cardId) (cardAt source.other channel cardId)
    (cardAt_apart source channel cardId)

def moveThread (source : Side) (channel : Text) : Move :=
  .file (threadAt source channel) (threadAt source.other channel) (threadAt_ne source channel)

def moveMeta (source : Side) (channel : Text) : Move :=
  .file (metaAt source channel) (metaAt source.other channel) (metaAt_ne source channel)

end Paths

section Calls

/-- What goes wrong with one card. -/
structure CardEnv where
  entryError : Option Text
  readError : Option Text
  write : WriteResult

/-- The commands of a rollback that git carries out; a failing one is logged, and the next one follows.
A move back is known by the place that it goes to. -/
structure Rollback where
  movesBack : Path → Bool
  resets : Path → Bool
  checksOut : Path → Bool

/-- What goes wrong during a call, and how the libraries complain. -/
structure Env where
  parentError : Option Text
  listError : Option Text
  card : Text → CardEnv
  cardsDirError : Option Text
  /-- git refuses a move for a reason of its own. -/
  moveError : Path → Option Text
  commitError : Option Text
  pushError : Option Text
  words : Text
  rollback : Rollback

inductive Answer where
  | refused (message : Text)
  | unpushed (message : Text)
  | done
  deriving DecidableEq

structure Ending where
  answer : Answer
  repo : Repo

/-- The moves are taken back one after another, as far as git goes along. -/
def Env.undo (env : Env) (moves : List Move) (r : Repo) : Repo :=
  moves.foldl (fun r m => if env.rollback.movesBack m.source then (m.back.perform r).getD r else r) r

/-- `restore_card_yaml` of one path after another. -/
def Env.restore (env : Env) (paths : List Path) (r : Repo) : Repo :=
  paths.foldl (fun r p =>
    let unstaged := if env.rollback.resets p then resetPath r p else r
    if env.rollback.checksOut p then (checkoutPath unstaged p).getD unstaged else unstaged) r

/-- Every command of a rollback succeeds. -/
structure RollsBack (env : Env) : Prop where
  moves : ∀ p, env.rollback.movesBack p = true
  resets : ∀ p, env.rollback.resets p = true
  checkouts : ∀ p, env.rollback.checksOut p = true

theorem RollsBack.undo_eq {env : Env} (h : RollsBack env) (moves : List Move) (r : Repo) :
    env.undo moves r = GitMoves.undo moves r := by
  simp only [Env.undo, GitMoves.undo, h.moves, if_true]

theorem RollsBack.restore_eq {env : Env} (h : RollsBack env) (paths : List Path) (r : Repo) :
    env.restore paths r = GitMoves.restore paths r := by
  simp only [Env.restore, GitMoves.restore, h.resets, h.checkouts, if_true]

/-- How far a loop came: the message of the failure, if there was one, and what was done before. -/
structure Progress (α : Type) where
  failed : Option Text
  done : List α
  repo : Repo

def failedOn (what cardId words : Text) : Text := what ++ (cardId ++ (": ".toList ++ words))

/-- The cards of a directory are rewritten one after another; `none` leaves a card alone. -/
def stampCards (rewrite : Text → Except Text (Option Text)) (dir : Text → Path) (env : Env) :
    List Text → List Text → Repo → Progress Text
  | [], done, r => ⟨none, done, r⟩
  | cardId :: rest, done, r =>
    match (env.card cardId).entryError with
    | some e => ⟨some ("failed to read dir entry: ".toList ++ e), done, r⟩
    | none =>
      match r.worktree.lookup (metaIn (dir cardId)), (env.card cardId).readError with
      | none, _ => stampCards rewrite dir env rest done r
      | some _, some e => ⟨some (failedOn "failed to read card meta ".toList cardId e), done, r⟩
      | some yaml, none =>
        match rewrite yaml with
        | .error e => ⟨some (failedOn "failed to parse card meta ".toList cardId e), done, r⟩
        | .ok none => stampCards rewrite dir env rest done r
        | .ok (some newYaml) =>
          match (env.card cardId).write with
          | .notOpened =>
            ⟨some (failedOn "failed to write card meta ".toList cardId env.words), done, r⟩
          | .stopped n => ⟨some (failedOn "failed to write card meta ".toList cardId env.words), done,
              { r with worktree := writeFile r.worktree (metaIn (dir cardId)) (newYaml.take n) }⟩
          | .complete => stampCards rewrite dir env rest (done ++ [cardId])
              { r with worktree := writeFile r.worktree (metaIn (dir cardId)) newYaml }

/-- The moves are made one after another, each with the message of its failure; the last one made
comes first. -/
def moveAll (env : Env) : List (Move × Text) → List Move → Repo → Progress Move
  | [], done, r => ⟨none, done, r⟩
  | (m, failure) :: rest, done, r =>
    match env.moveError m.source, m.perform r with
    | some e, _ => ⟨some (failure ++ e), done, r⟩
    | none, none => ⟨some (failure ++ env.words), done, r⟩
    | none, some r' => moveAll env rest (m :: done) r'

/-- `add_and_commit_as`. What has been staged stays staged when the commit fails. -/
def addAndCommit (env : Env) (paths : List Path) (r : Repo) : Option Text × Repo :=
  match add r paths with
  | none => (some env.words, r)
  | some staged =>
    match env.commitError, commit staged with
    | some e, _ => (some e, staged)
    | none, none => (some env.words, staged)
    | none, some committed => (none, committed)

/-- The way of a call once its cards are stamped. The moves of a failed commit are taken back in the
order `undone`. -/
def transact (env : Env) (stamped : List Path) (moves : List (Move × Text)) (undone : List Move)
    (paths : List Path) (op : Text) (commitFailed : Text → Text) (r : Repo) : Ending :=
  let moved := moveAll env moves [] r
  match moved.failed with
  | some message => ⟨.refused message, env.restore stamped (env.undo moved.done moved.repo)⟩
  | none =>
    match addAndCommit env paths moved.repo with
    | (some e, staged) => ⟨.refused (commitFailed e), env.restore stamped (env.undo undone staged)⟩
    | (none, committed) =>
      match env.pushError with
      | some e => ⟨.unpushed (op ++ (" push failed: ".toList ++ e)), committed⟩
      | none => ⟨.done, committed⟩

/-- The words of the two channel handlers. -/
structure Words where
  op : Text
  listFailed : Text
  dirFailed : Text
  commitFailed : Text → Text

/-- What the two channel handlers do once they have found their channel. -/
def moveChannel (words : Words) (source : Side) (rewrite : Text → Except Text (Option Text)) (env : Env)
    (channel : Text) (r : Repo) : Ending :=
  let cardIds := readDir (cardsAt source channel) r.worktree
  if cardIds ≠ [] ∧ env.listError ≠ none then
    ⟨.refused (words.listFailed ++ env.listError.getD []), r⟩
  else
    let stamped := stampCards rewrite (cardAt source channel) env cardIds [] r
    let metas := stamped.done.map fun id => metaIn (cardAt source channel id)
    match stamped.failed with
    | some message => ⟨.refused message, env.restore metas stamped.repo⟩
    | none =>
      if stamped.done ≠ [] ∧ env.cardsDirError ≠ none then
        ⟨.refused (words.dirFailed ++ env.cardsDirError.getD []), env.restore metas stamped.repo⟩
      else
        let cardMoves := stamped.done.map (moveCard source channel)
        let cardFailure := fun id => "git mv card ".toList ++ (cardAt source channel id ++
          " failed: ".toList)
        transact env metas
          (stamped.done.map (fun id => (moveCard source channel id, cardFailure id)) ++
            [(moveThread source channel, "git mv thread failed: ".toList),
              (moveMeta source channel, "git mv meta failed: ".toList)])
          (cardMoves.reverse ++ [moveMeta source channel, moveThread source channel])
          ([threadAt source.other channel, metaAt source.other channel] ++
            stamped.done.flatMap fun id => [metaIn (cardAt source.other channel id),
              threadIn (cardAt source.other channel id)])
          words.op words.commitFailed stamped.repo

variable (yaml : MetaCodec) (cards : CardCodec) (users : List Text)

def restamp (via : Option ArchivedVia) (info : CardMeta) : Text :=
  cards.toStr { info with archivedVia := via }

/-- Every card that goes along is stamped. -/
def stampForChannel (words yaml : Text) : Except Text (Option Text) :=
  match cards.fromStr yaml with
  | none => .error words
  | some info => .ok (some (restamp cards (some .channel) info))

/-- Only the cards with that stamp come back, without it. -/
def clearStamp (words yaml : Text) : Except Text (Option Text) :=
  match cards.fromStr yaml with
  | none => .error words
  | some info =>
    if info.archivedVia ≠ some .channel then .ok none else .ok (some (restamp cards none info))

def archiveWords : Words where
  op := "archive_channel".toList
  listFailed := "failed to read cards dir: ".toList
  dirFailed := "failed to create archive cards dir: ".toList
  commitFailed := fun e => "archive commit failed: ".toList ++ e

def unarchiveWords : Words where
  op := "unarchive_channel".toList
  listFailed := "failed to read archive cards dir: ".toList
  dirFailed := "failed to create active cards dir: ".toList
  commitFailed := fun e => "unarchive_channel commit failed: ".toList ++
    (e ++ "; rolled back git mv".toList)

def checkArchiveChannel (env : Env) (channel author : Text) (r : Repo) : Except Text Unit := do
  checkChannelName channel
  ensureAuthorNotDeparted r.worktree author
  ensureRegistered users author
  match r.worktree.lookup (metaAt .active channel) with
  | none => .error ("channel '".toList ++ (channel ++ "' does not exist".toList))
  | some content =>
    match yaml.fromStr content with
    | none => .error ("failed to parse channel meta: ".toList ++ env.words)
    | some info => do
      refuse (info.createdBy ≠ author) "only channel creator can archive".toList
      checkSome env.parentError fun e => .error ("failed to create archive dir: ".toList ++ e)

def handleArchiveChannel (env : Env) (channel author : Text) (r : Repo) : Ending :=
  match checkArchiveChannel yaml users env channel author r with
  | .error message => ⟨.refused message, r⟩
  | .ok () => moveChannel archiveWords .active (stampForChannel cards env.words) env channel r

def checkUnarchiveChannel (env : Env) (channel author : Text) (r : Repo) : Except Text Unit := do
  checkChannelName channel
  ensureRegistered users author
  match r.worktree.lookup (metaAt .archived channel) with
  | none => .error ("archive source does not exist for channel '".toList ++ (channel ++ ['\'']))
  | some content =>
    match yaml.fromStr content with
    | none => .error ("failed to parse archive channel meta: ".toList ++ env.words)
    | some info => do
      refuse (info.createdBy ≠ author) "only channel creator can unarchive".toList
      refuse ((r.worktree.lookup (metaAt .active channel)).isSome = true) ("channel '".toList ++
        (channel ++ "' already exists in active location; unarchive aborted".toList))
      checkSome env.parentError fun e => .error ("failed to create channels dir: ".toList ++ e)

def handleUnarchiveChannel (env : Env) (channel author : Text) (r : Repo) : Ending :=
  match checkUnarchiveChannel yaml users env channel author r with
  | .error message => ⟨.refused message, r⟩
  | .ok () => moveChannel unarchiveWords .archived (clearStamp cards env.words) env channel r

/-- What the two card handlers do once the card is found and read. -/
def transferCard (op dirFailed : Text) (source : Side) (via : Option ArchivedVia) (env : Env)
    (channel cardId : Text) (info : CardMeta) (r : Repo) : Ending :=
  let path := metaIn (cardAt source channel cardId)
  let written := restamp cards via info
  match (env.card cardId).write with
  | .notOpened => ⟨.refused ("failed to write card meta: ".toList ++ env.words), r⟩
  | .stopped n => ⟨.refused ("failed to write card meta: ".toList ++ env.words),
      { r with worktree := writeFile r.worktree path (written.take n) }⟩
  | .complete =>
    let stamped := { r with worktree := writeFile r.worktree path written }
    match env.cardsDirError with
    | some e => ⟨.refused (dirFailed ++ e), env.restore [path] stamped⟩
    | none =>
      transact env [path] [(moveCard source channel cardId, "git mv failed: ".toList)]
        [moveCard source channel cardId]
        [metaIn (cardAt source.other channel cardId), threadIn (cardAt source.other channel cardId)] op
        (fun e => op ++ (" commit failed: ".toList ++ (e ++ "; rolled back git mv".toList))) stamped

/-- Only the creator and the assignee of a card may move it. -/
def checkHolder (author refusal : Text) (info : CardMeta) : Except Text Unit :=
  refuse (info.createdBy ≠ author ∧ info.assignee ≠ some author) refusal

def checkArchiveCard (channel cardId author : Text) (r : Repo) : Except Text CardMeta := do
  ensureAuthorNotDeparted r.worktree author
  ensureRegistered users author
  checkChannelName channel
  validateCardId cardId
  match locateCard r.worktree channel cardId with
  | none => .error (cardNotFound channel cardId)
  | some located => do
    refuse (located.isArchived = true)
      ("card '".toList ++ (cardId ++ "' is already archived".toList))
    let info ← readCard cards r.worktree located.relPath channel cardId
    checkHolder author "only creator or assignee can archive".toList info
    .ok info

def handleArchiveCard (env : Env) (channel cardId author : Text) (r : Repo) : Ending :=
  match checkArchiveCard cards users channel cardId author r with
  | .error message => ⟨.refused message, r⟩
  | .ok info => transferCard cards "archive_card".toList "failed to create archive dir: ".toList .active
      (some .manual) env channel cardId info r

def checkUnarchiveCard (channel cardId author : Text) (r : Repo) : Except Text CardMeta := do
  ensureRegistered users author
  checkChannelName channel
  validateCardId cardId
  match locateCard r.worktree channel cardId with
  | none => .error (cardNotFound channel cardId)
  | some located => do
    refuse (located.isArchived = false) ("card '".toList ++ (cardId ++ "' is not archived".toList))
    refuse (fileExists r.worktree (threadAt .active channel) = false)
      ("cannot unarchive card: channel '".toList ++
        (channel ++ "' is not active (may be archived or deleted)".toList))
    let info ← readCard cards r.worktree located.relPath channel cardId
    checkHolder author "only creator or assignee can unarchive".toList info
    .ok info

def handleUnarchiveCard (env : Env) (channel cardId author : Text) (r : Repo) : Ending :=
  match checkUnarchiveCard cards users channel cardId author r with
  | .error message => ⟨.refused message, r⟩
  | .ok info => transferCard cards "unarchive_card".toList "failed to create cards dir: ".toList .archived
      none env channel cardId info r

inductive Call where
  | archiveChannel (channel author : Text)
  | unarchiveChannel (channel author : Text)
  | archiveCard (channel cardId author : Text)
  | unarchiveCard (channel cardId author : Text)

/-- A call and the circumstances in which it is made. -/
structure Action where
  call : Call
  users : List Text
  env : Env

def handle (a : Action) (r : Repo) : Ending :=
  match a.call with
  | .archiveChannel channel author => handleArchiveChannel yaml cards a.users a.env channel author r
  | .unarchiveChannel channel author => handleUnarchiveChannel yaml cards a.users a.env channel author r
  | .archiveCard channel cardId author => handleArchiveCard cards a.users a.env channel cardId author r
  | .unarchiveCard channel cardId author =>
    handleUnarchiveCard cards a.users a.env channel cardId author r

def step (r : Repo) (a : Action) : Option Repo := some (handle yaml cards a r).repo

end Calls

end ChannelArchive
