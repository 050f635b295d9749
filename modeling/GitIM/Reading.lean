import GitIM.PollSecrecy
import GitIM.Ranking

/-!
# Reading handlers

`handle_read`, `handle_get_thread` and `handle_search`. Each of them decides for itself
what its user may see. A search goes through the files of three directories in the order
in which these are listed.
-/

namespace Reading

open TextLines TextScan FileTree Checked ThreadFormat DmThreads Channels Poll PollSecrecy Ranking

section Answers

inductive ReadRequest where
  | read (channel : Text) (limit since : Option Nat)
  | getThread (channel : Text) (lineNumber : Nat)
  | search (query : Text)
  deriving DecidableEq

structure SearchMessage where
  channel : Text
  channelType : Text
  lineNumber : Nat
  parentLine : Nat
  author : Text
  timestamp : Text
  body : Text
  deriving DecidableEq

/-- A panic of the parser ends a read without a response; a search reports that its task failed,
without saying where. -/
inductive Answer (Json : Type) where
  | error (message : Text)
  | read (channel : Text) (entries : List (PollEntry Json)) (archived : Bool)
  | thread (channel : Text) (rootLine : Nat) (entries : List (PollEntry Json))
  | found (messages : List SearchMessage)
  | panicked
  deriving DecidableEq

end Answers

section Threads
variable {Json : Type} (readers : Readers Json) (tree : FileMap) (viewer : Viewer)

def archivedThreadPath (channel : Text) : Path :=
  "archive/channels/".toList ++ (channel ++ ".thread".toList)

/-- Where a conversation is stored: the pair of a direct message, or a channel. -/
inductive Place where
  | dm (first second : Text)
  | channel (name : Text)
  deriving DecidableEq

def resolveThreadPath (channel : Text) : Except Text Place :=
  match stripPrefix "dm:".toList channel with
  | some rest =>
    match rest.splitOn ',' with
    | [first, second] => do
      let h₁ ← checkHandler first "invalid DM handler".toList
      let h₂ ← checkHandler second "invalid DM handler".toList
      .ok (.dm h₁.name h₂.name)
    | _ => .error "DM format must be dm:handler1,handler2".toList
  | none => (checkChannelName channel).map fun _ => .channel channel

def Place.path : Place → Path
  | dm first second => dmPath (dmFilename first second)
  | channel name => threadPath name

def Place.archivedPath : Place → Path
  | dm first second => archivedDmPath (dmFilename first second)
  | channel name => archivedThreadPath name

/-- Whether a reader is refused; a channel without readable metadata is open to everyone. -/
def notMember (name : Text) : Bool :=
  !viewer.isAdmin && !viewer.isGuest && viewer.user.any fun me =>
    ((tree.lookup (metaPath name)).bind readers.channel.fromStr).any fun info => me ∉ info.members

/-- The file that is read, and whether it is the archived one. -/
def withArchive (path archived : Path) : Path × Bool :=
  if fileExists tree path = false ∧ fileExists tree archived = true then (archived, true)
  else (path, false)

/-- The recipients of the entries of a place. -/
def Place.enrich : Place → Except Text (ThreadEntry Json → PollEntry Json)
  | dm first second => .ok (withRecipients fun _ =>
      (dmMembers (dmPath (dmFilename first second))).map fun pair =>
        [pair.1, pair.2].insertionSort fun a b => a ≤ b)
  | channel name => (channelRecipients readers tree name).map withRecipients

def parseErrorAnswer (e : ParseError) : Answer Json :=
  .error ("parse error: ".toList ++ parseErrorText e)

/-- What is left of the entries behind `since` and up to `limit`. -/
def selectEntries (limit since : Option Nat) (entries : List (ThreadEntry Json)) :
    List (ThreadEntry Json) :=
  let later := match since with
    | some line => entries.filter fun e => line < e.lineNumber
    | none => entries
  match limit, since with
  | some n, some _ => later.take n
  | some n, none => later.drop (later.length - n)
  | none, _ => later

/-- The answer that is made of the entries of a place; the flag says whether they are archived. -/
def answerFrom (place : Place) (answer : Bool → (ThreadEntry Json → PollEntry Json) →
    List (ThreadEntry Json) → Answer Json) : Answer Json :=
  let (path, archived) := withArchive tree place.path place.archivedPath
  match parseThread readers.json ((tree.lookup path).getD []) with
  | .error (.error e) => parseErrorAnswer e
  | .error (.panicParseU64 _) => .panicked
  | .ok file =>
    match place.enrich readers tree with
    | .error _ => .panicked
    | .ok enrich => answer archived enrich file.entries

def handleRead (channel : Text) (limit since : Option Nat) : Answer Json :=
  match resolveThreadPath channel with
  | .error message => .error message
  | .ok place =>
    let refused := match place with
      | .dm _ _ => false
      | .channel name => notMember readers tree viewer name
    if refused then .error "not_member".toList
    else answerFrom readers tree place fun archived enrich entries =>
      .read channel ((selectEntries limit since entries).map enrich) archived

end Threads

section ThreadView
variable {Json : Type}

def dropEntries (entries : List (ThreadEntry Json)) (line : Nat) : List (ThreadEntry Json) :=
  entries.filter fun e => e.lineNumber ≠ line

theorem length_dropEntries_lt {entries : List (ThreadEntry Json)} {line : Nat}
    {e : ThreadEntry Json} (h : entries.reverse.find? (fun e => e.lineNumber = line) = some e) :
    (dropEntries entries line).length < entries.length := by
  have hline : e.lineNumber = line := by simpa using List.find?_some h
  exact List.length_filter_lt_length_iff_exists.mpr
    ⟨e, List.mem_reverse.mp (List.mem_of_find?_eq_some h), by simp [hline]⟩

/-- Up the parents to the first line whose parent is missing. Of several entries of a line the
last counts, and the entries of visited lines are dropped, so that a cycle ends. -/
def rootLine (all unseen : List (ThreadEntry Json)) (line : Nat) : Nat :=
  match _h : unseen.reverse.find? (fun e => e.lineNumber = line) with
  | none => line
  | some e =>
    if e.pointTo = 0 ∨ e.pointTo ∉ all.map ThreadEntry.lineNumber then line
    else rootLine all (dropEntries unseen line) e.pointTo
termination_by unseen.length
decreasing_by exact length_dropEntries_lt _h

/-- The entries of the lines of a stack and of all that point to them. A line is expanded once:
`unvisited` are the lines that have not been. -/
def collect (entries : List (ThreadEntry Json)) (unvisited : List Nat) :
    List Nat → List (ThreadEntry Json)
  | [] => []
  | target :: stack =>
    if _h : target ∈ unvisited then
      let here := entries.filter fun e => e.lineNumber = target ∨ e.pointTo = target
      let below := (here.map ThreadEntry.lineNumber).filter fun line => line ≠ target
      here ++ collect entries (unvisited.erase target) (below.reverse ++ stack)
    else collect entries unvisited stack
termination_by stack => (unvisited.length, stack.length)
decreasing_by
  · apply Prod.Lex.left
    rw [List.length_erase_of_mem _h]
    have hpos : 0 < unvisited.length := List.length_pos_of_mem _h
    omega
  · apply Prod.Lex.right
    exact Nat.lt_succ_self _

/-- One entry of each line, of a list that is sorted by lines. -/
def dedupFrom (line : Option Nat) : List (ThreadEntry Json) → List (ThreadEntry Json)
  | [] => []
  | e :: rest =>
    if some e.lineNumber = line then dedupFrom line rest
    else e :: dedupFrom (some e.lineNumber) rest

def threadOf (entries : List (ThreadEntry Json)) (root : Nat) : List (ThreadEntry Json) :=
  let unvisited := (root :: entries.map ThreadEntry.lineNumber).dedup
  dedupFrom none ((collect entries unvisited [root]).insertionSort fun a b =>
    a.lineNumber ≤ b.lineNumber)

variable (readers : Readers Json) (tree : FileMap)

def handleGetThread (channel : Text) (lineNumber : Nat) : Answer Json :=
  match checkChannelName channel with
  | .error message => .error message
  | .ok _ =>
    answerFrom readers tree (.channel channel) fun _ enrich entries =>
      let root := rootLine entries entries lineNumber
      .thread channel root ((threadOf entries root).map enrich)

end ThreadView

section Search

def searchResultLimit : Nat := 10

def newestFirst (left right : SearchMessage) : Ordering :=
  (compare right.timestamp left.timestamp).then ((compare left.channel right.channel).then
    (compare right.lineNumber left.lineNumber))

def insertLatestMatch (messages : List SearchMessage) (message : SearchMessage) :
    List SearchMessage :=
  keepFirst newestFirst searchResultLimit messages message

variable {Json : Type} (readers : Readers Json) (toLowercase : Text → Text)

/-- The messages of a thread that match a query. A file that cannot be parsed is skipped. -/
def threadMatches (content channel channelType query : Text) :
    Except Unit (List SearchMessage) :=
  match parseThread readers.json content with
  | .error (.error _) => .ok []
  | .error (.panicParseU64 _) => .error ()
  | .ok file => .ok (file.entries.filterMap fun
    | .message m => if query <:+: toLowercase m.body then
        some ⟨channel, channelType, m.lineNumber, m.pointTo, m.author.name, m.timestamp, m.body⟩
      else none
    | .event _ => none)

def scanThread (channelType query : Text) (found : List SearchMessage) (thread : Text × Text) :
    Except Unit (List SearchMessage) :=
  (threadMatches readers toLowercase thread.2 thread.1 channelType query).map fun messages =>
    messages.foldl insertLatestMatch found

/-- The stem of a file of a directory; a name that is nothing but `.thread` has no extension. -/
def threadStem (directory path : Path) : Option Text := do
  let rest ← stripPrefix directory path
  if '/' ∈ rest then none
  else do
    let stem ← stripSuffix ".thread".toList rest
    if stem = [] then none else some stem

def channelForPath (path : Path) : Option Text := threadStem "channels/".toList path

def dmForPath (me : Text) (path : Path) : Option Text := do
  let stem ← threadStem "dm/".toList path
  let (first, second) ← parseDmFilename stem
  if first = me ∨ second = me then some stem else none

/-- The identifier of the card whose discussion is stored at a path. -/
def cardIdentifier (path : Path) : Option Text := do
  let (channel, cardId, file) ← cardPath path
  if channel = [] ∨ cardId = [] ∨ file ≠ "discussion.thread".toList then none
  else some ("channels/".toList ++ (channel ++ ("/cards/".toList ++ cardId)))

/-- The threads of a listing that have an identifier. -/
def threadsOf (identify : Path → Option Text) (listed : FileMap) : List (Text × Text) :=
  listed.filterMap fun (path, content) => (identify path).map fun id => (id, content)

def scanThreads (channelType query : Text) (threads : List (Text × Text))
    (found : List SearchMessage) : Except Unit (List SearchMessage) :=
  threads.foldlM (scanThread readers toLowercase channelType query) found

def searchMessages (listed : FileMap) (user : Option Text) (query : Text) :
    Except Unit (List SearchMessage) := do
  let query := toLowercase query
  let found ← scanThreads readers toLowercase "channel".toList query (threadsOf channelForPath listed) []
  let found ← scanThreads readers toLowercase "card".toList query (threadsOf cardIdentifier listed) found
  match user with
  | none => .ok found
  | some me =>
    scanThreads readers toLowercase "dm".toList query (threadsOf (dmForPath me) listed) found

def handleSearch (listed : FileMap) (user : Option Text) (query : Text) : Answer Json :=
  if trim query = [] then .error "search requires a non-empty query".toList
  else match searchMessages readers toLowercase listed user query with
    | .ok messages => .found messages
    | .error _ => .panicked

end Search

section Respond
variable {Json : Type} (readers : Readers Json) (toLowercase : Text → Text)

/-- The answer to a request, over the files in the order in which the directories list them. -/
def respond (listed : FileMap) (viewer : Viewer) : ReadRequest → Answer Json
  | .read channel limit since => handleRead readers listed viewer channel limit since
  | .getThread channel lineNumber => handleGetThread readers listed channel lineNumber
  | .search query => handleSearch readers toLowercase listed viewer.user query

end Respond

end Reading
