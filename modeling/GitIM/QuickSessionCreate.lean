import GitIM.QuickSession
import GitIM.TableCodec
import GitIM.WebSends

/-!
# Creating a quick session twice

A client that has lost the answer creates its session again. The daemon recognises the session if
its metadata name the same parties and its first message is the one that is asked for. Both are
compared after the message has been written out and read once; what is stored has been through this
twice.
-/

namespace QuickSessionCreate

open Checked TextLines TextScan FileTree ThreadFormat ThreadGrammar ThreadRoundTrip ThreadValidation
  ThreadReading DmThreads QuickSession WebSends TableCodec ThreadMerge

/-- Reading and writing of session metadata as YAML. -/
structure SessionYaml where
  fromStr : Text → Except Text QuickSessionMeta
  toStr : QuickSessionMeta → Text

structure Library (Json : Type) where
  json : JsonCodec Json
  isObject : Json → Bool
  yaml : SessionYaml

/-- What a call meets: the repository, the registered users, the time, and what the disk and git
refuse to do. -/
structure World where
  tree : FileMap
  users : List Text
  now : Text
  stamp : TimestampShape now
  writeError : Option Text
  commitError : Option Text
  /-- Which files are removed when the directory of a failed session is. -/
  removes : Path → Bool

structure Request where
  sessionId : Text
  agentId : Text
  firstMessage : Text
  author : Text

structure Detail (Json : Type) where
  info : QuickSessionMeta
  entries : List (ThreadEntry Json)
  archived : Bool
  deriving DecidableEq

structure Located where
  relDir : Path
  archived : Bool

/-- An error response, or none at all after a panic. -/
inductive Refusal where
  | error (message : Text) (code : Option Text)
  | panicked
  deriving DecidableEq

inductive Reply (Json : Type) where
  | refused (refusal : Refusal)
  | existing (detail : Detail Json)
  | created (detail : Detail Json)
  deriving DecidableEq

section Model
variable {Json : Type} (lib : Library Json)

def errorCode : QuickSessionError → Text
  | .unauthorizedActor => "quick_session_forbidden".toList
  | .staleAttempt => "quick_session_stale_attempt".toList
  | .titleRequired => "quick_session_title_required".toList
  | .invalidState | .staleInputLine | .inputLineMismatch | .invalidLineNumber =>
    "quick_session_invalid_state".toList
  | .invalidSessionId => "invalid_quick_session_id".toList
  | _ => "invalid_quick_session".toList

def errorResponse (e : QuickSessionError) : Refusal := .error e.text (some (errorCode e))

/-- The answer to a parse that has failed; one that has panicked leaves none. -/
def parseFailed (label : Text) : ParseFault → Refusal
  | .error e => .error (label ++ parseErrorText e) none
  | .panicParseU64 _ => .panicked

/-- The displayed text of a compliance error; after a panic nothing is displayed. -/
def complianceErrorText : ComplianceError → Text
  | .parse (.error e) => "parse error: ".toList ++ parseErrorText e
  | .parse (.panicParseU64 _) => []
  | .lineNumberGap expected got => "line number not continuous: expected L".toList ++
      (padNumber 6 expected ++ (", got L".toList ++ padNumber 6 got))
  | .unknownAuthor author => "unknown author '@".toList ++ (author ++ "' not in users/".toList)
  | .invalidPointTo line => "invalid P reference: P".toList ++
      (padNumber 6 line ++ " does not exist".toList)
  | .emptyBody line => "message L".toList ++ (padNumber 6 line ++ " has empty body".toList)
  | .unknownMention handler line => "unknown mention '<@".toList ++
      (handler ++ (">' in message L".toList ++ padNumber 6 line))
  | .eventNonZeroPointTo line => "event L".toList ++ (padNumber 6 line ++ " must have P000000".toList)
  | .eventInvalidJson line => "event L".toList ++
      (padNumber 6 line ++ " has invalid JSON body".toList)
  | .notMember author => "author '@".toList ++
      (author ++ "' is not a member of this channel".toList)

def quickSessionMessageMaxBytes : Nat := 64 * 1024

def validateBody (body : Text) : Except Refusal Unit := do
  refuse (trim body = []) (.error "quick session message cannot be empty".toList
    (some "invalid_quick_session_message".toList))
  refuse (utf8Len body > quickSessionMessageMaxBytes) (.error
    "quick session message exceeds 64 KB".toList (some "invalid_quick_session_message".toList))

def ensureActiveUser (tree : FileMap) (handler role : Text) : Except Refusal Handler := do
  let parsed ← (Handler.new handler).mapError fun e =>
    .error ("invalid ".toList ++ (role ++ (": ".toList ++ handlerErrorText e))) none
  refuse (fileExists tree (departedPath handler) = true)
    (.error (role ++ (" @".toList ++ (handler ++ " is departed".toList))) none)
  refuse (fileExists tree (userPath handler) = false)
    (.error ("unknown ".toList ++ (role ++ (": ".toList ++ handler))) none)
  .ok parsed

def ensureAuthorNotDeparted (tree : FileMap) (author : Text) : Except Refusal Unit :=
  refuse (fileExists tree (departedPath author) = true)
    (.error ("user @".toList ++ (author ++ " is departed".toList)) none)

def canonicalMessageBody (author : Handler) (body : Text) : Except Refusal Text :=
  match parseThread lib.json (formatMessage 1 0 author "19700101T000000Z".toList body) with
  | .error fault => .error (parseFailed "failed to normalize message: ".toList fault)
  | .ok parsed =>
    match parsed.entries.head? with
    | some (.message m) => .ok m.body
    | _ => .error (.error "failed to normalize message".toList none)

def activeDir (sessionId : Text) : Path := "quick-sessions/".toList ++ sessionId

def archivedDir (sessionId : Text) : Path := "archive/quick-sessions/".toList ++ sessionId

def sessionRelDir (sessionId : Text) (archived : Bool) : Except Refusal Path := do
  (validateQuickSessionId sessionId).mapError errorResponse
  .ok (if archived then archivedDir sessionId else activeDir sessionId)

def infoPath (relDir : Path) : Path := relDir ++ "/session.meta.yaml".toList

def discussionPath (relDir : Path) : Path := relDir ++ "/discussion.thread".toList

def locateSession (tree : FileMap) (sessionId : Text) : Except Refusal (Option Located) := do
  let active ← sessionRelDir sessionId false
  let archived ← sessionRelDir sessionId true
  .ok (if fileExists tree (infoPath active) then some ⟨active, false⟩
    else if fileExists tree (infoPath archived) then some ⟨archived, true⟩
    else none)

def loadMeta (tree : FileMap) (located : Located) : Except Refusal QuickSessionMeta :=
  match tree.lookup (infoPath located.relDir) with
  | none => .error (.error "failed to read quick session metadata".toList none)
  | some content => do
    let info ← (lib.yaml.fromStr content).mapError fun e =>
      .error ("failed to parse quick session metadata: ".toList ++ e) none
    (validateQuickSessionMeta info).mapError errorResponse
    .ok info

def loadThread (tree : FileMap) (located : Located) :
    Except Refusal (List (ThreadEntry Json)) :=
  match tree.lookup (discussionPath located.relDir) with
  | none => .error (.error "failed to read quick session thread".toList none)
  | some content =>
    match parseThread lib.json content with
    | .error fault => .error (parseFailed "failed to parse quick session thread: ".toList fault)
    | .ok parsed => .ok parsed.entries

/-- The whole session, as no limit is asked for. -/
def detail (tree : FileMap) (located : Located) : Except Refusal (Detail Json) := do
  let info ← loadMeta lib tree located
  let entries ← loadThread lib tree located
  .ok ⟨info, entries, located.archived⟩

/-- Whether the first line says what is to be said. -/
def firstMatches (entries : List (ThreadEntry Json)) (author firstMessage : Text) : Bool :=
  match entries.head? with
  | some (.message m) =>
    m.lineNumber = 1 ∧ m.pointTo = 0 ∧ m.author.name = author ∧ m.body = firstMessage
  | _ => false

def collision : Refusal :=
  .error "quick session id collides with a different object".toList
    (some "quick_session_id_collision".toList)

def answerExisting (tree : FileMap) (located : Located) (request : Request) (firstMessage : Text) :
    Except Refusal (Detail Json) := do
  let existing ← detail lib tree located
  refuse (existing.info.id ≠ request.sessionId ∨ existing.info.agentId ≠ request.agentId ∨
    existing.info.createdBy ≠ request.author ∨
    firstMatches existing.entries request.author firstMessage = false) collision
  .ok existing

/-- The metadata and the thread of a new session. -/
def newSession (world : World) (request : Request) (creator : Handler) (firstMessage : Text) :
    Except Refusal (QuickSessionMeta × Text) := do
  let (_, info) ← (applyQuickSessionTransition
    (QuickSessionMeta.new request.sessionId request.agentId request.author world.now)
    (.humanMessage request.author 1 none firstMessage world.now)).mapError errorResponse
  let thread := formatMessage 1 0 creator world.now firstMessage
  match validateAppend lib.json lib.isObject world.users [request.author, request.agentId] []
      thread with
  | .error (.parse (.panicParseU64 _)) => .error .panicked
  | .error e => .error (.error
      ("invalid quick session message: ".toList ++ complianceErrorText e) none)
  | .ok () => .ok (info, thread)

/-- A directory is removed with what is in it, as far as the file system goes along. -/
def removeDirAll (removes : Path → Bool) (tree : FileMap) (dir : Path) : FileMap :=
  tree.filter fun e => ¬((dir ++ ['/']) <+: e.1 ∧ removes e.1 = true)

/-- The thread is written behind the metadata; the directory is removed if a write or the commit
fails. -/
def writeSession (world : World) (relDir : Path) (info : QuickSessionMeta) (thread : Text) :
    Reply Json × FileMap :=
  let begun := writeFile world.tree (infoPath relDir) (lib.yaml.toStr info)
  match world.writeError with
  | some e => (.refused (.error ("failed to write quick session: ".toList ++ e) none),
      removeDirAll world.removes begun relDir)
  | none =>
    let tree := writeFile begun (discussionPath relDir) thread
    match world.commitError with
    | some e => (.refused (.error ("create quick session commit failed: ".toList ++
        (e ++ "; rolled back".toList)) none), removeDirAll world.removes tree relDir)
    | none =>
      let entries := match parseThread lib.json thread with
        | .ok parsed => parsed.entries
        | .error _ => []
      (.created ⟨info, entries, false⟩, tree)

def createSession (world : World) (request : Request) :
    Except Refusal (Reply Json × FileMap) := do
  validateBody request.firstMessage
  (validateQuickSessionId request.sessionId).mapError errorResponse
  let creator ← ensureActiveUser world.tree request.author "creator".toList
  ensureAuthorNotDeparted world.tree request.author
  let _ ← ensureActiveUser world.tree request.agentId "agent".toList
  let firstMessage ← canonicalMessageBody lib creator request.firstMessage
  match ← locateSession world.tree request.sessionId with
  | some located =>
    let existing ← answerExisting lib world.tree located request firstMessage
    .ok (.existing existing, world.tree)
  | none =>
    let (info, thread) ← newSession lib world request creator firstMessage
    let relDir ← sessionRelDir request.sessionId false
    .ok (writeSession lib world relDir info thread)

/-- The answer, and the repository behind it. -/
def handleCreateQuickSession (world : World) (request : Request) : Reply Json × FileMap :=
  match createSession lib world request with
  | .ok answer => answer
  | .error refusal => (.refused refusal, world.tree)

end Model

section Bodies

/-- A line behind the first, written and read. -/
def reread (l : Text) : Text := unescapeContinuation (stripCr (stripCr l))

/-- The escape is taken off again, whatever the reader strips. -/
theorem unescape_strip_escape (l : Text) :
    unescapeContinuation (stripCr (stripCr (escapeContinuation l))) = reread l := by
  have hblank : ' ' ≠ '\r' := by decide
  by_cases hp : hasMsgPrefix l = true
  · obtain ⟨rest, rfl⟩ := bracket_of_hasMsgPrefix hp
    have hbracket : '[' ≠ '\r' := by decide
    have hletter : 'L' ≠ '\r' := by decide
    rw [escapeContinuation, if_pos hp, reread]
    simp only [stripCr_cons hblank, stripCr_cons hbracket, stripCr_cons hletter]
    rfl
  · rw [escapeContinuation, if_neg hp, reread]

theorem readBody_eq (body : Text) :
    readBody body = joinLines (stripCr (stripCr ((lines body).headD [])) ::
      (lines body).tail.map reread) := by
  rw [readBody, List.map_congr_left fun l _ => unescape_strip_escape l]

theorem length_unescape_le (l : Text) : (unescapeContinuation l).length ≤ l.length := by
  rw [unescapeContinuation]
  split
  · rw [List.length_drop]
    omega
  · exact Nat.le_refl _

theorem endsInCr_unescape {l : Text} : EndsInCr (unescapeContinuation l) ↔ EndsInCr l := by
  rw [unescapeContinuation]
  split
  · rename_i h
    obtain ⟨rest, rfl⟩ := h
    exact (endsInCr_append_cons (a := [' '])).symm
  · rfl

theorem unescape_eq_nil_iff {l : Text} : unescapeContinuation l = [] ↔ l = [] := by
  rw [unescapeContinuation]
  split
  · rename_i h
    obtain ⟨rest, rfl⟩ := h
    simp
  · rfl

theorem unescape_of_plain {l : Text} (h : ¬ " [L".toList <+: l) : unescapeContinuation l = l := by
  rw [unescapeContinuation, if_neg h]

theorem reread_plain (l : Text) : ¬ " [L".toList <+: reread l := unescaped_no_escape _

theorem length_reread_le (l : Text) : (reread l).length ≤ l.length :=
  (length_unescape_le _).trans ((length_stripCr_le _).trans (length_stripCr_le l))

theorem length_reread_lt {l : Text} (h : EndsInCr l) : (reread l).length < l.length := by
  have hstrip := length_stripCr_lt h
  have hrest := (length_unescape_le _).trans (length_stripCr_le (stripCr l))
  rw [reread]
  omega

theorem reread_of_plain {l : Text} (hcr : ¬ EndsInCr l) (h : ¬ " [L".toList <+: l) :
    reread l = l := by
  rw [reread, stripCr_of_not_endsInCr hcr, stripCr_of_not_endsInCr hcr, unescape_of_plain h]

theorem reread_no_lf {l : Text} (h : '\n' ∉ l) : '\n' ∉ reread l :=
  unescapeContinuation_no_lf (not_mem_stripCr (not_mem_stripCr h))

/-- What is left of a line ends in a carriage return if the line ends in three. -/
theorem endsInCr_strip_iff (l : Text) :
    EndsInCr (stripCr (stripCr l)) ↔ "\r\r\r".toList <:+ l := by
  constructor
  · intro h
    have hback : ∀ t : Text, EndsInCr (stripCr t) → ∃ rest, t = rest ++ ['\r', '\r'] := by
      intro t ht
      by_cases hcr : EndsInCr t
      · obtain ⟨a, rfl⟩ := List.getLast?_eq_some_iff.mp hcr
        rw [stripCr_append_cr] at ht
        obtain ⟨b, rfl⟩ := List.getLast?_eq_some_iff.mp ht
        exact ⟨b, by simp⟩
      · rw [stripCr_of_not_endsInCr hcr] at ht
        exact absurd ht hcr
    obtain ⟨rest, hrest⟩ := hback _ h
    have hend : EndsInCr (stripCr l) := by simp [hrest, EndsInCr]
    obtain ⟨more, rfl⟩ := hback l hend
    have hmore : stripCr (more ++ ['\r', '\r']) = more ++ ['\r'] := by
      rw [show more ++ ['\r', '\r'] = (more ++ ['\r']) ++ ['\r'] by simp, stripCr_append_cr]
    rw [hmore] at hrest
    have hsame : more = rest ++ ['\r'] := by
      have hsplit : rest ++ ['\r', '\r'] = (rest ++ ['\r']) ++ ['\r'] := by simp
      rw [hsplit] at hrest
      exact List.append_cancel_right hrest
    exact ⟨rest, by simp [hsame]⟩
  · rintro ⟨rest, rfl⟩
    have hthree : rest ++ "\r\r\r".toList = ((rest ++ ['\r']) ++ ['\r']) ++ ['\r'] := by simp
    rw [hthree, stripCr_append_cr, stripCr_append_cr]
    simp [EndsInCr]

theorem endsInCr_reread_iff (l : Text) : EndsInCr (reread l) ↔ "\r\r\r".toList <:+ l :=
  endsInCr_unescape.trans (endsInCr_strip_iff l)

theorem lines_joinLines_concat (ls : List Text) (last : Text) (hlf : ∀ l ∈ ls, '\n' ∉ l)
    (hlast : '\n' ∉ last) :
    lines (joinLines (ls ++ [last])) = ls.map stripCr ++ if last = [] then [] else [last] := by
  induction ls with
  | nil =>
    rw [List.nil_append, joinLines_singleton, List.map_nil, List.nil_append]
    split
    · rename_i hnil
      rw [hnil, lines_nil]
    · rename_i hne
      exact lines_last last hne hlast
  | cons l ls ih =>
    obtain ⟨hl, hls⟩ := List.forall_mem_cons.mp hlf
    have hjoin : joinLines (l :: (ls ++ [last])) = l ++ '\n' :: joinLines (ls ++ [last]) := by
      cases ls with
      | nil => exact joinLines_cons_cons l last []
      | cons m ls => exact joinLines_cons_cons l m (ls ++ [last])
    rw [List.cons_append, hjoin, lines_line l _ hl, ih hls, List.map_cons, List.cons_append]

/-- Lines that grow no longer make no longer text. -/
theorem length_joinLines_map_le {f : Text → Text} (hf : ∀ l, (f l).length ≤ l.length)
    {a b : Text} (hab : a.length ≤ b.length) (ls : List Text) :
    (joinLines (a :: ls.map f)).length ≤ (joinLines (b :: ls)).length := by
  induction ls generalizing a b with
  | nil => simpa using hab
  | cons l ls ih =>
    have hrest := ih (hf l)
    rw [List.map_cons, joinLines_cons_cons, joinLines_cons_cons, List.length_append,
      List.length_append, List.length_cons, List.length_cons]
    omega

theorem not_endsInCr_of_le {l : Text} (h : l.length ≤ (stripCr l).length) : ¬ EndsInCr l := by
  intro hcr
  have hlt := length_stripCr_lt hcr
  omega

/-- A text of lines is what it reads as, unless one of them ends in a carriage return or the last
of several is empty. -/
theorem readBody_joinLines_iff {first : Text} {rest : List Text}
    (hlf : ∀ l ∈ first :: rest, '\n' ∉ l) (hfirst : first ≠ [])
    (hplain : ∀ l ∈ rest, ¬ " [L".toList <+: l) :
    readBody (joinLines (first :: rest)) = joinLines (first :: rest) ↔
      (∀ l ∈ first :: rest, ¬ EndsInCr l) ∧ rest.getLast? ≠ some [] := by
  constructor
  · intro hsame
    rw [readBody_eq] at hsame
    cases rest using List.reverseRecOn with
    | nil =>
      have hlines : lines first = [first] := lines_last first hfirst (hlf first List.mem_cons_self)
      rw [joinLines_singleton, hlines, List.headD_cons, List.tail_cons, List.map_nil,
        joinLines_singleton] at hsame
      refine ⟨List.forall_mem_singleton.mpr fun hcr => ?_, by simp⟩
      have hshort := (length_stripCr_le (stripCr first)).trans_lt (length_stripCr_lt hcr)
      rw [hsame] at hshort
      exact absurd hshort (Nat.lt_irrefl _)
    | append_singleton init last =>
      have hinit : ∀ l ∈ first :: init, '\n' ∉ l := fun l hl =>
        hlf l (List.mem_append_left [last] hl)
      have hlast : '\n' ∉ last := hlf last (by simp)
      have hlines : lines (joinLines (first :: (init ++ [last]))) =
          (first :: init).map stripCr ++ if last = [] then [] else [last] :=
        lines_joinLines_concat (first :: init) last hinit hlast
      have hshrink : ∀ l : Text, (reread (stripCr l)).length ≤ l.length := fun l =>
        (length_reread_le _).trans (length_stripCr_le l)
      have hhead : (stripCr (stripCr (stripCr first))).length ≤ (stripCr first).length :=
        (length_stripCr_le _).trans (length_stripCr_le _)
      rw [hlines] at hsame
      by_cases hempty : last = []
      · rw [if_pos hempty, List.append_nil, List.map_cons, List.headD_cons, List.tail_cons,
          List.map_map] at hsame
        have hle := length_joinLines_map_le hshrink (hhead.trans (length_stripCr_le first)) init
        have hwhole : joinLines (first :: (init ++ [last])) = joinLines (first :: init) ++ '\n' :: last :=
          joinLines_concat first init last
        rw [hwhole] at hsame
        have hlength := congrArg List.length hsame
        rw [List.length_append, List.length_cons] at hlength
        simp only [Function.comp_def] at hlength
        omega
      · rw [if_neg hempty, List.map_cons, List.cons_append, List.headD_cons, List.tail_cons,
          List.map_append, List.map_map, List.map_singleton] at hsame
        have hrest : ∀ l ∈ init.map (reread ∘ stripCr) ++ [reread last], '\n' ∉ l := by
          refine List.forall_mem_append.mpr ⟨fun l hl => ?_, ?_⟩
          · obtain ⟨k, hk, rfl⟩ := List.mem_map.mp hl
            exact reread_no_lf (not_mem_stripCr (hinit k (List.mem_cons_of_mem first hk)))
          · exact List.forall_mem_singleton.mpr (reread_no_lf hlast)
        have hback := joinLines_injective (by simp) (List.forall_mem_cons.mpr
          ⟨not_mem_stripCr (not_mem_stripCr (not_mem_stripCr (hlf first List.mem_cons_self))), hrest⟩)
          hlf hsame
        obtain ⟨hfirst', hrest'⟩ := List.cons.inj hback
        obtain ⟨hinit', hlast'⟩ := List.append_inj hrest' (by simp)
        refine ⟨List.forall_mem_cons.mpr ⟨?_, List.forall_mem_append.mpr ⟨fun l hl => ?_, ?_⟩⟩,
          by simpa using hempty⟩
        · exact not_endsInCr_of_le ((congrArg List.length hfirst').symm.trans_le hhead)
        · have hid := List.map_inj_left.mp (hinit'.trans (List.map_id init).symm) l hl
          exact not_endsInCr_of_le
            ((congrArg List.length hid).symm.trans_le (length_reread_le (stripCr l)))
        · refine List.forall_mem_singleton.mpr fun hcr => ?_
          have hlt := length_reread_lt hcr
          rw [(List.cons.inj hlast').1] at hlt
          exact absurd hlt (Nat.lt_irrefl _)
  · rintro ⟨hcr, hlast⟩
    obtain ⟨hfirstCr, hrestCr⟩ := List.forall_mem_cons.mp hcr
    have hend : (first :: rest).getLast? ≠ some [] := by
      cases rest with
      | nil => simpa using hfirst
      | cons l ls => simpa [List.getLast?_cons_cons] using hlast
    rw [readBody_eq, lines_joinLines first rest hlf hcr hend, List.headD_cons, List.tail_cons,
      stripCr_of_not_endsInCr hfirstCr, stripCr_of_not_endsInCr hfirstCr,
      List.map_congr_left fun l hl => reread_of_plain (hrestCr l hl) (hplain l hl), List.map_id']

/-- The condition. No line ends in three carriage returns, and the last of several is more than the
carriage returns that the reader takes off. -/
def Settles (body : Text) : Prop :=
  (∀ line ∈ lines body, ¬ "\r\r\r".toList <:+ line) ∧
    ∀ last ∈ (lines body).tail.getLast?, stripCr (stripCr last) ≠ []

/-- When a message that has been written and read once stays as it is. -/
theorem readBody_settles_iff {body : Text} (opens : Opens body) :
    readBody (readBody body) = readBody body ↔ Settles body := by
  cases hlines : lines body with
  | nil =>
    rw [Opens, hlines] at opens
    exact absurd rfl opens
  | cons first rest =>
    have hlf : ∀ l ∈ first :: rest, '\n' ∉ l := fun l hl => lines_no_lf (hlines ▸ hl)
    rw [Opens, hlines, List.headD_cons] at opens
    rw [readBody_eq body, hlines, List.headD_cons, List.tail_cons]
    have hread : ∀ l ∈ stripCr (stripCr first) :: rest.map reread, '\n' ∉ l := by
      refine List.forall_mem_cons.mpr
        ⟨not_mem_stripCr (not_mem_stripCr (hlf first List.mem_cons_self)), fun l hl => ?_⟩
      obtain ⟨k, hk, rfl⟩ := List.mem_map.mp hl
      exact reread_no_lf (hlf k (List.mem_cons_of_mem first hk))
    rw [readBody_joinLines_iff hread opens fun l hl => by
      obtain ⟨k, -, rfl⟩ := List.mem_map.mp hl
      exact reread_plain k]
    rw [Settles, hlines, List.tail_cons, List.forall_mem_cons, List.forall_mem_cons,
      List.forall_mem_map, endsInCr_strip_iff, List.getLast?_map]
    simp only [endsInCr_reread_iff]
    refine and_congr Iff.rfl ?_
    cases rest.getLast? with
    | none => simp
    | some last => simp [reread, unescape_eq_nil_iff]

instance (body : Text) : Decidable (Settles body) :=
  inferInstanceAs (Decidable ((∀ line ∈ lines body, ¬ "\r\r\r".toList <:+ line) ∧
    ∀ last ∈ (lines body).tail.getLast?, stripCr (stripCr last) ≠ []))

end Bodies

theorem epoch_shape : TimestampShape "19700101T000000Z".toList :=
  ⟨"19700101".toList, "000000".toList, rfl, rfl, rfl, rfl, rfl⟩

section Retries
variable {Json : Type} {lib : Library Json} {world : World} {request : Request}

variable (lib) in
theorem canonicalMessageBody_ok_iff {author : Handler} {body canonical : Text} :
    canonicalMessageBody lib author body = .ok canonical ↔ Opens body ∧ canonical = readBody body := by
  have hread : ∀ own, parseThread lib.json
      (formatMessage 1 0 author "19700101T000000Z".toList body) = .ok own ↔
        Opens body ∧ own = ⟨[.message ⟨1, 0, author, "19700101T000000Z".toList, readBody body⟩]⟩ :=
    fun own => parseThread_formatMessage_iff lib.json author (by decide) (by decide) epoch_shape
  constructor
  · intro h
    rw [canonicalMessageBody] at h
    split at h
    · cases h
    · rename_i parsed hparsed
      obtain ⟨opens, rfl⟩ := (hread parsed).mp hparsed
      exact ⟨opens, (Except.ok.inj h).symm⟩
  · rintro ⟨opens, rfl⟩
    have hparsed := (hread _).mpr ⟨opens, rfl⟩
    simp only [canonicalMessageBody, hparsed, List.head?_cons]

theorem ensureActiveUser_name {tree : FileMap} {name role : Text} {h : Handler}
    (hactive : ensureActiveUser tree name role = .ok h) :
    h.name = name := by
  rw [ensureActiveUser] at hactive
  obtain ⟨parsed, hparsed, hactive⟩ := bind_eq_ok_iff.mp hactive
  rw [mapError_eq_ok_iff, Handler.new] at hparsed
  simp only [then_eq_ok_iff] at hactive
  obtain ⟨-, -, hactive⟩ := hactive
  cases hactive
  split at hparsed
  · cases hparsed
  · cases hparsed
    rfl

theorem startSession_ok {id agent author now preview : Text} {outcome : TransitionOutcome}
    {info : QuickSessionMeta}
    (h : applyQuickSessionTransition (QuickSessionMeta.new id agent author now)
      (.humanMessage author 1 none preview now) = .ok (outcome, info)) :
    validateQuickSessionMeta info = .ok () ∧ info.id = id ∧ info.agentId = agent ∧
      info.createdBy = author := by
  have happlied : outcome = .applied := by
    rw [applyQuickSessionTransition, then_eq_ok_iff, bind_eq_ok_iff] at h
    obtain ⟨-, ⟨o, next⟩, happly, h⟩ := h
    rw [applyTransition, applyHumanMessage] at happly
    simp only [Option.isSome_none, Bool.false_eq_true, false_and, if_false, then_eq_ok_iff,
      finish_eq_ok_iff] at happly
    obtain ⟨-, -, -, -, -, rfl, -⟩ := happly
    simp only [if_true, then_eq_ok_iff] at h
    exact (Prod.mk.inj (Except.ok.inj h.2)).1.symm
  subst happlied
  obtain ⟨-, happly, hvalid⟩ := applyQuickSessionTransition_applied h
  obtain ⟨-, -, -, -, -, rfl⟩ := applyHumanMessage_applied happly
  exact ⟨validate_ok_iff.mpr hvalid, rfl, rfl, rfl⟩

/-- What a session is after its first message. -/
theorem newSession_ok {creator : Handler} {firstMessage : Text} {info : QuickSessionMeta}
    {thread : Text} (h : newSession lib world request creator firstMessage = .ok (info, thread)) :
    thread = formatMessage 1 0 creator world.now firstMessage ∧ Opens firstMessage ∧
      validateQuickSessionMeta info = .ok () ∧ info.id = request.sessionId ∧
      info.agentId = request.agentId ∧ info.createdBy = request.author := by
  rw [newSession] at h
  obtain ⟨⟨outcome, next⟩, happly, h⟩ := bind_eq_ok_iff.mp h
  rw [mapError_eq_ok_iff] at happly
  simp only at h
  split at h
  · cases h
  · cases h
  · rename_i hvalid
    cases h
    obtain ⟨old, new, -, hnew, -⟩ := validateAppend_ok_iff.mp hvalid
    have opens := ((parseThread_formatMessage_iff lib.json creator (by decide) (by decide)
      world.stamp).mp hnew).1
    obtain ⟨hinfo, hid, hagent, hauthor⟩ := startSession_ok happly
    exact ⟨rfl, opens, hinfo, hid, hagent, hauthor⟩

/-- The session is still there, with the parties and the first line it was created with, and they
are still active. -/
structure Stands (lib : Library Json) (request : Request) (created : Detail Json) (later : World)
    (found : Detail Json) : Prop where
  creator : ∃ h, ensureActiveUser later.tree request.author "creator".toList =
    .ok h
  agent : ∃ h, ensureActiveUser later.tree request.agentId "agent".toList =
    .ok h
  located : ∃ place, locateSession later.tree request.sessionId =
    .ok (some place) ∧
      detail lib later.tree place = .ok found
  id : found.info.id = request.sessionId
  agentId : found.info.agentId = request.agentId
  createdBy : found.info.createdBy = request.author
  firstLine : found.entries.head? = created.entries.head?

/-- Every repetition finds the session. -/
def RetriesReturn (lib : Library Json) (request : Request) (created : Detail Json) : Prop :=
  ∀ later found, Stands lib request created later found →
    handleCreateQuickSession lib later request = (.existing found, later.tree)

/-- The first line reads as the message that a repetition asks for. -/
def StoredAsCompared (lib : Library Json) (request : Request) (created : Detail Json) : Prop :=
  ∃ m, created.entries.head? = some (.message m) ∧
    canonicalMessageBody lib m.author request.firstMessage = .ok m.body

/-- What an accepted call has checked, and what it leaves. -/
structure Accepted (lib : Library Json) (world : World) (request : Request) (creator : Handler)
    (info : QuickSessionMeta) (created : Detail Json) (tree : FileMap) : Prop where
  body : validateBody request.firstMessage = .ok ()
  id : validateQuickSessionId request.sessionId = .ok ()
  creatorActive : ensureActiveUser world.tree request.author "creator".toList = .ok creator
  agent : ∃ h, ensureActiveUser world.tree request.agentId "agent".toList =
    .ok h
  opens : Opens request.firstMessage
  opensAgain : Opens (readBody request.firstMessage)
  valid : validateQuickSessionMeta info = .ok ()
  parties : info.id = request.sessionId ∧ info.agentId = request.agentId ∧
    info.createdBy = request.author
  created : created = ⟨info, [.message ⟨1, 0, creator, world.now,
    readBody (readBody request.firstMessage)⟩], false⟩
  tree : tree = writeFile (writeFile world.tree
      (infoPath (activeDir request.sessionId)) (lib.yaml.toStr info))
    (discussionPath (activeDir request.sessionId))
    (formatMessage 1 0 creator world.now (readBody request.firstMessage))

theorem accepted_of_created {created : Detail Json} {tree : FileMap}
    (h : handleCreateQuickSession lib world request = (.created created, tree)) :
    ∃ creator info, Accepted lib world request creator info created tree := by
  rw [handleCreateQuickSession] at h
  cases hcreate : createSession lib world request with
  | error refusal =>
    rw [hcreate] at h
    cases h
  | ok answer =>
    simp only [hcreate] at h
    subst h
    simp only [createSession, then_eq_ok_iff, mapError_eq_ok_iff] at hcreate
    obtain ⟨hbody, hid, hcreate⟩ := hcreate
    obtain ⟨creator, hcreator, hcreate⟩ := bind_eq_ok_iff.mp hcreate
    rw [then_eq_ok_iff] at hcreate
    obtain ⟨-, hcreate⟩ := hcreate
    obtain ⟨agent, hagent, hcreate⟩ := bind_eq_ok_iff.mp hcreate
    obtain ⟨canonical, hcanonical, hcreate⟩ := bind_eq_ok_iff.mp hcreate
    obtain ⟨opens, rfl⟩ := (canonicalMessageBody_ok_iff lib).mp hcanonical
    obtain ⟨place, -, hcreate⟩ := bind_eq_ok_iff.mp hcreate
    cases place with
    | some located =>
      obtain ⟨existing, -, hcreate⟩ := bind_eq_ok_iff.mp hcreate
      cases hcreate
    | none =>
      obtain ⟨⟨info, thread⟩, hnew, hcreate⟩ := bind_eq_ok_iff.mp hcreate
      obtain ⟨relDir, hdir, hcreate⟩ := bind_eq_ok_iff.mp hcreate
      obtain ⟨rfl, hopens, hvalid, hparties⟩ := newSession_ok hnew
      have hrelDir : relDir = activeDir request.sessionId := by
        rw [sessionRelDir, then_eq_ok_iff] at hdir
        exact (Except.ok.inj hdir.2).symm
      subst hrelDir
      have hparsed : parseThread lib.json (formatMessage 1 0 creator world.now
          (readBody request.firstMessage)) = .ok ⟨[.message ⟨1, 0, creator, world.now,
            readBody (readBody request.firstMessage)⟩]⟩ :=
        (parseThread_formatMessage_iff lib.json creator (by decide) (by decide) world.stamp).mpr
          ⟨hopens, rfl⟩
      rw [writeSession] at hcreate
      split at hcreate
      · cases hcreate
      · simp only [hparsed] at hcreate
        split at hcreate
        · cases hcreate
        · injection hcreate with hcreate
          injection hcreate with hreply htree
          injection hreply with hcreated
          exact ⟨creator, info, hbody, hid, hcreator, ⟨agent, hagent⟩, opens, hopens, hvalid, hparties,
            hcreated.symm, htree.symm⟩

theorem notDeparted_of_active {tree : FileMap} {name role : Text} {h : Handler}
    (hactive : ensureActiveUser tree name role = .ok h) : ensureAuthorNotDeparted tree name = .ok () := by
  rw [ensureActiveUser] at hactive
  obtain ⟨parsed, -, hactive⟩ := bind_eq_ok_iff.mp hactive
  simp only [then_eq_ok_iff, refuse_eq_ok_iff] at hactive
  rw [ensureAuthorNotDeparted, refuse_eq_ok_iff]
  exact hactive.1

/-- A repetition compares a message that has been read once with one that has been read twice. -/
theorem retry_eq {creator : Handler} {info : QuickSessionMeta} {created found : Detail Json}
    {tree : FileMap} {later : World} (h : Accepted lib world request creator info created tree)
    (stands : Stands lib request created later found) :
    handleCreateQuickSession lib later request =
      if readBody (readBody request.firstMessage) = readBody request.firstMessage then
        (.existing found, later.tree)
      else (.refused collision, later.tree) := by
  obtain ⟨active, hactive⟩ := stands.creator
  obtain ⟨agent, hagent⟩ := stands.agent
  obtain ⟨place, hplace, hdetail⟩ := stands.located
  have hcanonical : canonicalMessageBody lib active request.firstMessage =
      .ok (readBody request.firstMessage) := (canonicalMessageBody_ok_iff lib).mpr ⟨h.opens, rfl⟩
  have hname : creator.name = request.author := ensureActiveUser_name h.creatorActive
  have hfirst : firstMatches found.entries request.author (readBody request.firstMessage) =
      decide (readBody (readBody request.firstMessage) = readBody request.firstMessage) := by
    rw [firstMatches, stands.firstLine, h.created]
    simp [hname]
  have hanswer : answerExisting lib later.tree place request (readBody request.firstMessage) =
      if readBody (readBody request.firstMessage) = readBody request.firstMessage then .ok found
      else .error collision := by
    rw [answerExisting]
    split
    · rename_i hsame
      refine bind_eq_ok_iff.mpr ⟨found, hdetail, then_eq_ok_iff.mpr ⟨refuse_eq_ok_iff.mpr ?_, rfl⟩⟩
      simp [stands.id, stands.agentId, stands.createdBy, hfirst, hsame]
    · rename_i hdiffer
      refine bind_eq_error_iff.mpr (.inr ⟨found, hdetail, bind_eq_error_iff.mpr (.inl ?_)⟩)
      rw [refuse_eq_error_iff]
      simp [hfirst, hdiffer]
  have hcreate : createSession lib later request =
      (answerExisting lib later.tree place request (readBody request.firstMessage)).map
        fun existing => (.existing existing, later.tree) := by
    simp only [createSession, h.body, h.id, hactive, hagent, notDeparted_of_active hactive, hcanonical,
      hplace, Except.mapError, bind, Except.bind]
    cases answerExisting lib later.tree place request (readBody request.firstMessage) <;> rfl
  rw [handleCreateQuickSession, hcreate, hanswer]
  by_cases hsame : readBody (readBody request.firstMessage) = readBody request.firstMessage
  · simp only [if_pos hsame]
    rfl
  · simp only [if_neg hsame]
    rfl

theorem infoPath_ne (dir : Path) : infoPath dir ≠ discussionPath dir := by
  intro h
  exact absurd (List.append_cancel_left h) (by decide)

theorem departedPath_apart (name id tail : Text) : departedPath name ≠ activeDir id ++ tail := by
  intro h
  have hhead : some 'a' = some 'q' := congrArg List.head? h
  cases hhead

theorem userPath_apart (name id tail : Text) : userPath name ≠ activeDir id ++ tail := by
  intro h
  have hhead : some 'u' = some 'q' := congrArg List.head? h
  cases hhead

theorem ensureActiveUser_congr {tree tree' : FileMap} {name role : Text}
    (hdeparted : tree'.lookup (departedPath name) = tree.lookup (departedPath name))
    (huser : tree'.lookup (userPath name) = tree.lookup (userPath name)) :
    ensureActiveUser tree' name role = ensureActiveUser tree name role := by
  rw [ensureActiveUser, ensureActiveUser, fileExists, fileExists, fileExists, fileExists, hdeparted,
    huser]

/-- A session stands right after it has been created. -/
theorem Accepted.stands {creator : Handler} {info : QuickSessionMeta} {created : Detail Json}
    {tree : FileMap} (h : Accepted lib world request creator info created tree)
    (hback : lib.yaml.fromStr (lib.yaml.toStr info) = .ok info) :
    Stands lib request created { world with tree := tree } created := by
  obtain ⟨hid, hagent, hcreatedBy⟩ := h.parties
  have hother : ∀ path, (∀ tail, path ≠ activeDir request.sessionId ++ tail) →
      tree.lookup path = world.tree.lookup path := by
    intro path hout
    have hinfo : path ≠ infoPath (activeDir request.sessionId) := hout _
    have hthread : path ≠ discussionPath (activeDir request.sessionId) := hout _
    rw [h.tree, lookup_writeFile, if_neg hthread, lookup_writeFile, if_neg hinfo]
  have huser : ∀ name role, ensureActiveUser tree name role = ensureActiveUser world.tree name role :=
    fun name role => ensureActiveUser_congr (hother _ (departedPath_apart name _))
      (hother _ (userPath_apart name _))
  have hinfo : tree.lookup (infoPath (activeDir request.sessionId)) =
      some (lib.yaml.toStr info) := by
    rw [h.tree, lookup_writeFile, if_neg (infoPath_ne _), lookup_writeFile, if_pos rfl]
  have hthread : tree.lookup (discussionPath (activeDir request.sessionId)) =
      some (formatMessage 1 0 creator world.now (readBody request.firstMessage)) := by
    rw [h.tree, lookup_writeFile, if_pos rfl]
  have hparsed : parseThread lib.json (formatMessage 1 0 creator world.now
      (readBody request.firstMessage)) = .ok ⟨created.entries⟩ := by
    rw [h.created]
    exact (parseThread_formatMessage_iff lib.json creator (by decide) (by decide) world.stamp).mpr
      ⟨h.opensAgain, rfl⟩
  have hdir : ∀ archived, sessionRelDir request.sessionId archived =
      .ok (if archived then archivedDir request.sessionId else activeDir request.sessionId) :=
    fun archived => then_eq_ok_iff.mpr ⟨mapError_eq_ok_iff.mpr h.id, rfl⟩
  have hexists : fileExists tree (infoPath (activeDir request.sessionId)) = true := by
    rw [fileExists, hinfo]
    rfl
  refine ⟨⟨creator, (huser _ _).trans h.creatorActive⟩, ?_, ?_, ?_, ?_, ?_, rfl⟩
  · obtain ⟨agent, hactive⟩ := h.agent
    exact ⟨agent, (huser _ _).trans hactive⟩
  · refine ⟨⟨activeDir request.sessionId, false⟩, ?_, ?_⟩
    · refine bind_eq_ok_iff.mpr ⟨_, hdir false, bind_eq_ok_iff.mpr ⟨_, hdir true, ?_⟩⟩
      simp only [Bool.false_eq_true, if_false, hexists, if_true]
    · have hmeta : loadMeta lib tree ⟨activeDir request.sessionId, false⟩ = .ok info := by
        simp only [loadMeta, hinfo]
        refine bind_eq_ok_iff.mpr ⟨info, mapError_eq_ok_iff.mpr hback, ?_⟩
        exact then_eq_ok_iff.mpr ⟨mapError_eq_ok_iff.mpr h.valid, rfl⟩
      have hload : loadThread lib tree ⟨activeDir request.sessionId, false⟩ =
          .ok created.entries := by
        simp only [loadThread, hthread, hparsed]
      refine bind_eq_ok_iff.mpr ⟨info, hmeta, bind_eq_ok_iff.mpr ⟨_, hload, ?_⟩⟩
      rw [h.created]
  · rw [h.created]
    exact hid
  · rw [h.created]
    exact hagent
  · rw [h.created]
    exact hcreatedBy

/-- When the creation of a quick session can be repeated. -/
theorem retries_return_iff
    (hback : ∀ info, lib.yaml.fromStr (lib.yaml.toStr info) = .ok info) {created : Detail Json}
    {tree : FileMap}
    (hcreated : handleCreateQuickSession lib world request = (.created created, tree)) :
    (RetriesReturn lib request created ↔ Settles request.firstMessage) ∧
      (StoredAsCompared lib request created ↔ Settles request.firstMessage) := by
  obtain ⟨creator, info, h⟩ := accepted_of_created hcreated
  rw [← readBody_settles_iff h.opens]
  constructor
  · constructor
    · intro hall
      have hstands := h.stands (hback info)
      have hreturns := hall _ _ hstands
      rw [retry_eq h hstands] at hreturns
      by_contra hdiffer
      rw [if_neg hdiffer] at hreturns
      cases hreturns
    · intro hsame later found hstands
      rw [retry_eq h hstands, if_pos hsame]
  · rw [StoredAsCompared, h.created]
    simp only [List.head?_cons, Option.some.injEq, ThreadEntry.message.injEq, exists_eq_left',
      canonicalMessageBody_ok_iff, h.opens, true_and]

end Retries

section Samples

instance encodableStatus : Encodable QuickSessionStatus :=
  Encodable.ofLeftInverse
    (fun s => match s with
      | .needsTitle => 0
      | .running => 1
      | .active => 2
      | .error => 3
      | .archived => 4)
    (fun n => match n with
      | 0 => .needsTitle
      | 1 => .running
      | 2 => .active
      | 3 => .error
      | _ => .archived) fun s => by cases s <;> rfl

/-- The fields of a session's metadata, in their order. -/
abbrev Fields := (Text × Option Text × Text × Text × QuickSessionStatus × Text × Text) ×
  (Option Text × Option QuickSessionStatus × Option Text × Option Text × Text × Option Text) ×
  (Option Nat × Option Text × Option Text × Option Text × Option Nat × Option Nat) ×
  (Option Text × Option Text × Option Nat × Nat)

def fieldsOf (m : QuickSessionMeta) : Fields :=
  ((m.id, m.title, m.agentId, m.createdBy, m.status, m.createdAt, m.updatedAt),
    (m.archivedAt, m.archivedFrom, m.summary, m.summaryUpdatedAt, m.lastMessagePreview, m.error),
    (m.processingInputLine, m.processingStartedAt, m.attemptId, m.lastCompletedAttemptId,
      m.lastCompletedInputLine, m.lastCompletedLine),
    (m.lastFailedAttemptId, m.lastHumanRequestId, m.lastHumanLine, m.revision))

def ofFields : Fields → QuickSessionMeta
  | ((id, title, agentId, createdBy, status, createdAt, updatedAt),
      (archivedAt, archivedFrom, summary, summaryUpdatedAt, lastMessagePreview, error),
      (processingInputLine, processingStartedAt, attemptId, lastCompletedAttemptId,
        lastCompletedInputLine, lastCompletedLine),
      (lastFailedAttemptId, lastHumanRequestId, lastHumanLine, revision)) =>
    ⟨id, title, agentId, createdBy, status, createdAt, updatedAt, archivedAt, archivedFrom, summary,
      summaryUpdatedAt, lastMessagePreview, error, processingInputLine, processingStartedAt, attemptId,
      lastCompletedAttemptId, lastCompletedInputLine, lastCompletedLine, lastFailedAttemptId,
      lastHumanRequestId, lastHumanLine, revision⟩

instance encodableInfo : Encodable QuickSessionMeta :=
  Encodable.ofLeftInverse fieldsOf ofFields fun _ => rfl

def sampleSession : Text := "qs-00000000000000000000000001".toList

/-- What is recorded of a session that Alice begins with Bob on new year's day. -/
def sampleInfo (preview : Text) : QuickSessionMeta :=
  { QuickSessionMeta.new sampleSession "bob".toList "alice".toList newYear with
    lastMessagePreview := preview
    lastHumanLine := some 1
    revision := 2 }

/-- The YAML of such metadata; `archive` holds the lines of an archived session. -/
def sampleYaml (status : String) (archive : List Text) (preview revision : String) : Text :=
  unlines (["id: qs-00000000000000000000000001".toList, "agent_id: bob".toList,
    "created_by: alice".toList, "status: ".toList ++ status.toList,
    "created_at: 20260101T000000Z".toList, "updated_at: 20260101T000000Z".toList] ++ archive ++
      ["last_message_preview: ".toList ++ preview.toList, "last_human_line: 1".toList,
        "revision: ".toList ++ revision.toList])

def infoTable : List (QuickSessionMeta × Text) :=
  [(sampleInfo "hello".toList, sampleYaml "needs_title" [] "hello" "2"),
    (sampleInfo "hello\n".toList, sampleYaml "needs_title" [] "|\n  hello" "2")]

def sampleLibrary : Library SmallJson where
  json := smallCodec
  isObject := smallObject
  yaml :=
    { fromStr := fun t => (tableValue infoTable t).elim (.error "no session".toList) .ok
      toStr := tableText infoTable }

theorem sampleLibrary_back (info : QuickSessionMeta) :
    sampleLibrary.yaml.fromStr (sampleLibrary.yaml.toStr info) = .ok info := by
  have hdistinct : Distinct infoTable := by decide +kernel
  simp only [sampleLibrary, tableValue_tableText hdistinct, Option.elim_some]

def sampleWorld : World where
  tree := [(userPath "alice".toList, []), (userPath "bob".toList, [])]
  users := ["alice".toList, "bob".toList]
  now := newYear
  stamp := newYear_shape
  writeError := none
  commitError := none
  removes := fun _ => true

def sampleRequest (firstMessage : Text) : Request :=
  ⟨sampleSession, "bob".toList, firstMessage, "alice".toList⟩

theorem retries_return_hello :
    (RetriesReturn sampleLibrary (sampleRequest "hello\n".toList)
        ⟨sampleInfo "hello".toList, [sampleMessage 1 0 "hello".toList], false⟩ ↔
      Settles "hello\n".toList) ∧
    (StoredAsCompared sampleLibrary (sampleRequest "hello\n".toList)
        ⟨sampleInfo "hello".toList, [sampleMessage 1 0 "hello".toList], false⟩ ↔
      Settles "hello\n".toList) ∧ Settles "hello\n".toList := by
  have hcreated : handleCreateQuickSession sampleLibrary sampleWorld (sampleRequest "hello\n".toList) =
      (.created ⟨sampleInfo "hello".toList, [sampleMessage 1 0 "hello".toList], false⟩,
        (handleCreateQuickSession sampleLibrary sampleWorld (sampleRequest "hello\n".toList)).2) := by
    decide +kernel
  obtain ⟨hreturns, hstored⟩ := retries_return_iff sampleLibrary_back hcreated
  exact ⟨hreturns, hstored, by decide +kernel⟩

/-- A message with an empty line at its end collides with itself. -/
theorem not_retries_return_emptyLine :
    (handleCreateQuickSession sampleLibrary sampleWorld (sampleRequest "hello\n\n".toList)).1 =
        .created ⟨sampleInfo "hello\n".toList, [sampleMessage 1 0 "hello".toList], false⟩ ∧
      (handleCreateQuickSession sampleLibrary { sampleWorld with
        tree := (handleCreateQuickSession sampleLibrary sampleWorld
          (sampleRequest "hello\n\n".toList)).2 } (sampleRequest "hello\n\n".toList)).1 =
        .refused collision := by
  decide +kernel

end Samples

end QuickSessionCreate
