import GitIM.Channels
import GitIM.ThreadReading
import GitIM.WebStrings
import GitIM.WebThreads

/-!
# Sends of the web client

The web client formats a message with the daemon's formatter and appends it to the thread itself.
It never asks `validate_append`, and it does not look into the archive. What it writes is compliant
exactly if the body, the reply target and the thread already are what the daemon would insist on.
-/

namespace WebSends

open TextLines TextScan FileTree Checked ThreadFormat ThreadGrammar ThreadRoundTrip ThreadMerge
  ThreadReading ThreadValidation DmThreads WebStrings WebThreads

section Clock

/-- A reading of the UTC clock. The pattern of the parser knows years of four digits. -/
structure UtcTime where
  year : Nat
  month : Nat
  day : Nat
  hours : Nat
  minutes : Nat
  seconds : Nat
  fourDigits : 1000 ≤ year ∧ year < 10000
  inYear : month ≤ 12 ∧ day ≤ 31
  inDay : hours < 24 ∧ minutes < 60 ∧ seconds < 60

def pad (n : Nat) : Text := padNumber 2 n

def timestamp (now : UtcTime) : Text :=
  Nat.toDigits 10 now.year ++ (pad now.month ++ (pad now.day ++ 'T' ::
    (pad now.hours ++ (pad now.minutes ++ (pad now.seconds ++ ['Z'])))))

theorem length_pad {n : Nat} (small : n < 100) : (pad n).length = 2 := by
  have short : (Nat.toDigits 10 n).length ≤ 2 :=
    (Nat.length_toDigits_le_iff (by omega) (by omega)).mpr small
  rw [pad, padNumber, List.length_append, List.length_replicate]
  omega

theorem length_year (now : UtcTime) : (Nat.toDigits 10 now.year).length = 4 := by
  obtain ⟨low, high⟩ := now.fourDigits
  have atMost : (Nat.toDigits 10 now.year).length ≤ 4 :=
    (Nat.length_toDigits_le_iff (by omega) (by omega)).mpr high
  have atLeast : ¬ (Nat.toDigits 10 now.year).length ≤ 3 := by
    rw [Nat.length_toDigits_le_iff (by omega) (by omega)]
    omega
  omega

theorem timestamp_shape (now : UtcTime) : TimestampShape (timestamp now) := by
  obtain ⟨hmonth, hday⟩ := now.inYear
  obtain ⟨hhours, hminutes, hseconds⟩ := now.inDay
  have hyear : (Nat.toDigits 10 now.year).all isRegexDigit = true := by
    rw [List.all_eq_true]
    intro c hc
    exact isRegexDigit_of_isDigit (Nat.isDigit_of_mem_toDigits (by omega) (by omega) hc)
  have digits : ∀ n, (pad n).all isRegexDigit = true := fun n => padNumber_regexDigits 2 n
  refine ⟨Nat.toDigits 10 now.year ++ (pad now.month ++ pad now.day),
    pad now.hours ++ (pad now.minutes ++ pad now.seconds), by simp [timestamp], ?_, ?_, ?_, ?_⟩
  · rw [List.all_append, List.all_append, hyear, digits, digits]
    rfl
  · rw [List.length_append, List.length_append, length_year, length_pad (by omega),
      length_pad (by omega)]
  · rw [List.all_append, List.all_append, digits, digits, digits]
    rfl
  · rw [List.length_append, List.length_append, length_pad (by omega), length_pad (by omega),
      length_pad (by omega)]

end Clock

section Targets

inductive ThreadTarget where
  | channel (name : Text)
  | dm (first second : Text)
  deriving DecidableEq

def ThreadTarget.threadPath : ThreadTarget → Path
  | channel name => Channels.threadPath name
  | dm first second => dmPath (first ++ ("--".toList ++ second))

def validateHandler (handler : Text) : Except Text Unit :=
  checkSome (handlerError handler) fun e => .error (handlerErrorText e)

/-- The pattern `CHANNEL_RE`: runs of letters and digits between single hyphens. -/
def isChannelName (channel : Text) : Bool :=
  (channel.splitOn '-').all fun part => part ≠ [] ∧ part.all fun c => c.isLower || c.isDigit

def validateChannelName (channel : Text) : Except Text Unit := do
  refuse (channel = []) "channel name is empty".toList
  refuse (32 < (utf16 channel).length) "channel name exceeds 32 characters".toList
  refuse (isChannelName channel = false) ("invalid channel name: ".toList ++ channel)

def resolveDmMembers (first second : Text) : Except Text ThreadTarget := do
  validateHandler first
  validateHandler second
  .ok (if utf16 second < utf16 first then .dm second first else .dm first second)

def resolveThreadTarget (channel : Text) : Except Text ThreadTarget :=
  match stripPrefix "dm:".toList channel with
  | some pair =>
    match pair.splitOn ',' with
    | [first, second] => resolveDmMembers first second
    | _ => .error "DM format must be dm:handler1,handler2".toList
  | none =>
    match splitPair channel with
    | some (first, second) =>
      if "--".toList <:+: second then .error ("invalid DM name: ".toList ++ channel)
      else resolveDmMembers first second
    | none => do
      validateChannelName channel
      .ok (.channel channel)

end Targets

section Client
variable {Json : Type}

/-- What the client calls outside its own code: the daemon's parsers, compiled for the browser,
the conversion of their results to JavaScript values, and the trap of a parser that panics. -/
structure Wasm (Json : Type) where
  codec : JsonCodec Json
  toValue : List (ThreadEntry Json) → Option (List (ThreadEntry Json))
  /-- The members of a channel, or why its metadata cannot be read. -/
  parseChannelMeta : Text → Except Text (List Text)
  refusal : Text
  trap : Text

variable (wasm : Wasm Json)

structure Tab where
  epochRedirected : Bool
  hasToken : Bool
  me : Text

/-- A message that was stored: the senders its thread allows, the thread before, the text of the
message and the thread afterwards. -/
structure Sent where
  target : ThreadTarget
  senders : List Text
  existing : Text
  line : Text
  content : Text
  lineNumber : Nat
  deriving DecidableEq

/-- The conversion of a `BigInt` to `u64`. -/
def toU64 (n : Int) : Nat := (n % (u64Bound : Int)).toNat

def parseEntries (existing : Text) : Except Text (List (ThreadEntry Json)) :=
  match parseThread wasm.codec existing with
  | .error (.error e) => .error (parseErrorText e)
  | .error (.panicParseU64 _) => .error wasm.trap
  | .ok file =>
    match wasm.toValue file.entries with
    | some entries => .ok entries
    | none => .error wasm.refusal

/-- The checks of the sender; a channel without members is open to all. -/
def checkSender (repo : FileMap) (me : Text) : ThreadTarget → Except Text (List Text)
  | .channel name =>
    match repo.lookup (Channels.metaPath name) with
    | none => .error ("channel '".toList ++ (name ++ "' not found".toList))
    | some content => do
      let members ← wasm.parseChannelMeta content
      refuse (members ≠ [] ∧ me ∉ members) "not_member".toList
      .ok members
  | .dm first second => do
    refuse (me ∉ [first, second]) "not_dm_participant".toList
    checkSome ([first, second].find? fun member => fileExists repo (userPath member) = false)
      fun member => .error ("unknown DM participant: ".toList ++ member)
    .ok [first, second]

/-- The thread as it is read, empty when there is none. -/
def threadText (repo : FileMap) (target : ThreadTarget) : Text :=
  (repo.lookup target.threadPath).getD []

/-- `thrown` is what the file system, git or the sync throws while the message is stored. -/
def send (tab : Tab) (repo : FileMap) (now : UtcTime) (thrown : Option Text) (channel body : Text)
    (replyTo : Option Int) : Except Text Sent := do
  refuse (tab.epochRedirected = true)
    "This workspace has rotated to a new epoch branch. Reload the page to reconnect.".toList
  refuse (tab.hasToken = false) "Reconnect token to send from this browser workspace.".toList
  let target ← resolveThreadTarget channel
  let senders ← checkSender wasm repo tab.me target
  let entries ← parseEntries wasm (threadText repo target)
  let author ← (Handler.new tab.me).mapError handlerErrorText
  let nextLine := maxLine entries + 1
  let line := formatMessage (toU64 nextLine) (toU64 (replyTo.getD 0)) author (timestamp now) body
  checkSome thrown fun text => .error text
  .ok { target := target, senders := senders, existing := threadText repo target, line := line
        content := finalContent (threadText repo target) line, lineNumber := nextLine }

end Client

section Bodies

/-- The body that a reader finds, when the message opens at all. -/
def readBody (body : Text) : Text :=
  joinLines (stripCr (stripCr ((lines body).headD [])) ::
    (lines body).tail.map fun l => unescapeContinuation (stripCr (stripCr (escapeContinuation l))))

/-- A character that stands in no mention. -/
def Separates (c : Char) : Prop := c ≠ '<' ∧ c ≠ '@' ∧ c ≠ '>' ∧ isHandlerChar c = false

theorem separates_lf : Separates '\n' := by
  refine ⟨?_, ?_, ?_, ?_⟩ <;> decide

theorem separates_cr : Separates '\r' := by
  refine ⟨?_, ?_, ?_, ?_⟩ <;> decide

theorem separates_blank : Separates ' ' := by
  refine ⟨?_, ?_, ?_, ?_⟩ <;> decide

theorem prefix_separated_iff {c : Char} {literal : Text} (free : c ∉ literal) (t u : Text) :
    literal <+: t ++ c :: u ↔ literal <+: t := by
  constructor
  · intro h
    have split : t ++ c :: u = t ++ [c] ++ u := by simp
    rw [split] at h
    rcases List.prefix_or_prefix_of_prefix h (List.prefix_append (t ++ [c]) u) with inside | beyond
    · rcases List.prefix_concat_iff.mp inside with whole | inside
      · exact absurd (by simp [whole]) free
      · exact inside
    · exact absurd (beyond.subset (by simp)) free
  · intro h
    exact h.trans (List.prefix_append t (c :: u))

theorem stripPrefix_separated {c : Char} {literal : Text} (free : c ∉ literal) (t u : Text) :
    stripPrefix literal (t ++ c :: u) = (stripPrefix literal t).map fun rest => rest ++ c :: u := by
  rw [stripPrefix, stripPrefix]
  by_cases h : literal <+: t
  · rw [if_pos h, if_pos ((prefix_separated_iff free t u).mpr h),
      List.drop_append_of_le_length h.length_le]
    rfl
  · rw [if_neg h, if_neg (mt (prefix_separated_iff free t u).mp h)]
    rfl

theorem takeWhile_separated {p : Char → Bool} {c : Char} (stops : p c = false) (t u : Text) :
    (t ++ c :: u).takeWhile p = t.takeWhile p := by
  induction t with
  | nil => simp [stops]
  | cons x t ih => rw [List.cons_append, List.takeWhile_cons, List.takeWhile_cons, ih]

theorem dropWhile_separated {p : Char → Bool} {c : Char} (stops : p c = false) (t u : Text) :
    (t ++ c :: u).dropWhile p = t.dropWhile p ++ c :: u := by
  induction t with
  | nil => simp [stops]
  | cons x t ih =>
    rw [List.cons_append, List.dropWhile_cons, List.dropWhile_cons, ih]
    split <;> rfl

theorem scan_separated {c : Char} (sep : Separates c) (t u : Text) :
    scan isHandlerChar 1 (t ++ c :: u) =
      (scan isHandlerChar 1 t).map fun p => (p.1, p.2 ++ c :: u) := by
  rw [scan, scan, takeWhile_separated sep.2.2.2, dropWhile_separated sep.2.2.2]
  split <;> rfl

theorem mentionAt_separated {c : Char} (sep : Separates c) (t u : Text) :
    mentionAt (t ++ c :: u) = mentionAt t := by
  have opens : c ∉ "<@".toList := by simp [sep.1, sep.2.1]
  have closes : c ∉ ['>'] := by simp [sep.2.2.1]
  simp only [mentionAt, stripPrefix_separated opens, scan_separated sep, stripPrefix_separated closes,
    Option.bind_eq_bind, Option.bind_map, Function.comp_def]

theorem mentionAt_of_separates {c : Char} (sep : Separates c) (u : Text) :
    mentionAt (c :: u) = none := by
  have h := mentionAt_separated sep [] u
  rw [List.nil_append] at h
  rw [h]
  rfl

/-- No mention reaches over a separating character. -/
theorem mentionMatches_separated {c : Char} (sep : Separates c) (t u : Text) :
    mentionMatches (t ++ c :: u) = mentionMatches t ++ mentionMatches u := by
  induction t with
  | nil =>
    have head : mentionMatches (c :: u) = (mentionAt (c :: u)).toList ++ mentionMatches u := rfl
    rw [List.nil_append, head, mentionAt_of_separates sep]
    rfl
  | cons x t ih =>
    have at_ := mentionAt_separated sep (x :: t) u
    rw [List.cons_append] at at_
    rw [List.cons_append, mentionMatches, mentionMatches, ih, at_, List.append_assoc]

theorem mentionMatches_stripCr (l : Text) : mentionMatches (stripCr l) = mentionMatches l := by
  by_cases h : EndsInCr l
  · obtain ⟨front, rfl⟩ := List.getLast?_eq_some_iff.mp h
    rw [stripCr_append_cr, mentionMatches_separated separates_cr]
    simp [mentionMatches]
  · rw [stripCr_of_not_endsInCr h]

theorem mentionMatches_blank (l : Text) : mentionMatches (' ' :: l) = mentionMatches l := by
  have h := mentionMatches_separated separates_blank [] l
  rwa [List.nil_append, mentionMatches, List.nil_append] at h

theorem mentionMatches_escape (l : Text) : mentionMatches (escapeContinuation l) = mentionMatches l := by
  rw [escapeContinuation]
  split
  · exact mentionMatches_blank l
  · rfl

theorem mentionMatches_unescape (l : Text) :
    mentionMatches (unescapeContinuation l) = mentionMatches l := by
  rw [unescapeContinuation]
  split
  · rename_i h
    obtain ⟨rest, rfl⟩ := h
    exact (mentionMatches_blank _).symm
  · rfl

theorem mentionMatches_joinLines (ls : List Text) :
    mentionMatches (joinLines ls) = ls.flatMap mentionMatches := by
  induction ls with
  | nil => rfl
  | cons l ls ih =>
    cases ls with
    | nil => simp [joinLines]
    | cons m ls =>
      rw [joinLines_cons_cons, mentionMatches_separated separates_lf, ih]
      rfl

theorem mentionMatches_lines (body : Text) : (lines body).flatMap mentionMatches = mentionMatches body := by
  induction body using lines_induction with
  | nil => rfl
  | last l hne hl => simp [lines_last l hne hl]
  | line l t hl ih =>
    rw [lines_line l t hl, List.flatMap_cons, mentionMatches_stripCr, ih,
      mentionMatches_separated separates_lf]

/-- The reader finds the mentions that were written. -/
theorem extractMentions_readBody (body : Text) : extractMentions (readBody body) = extractMentions body := by
  have same : mentionMatches (readBody body) = mentionMatches body := by
    rw [readBody, mentionMatches_joinLines, List.flatMap_cons, List.flatMap_map,
      mentionMatches_stripCr, mentionMatches_stripCr, ← mentionMatches_lines body]
    simp only [mentionMatches_unescape, mentionMatches_stripCr, mentionMatches_escape]
    cases lines body with
    | nil => rfl
    | cons first rest => rfl
  rw [extractMentions, extractMentions, same]

/-- The text is nothing but white space. -/
def Blank (t : Text) : Prop := ∀ c ∈ t, isWhiteSpace c = true

theorem mem_of_mem_trim {c : Char} {t : Text} (h : c ∈ trim t) : c ∈ t := by
  have front := (List.dropWhile_sublist isWhiteSpace).subset (List.mem_reverse.mp h)
  exact (List.dropWhile_sublist isWhiteSpace).subset (List.mem_reverse.mp front)

theorem trim_eq_nil_iff (t : Text) : trim t = [] ↔ Blank t := by
  constructor
  · intro h c hc
    by_contra visible
    have kept := mem_trim hc (Bool.eq_false_of_not_eq_true visible)
    rw [h] at kept
    cases kept
  · intro blank
    by_contra h
    obtain ⟨c, hc, visible⟩ := exists_mem_trim h
    have inside : c ∈ t := mem_of_mem_trim hc
    rw [blank c inside] at visible
    cases visible

theorem blank_append (a b : Text) : Blank (a ++ b) ↔ Blank a ∧ Blank b := by
  simp only [Blank, List.forall_mem_append]

theorem blank_cons {c : Char} (white : isWhiteSpace c = true) (t : Text) : Blank (c :: t) ↔ Blank t := by
  simp only [Blank, List.forall_mem_cons, white, true_and]

theorem blank_stripCr (l : Text) : Blank (stripCr l) ↔ Blank l := by
  by_cases h : EndsInCr l
  · obtain ⟨front, rfl⟩ := List.getLast?_eq_some_iff.mp h
    have white : isWhiteSpace '\r' = true := by decide
    rw [stripCr_append_cr, blank_append, blank_cons white]
    simp [Blank]
  · rw [stripCr_of_not_endsInCr h]

theorem blank_escape (l : Text) : Blank (escapeContinuation l) ↔ Blank l := by
  rw [escapeContinuation]
  split
  · exact blank_cons (by decide) l
  · rfl

theorem blank_unescape (l : Text) : Blank (unescapeContinuation l) ↔ Blank l := by
  rw [unescapeContinuation]
  split
  · rename_i h
    obtain ⟨rest, rfl⟩ := h
    exact (blank_cons (by decide) _).symm
  · rfl

theorem blank_joinLines (ls : List Text) : Blank (joinLines ls) ↔ ∀ l ∈ ls, Blank l := by
  induction ls with
  | nil => simp [joinLines, Blank]
  | cons l ls ih =>
    cases ls with
    | nil => simp [joinLines]
    | cons m ls =>
      have white : isWhiteSpace '\n' = true := by decide
      rw [joinLines_cons_cons, blank_append, blank_cons white, ih]
      exact List.forall_mem_cons.symm

theorem blank_lines (body : Text) : (∀ l ∈ lines body, Blank l) ↔ Blank body := by
  induction body using lines_induction with
  | nil => simp [Blank]
  | last l hne hl => simp [lines_last l hne hl]
  | line l t hl ih =>
    have white : isWhiteSpace '\n' = true := by decide
    rw [lines_line l t hl, List.forall_mem_cons, blank_stripCr, ih, blank_append, blank_cons white]

/-- The reader finds white space only where white space was written. -/
theorem trim_readBody (body : Text) : trim (readBody body) = [] ↔ trim body = [] := by
  rw [trim_eq_nil_iff, trim_eq_nil_iff, readBody, blank_joinLines, ← blank_lines body,
    List.forall_mem_cons, List.forall_mem_map, blank_stripCr, blank_stripCr]
  simp only [blank_unescape, blank_stripCr, blank_escape]
  cases lines body with
  | nil => simp [Blank]
  | cons first rest => rw [List.forall_mem_cons, List.headD_cons, List.tail_cons]

end Bodies

section Formatted
variable {Json : Type} (codec : JsonCodec Json)

/-- The first line of the body is more than the carriage returns that the reader takes off. -/
def Opens (body : Text) : Prop := stripCr (stripCr ((lines body).headD [])) ≠ []

instance (body : Text) : Decidable (Opens body) := inferInstanceAs (Decidable (_ ≠ _))

theorem opens_of_derives {ln pt : Nat} {author : Handler} {ts body : Text}
    {es : List (ThreadEntry Json)} (hts : TimestampShape ts)
    (h : Derives codec (normalizedLines (formatMessage ln pt author ts body)) es) : Opens body := by
  obtain ⟨conts, hlines, -⟩ := normalizedLines_formatMessage ln pt author body hts
  intro hfirst
  rw [hlines, hfirst] at h
  obtain ⟨caps, -, -, hcaps, -⟩ := derives_cons h
  rw [msgCaptures_bare ln pt author hts] at hcaps
  cases hcaps

theorem derives_of_opens {ln pt : Nat} (author : Handler) {ts body : Text} (hln : ln < u64Bound)
    (hpt : pt < u64Bound) (hts : TimestampShape ts) (opens : Opens body) :
    Derives codec (normalizedLines (formatMessage ln pt author ts body))
      [.message ⟨ln, pt, author, ts, readBody body⟩] := by
  have hblank : ' ' ≠ '\r' := by decide
  let conts := ((lines body).tail.map escapeContinuation).map fun l => stripCr (stripCr l)
  have hlines : normalizedLines (formatMessage ln pt author ts body) =
      (formatPrefix ln pt author ts ++ ' ' :: stripCr (stripCr ((lines body).headD []))) :: conts := by
    rw [formatMessage_eq, normalizedLines_unlines_map, List.map_cons]
    · rw [stripCr_append_cons, stripCr_cons hblank, stripCr_append_cons, stripCr_cons hblank]
    · intro l hl
      rcases List.mem_cons.mp hl with rfl | hl
      · exact formatPrefix_no_lf ln pt author hts _ (headD_no_lf body)
      · obtain ⟨k, hk, rfl⟩ := List.mem_map.mp hl
        exact escapeContinuation_no_lf (lines_no_lf (List.mem_of_mem_tail hk))
  have plain : ∀ c ∈ conts, msgCaptures c = none := by
    intro c hc
    obtain ⟨k, hk, rfl⟩ := List.mem_map.mp hc
    obtain ⟨l, -, rfl⟩ := List.mem_map.mp hk
    exact msgCaptures_escaped_prefix ((stripCr_isPrefix _).trans (stripCr_isPrefix _))
  have hlf := not_mem_stripCr (not_mem_stripCr (headD_no_lf body))
  have header := msgCaptures_formatted ln pt author (e := none) hts (by simp) opens hlf
  have opened : openEntry codec 0 (formattedCaptures ln pt author ts none
      (stripCr (stripCr ((lines body).headD [])))) = .ok (.message ⟨ln, pt, author, ts, []⟩) :=
    (openEntry_eq_ok_iff codec).mpr ⟨ln, pt, author, parseU64_padNumber _ _ hln,
      parseU64_padNumber _ _ hpt, rfl, rfl⟩
  have derived := Derives.block header opened plain (.nil : Derives codec [] [])
  have body_eq : blockBody (formattedCaptures ln pt author ts none
      (stripCr (stripCr ((lines body).headD [])))) conts = readBody body := by
    rw [blockBody, List.map_map, List.map_map]
    rfl
  rw [List.append_nil, body_eq] at derived
  rw [hlines]
  exact derived

theorem parseThread_formatMessage_iff {ln pt : Nat} (author : Handler) {ts body : Text}
    {own : ThreadFile Json} (hln : ln < u64Bound) (hpt : pt < u64Bound) (hts : TimestampShape ts) :
    parseThread codec (formatMessage ln pt author ts body) = .ok own ↔
      Opens body ∧ own = ⟨[.message ⟨ln, pt, author, ts, readBody body⟩]⟩ := by
  constructor
  · intro h
    have opens := opens_of_derives codec hts ((parseThread_eq_ok_iff codec).mp h)
    have derived : parseThread codec (formatMessage ln pt author ts body) =
        .ok ⟨[.message ⟨ln, pt, author, ts, readBody body⟩]⟩ :=
      (parseThread_eq_ok_iff codec).mpr (derives_of_opens codec author hln hpt hts opens)
    exact ⟨opens, Except.ok.inj (h.symm.trans derived)⟩
  · rintro ⟨opens, rfl⟩
    exact (parseThread_eq_ok_iff codec).mpr (derives_of_opens codec author hln hpt hts opens)

end Formatted

section Numbers
variable {Json : Type} {isObject : Json → Bool} {users : List Text}

/-- The lines of a thread without issues count up from where the reader stands. -/
theorem lines_of_clean {es : List (ThreadEntry Json)} {seen : Seen} (safe : SafeNumbers es)
    (clean : issuesFrom isObject users seen es = []) :
    es.map ThreadEntry.lineNumber = List.range' seen.expectedNext es.length := by
  induction es generalizing seen with
  | nil => rfl
  | cons e es ih =>
    rw [issuesFrom, List.append_eq_nil_iff] at clean
    obtain ⟨here, later⟩ := clean
    have small : e.lineNumber ≤ maxSafeInteger := (safe e List.mem_cons_self).1
    have numbered : e.lineNumber = seen.expectedNext := by
      rw [entryIssues.eq_def, List.append_eq_nil_iff, List.append_eq_nil_iff, report_eq_nil_iff] at here
      exact not_not.mp here.1.1
    have next : (seen.after e).expectedNext = seen.expectedNext + 1 := by
      have bound : maxSafeInteger + 1 < u64Bound := by decide
      rw [Seen.after, nextLine, Nat.mod_eq_of_lt (by omega), numbered]
    rw [List.map_cons, ih (fun x hx => safe x (List.mem_cons_of_mem e hx)) later, next, numbered,
      List.length_cons, List.range'_succ]

theorem numbers_of_clean {es : List (ThreadEntry Json)} (safe : SafeNumbers es)
    (clean : issuesFrom isObject users ⟨[], 1⟩ es = []) :
    maxLine es = es.length ∧ lastLineNumber es = es.length := by
  have counted := lines_of_clean safe clean
  constructor
  · rw [maxLine, counted]
    by_cases empty : es.length = 0
    · rw [empty]
      rfl
    · have top : (List.range' 1 es.length).max? = some es.length := by
        refine List.max?_eq_some_iff.mpr ⟨List.mem_range'_1.mpr ⟨by omega, by omega⟩, ?_⟩
        intro n hn
        have below := (List.mem_range'_1.mp hn).2
        omega
      rw [top]
      rfl
  · rw [lastLineNumber, ← List.getLast?_map, counted, List.getLast?_range']
    split
    · rename_i empty
      exact empty.symm
    · simp

theorem toU64_lt (n : Int) : toU64 n < u64Bound := by
  have bound : (0 : Int) < u64Bound := by decide
  have low := Int.emod_nonneg n bound.ne'
  have high := Int.emod_lt_of_pos n bound
  rw [toU64]
  omega

theorem toU64_natCast {n : Nat} (small : n < u64Bound) : toU64 n = n := by
  rw [toU64, ← Int.natCast_mod, Int.toNat_natCast, Nat.mod_eq_of_lt small]

end Numbers

section Closing
variable {Json : Type} (codec : JsonCodec Json)

/-- A line feed behind an unterminated last line changes nothing for the reader. -/
def Closes (existing : Text) : Prop :=
  existing ≠ [] → ¬ EndsInLf existing →
    parseThread codec (existing ++ ['\n']) = parseThread codec existing

theorem closes_of_not_endsInCr {existing : Text} (noCr : ¬ EndsInCr existing) :
    Closes codec existing := by
  intro nonempty unterminated
  cases parsed : parseThread codec existing with
  | ok file =>
    rw [parseThread_eq_ok_iff] at parsed ⊢
    rwa [normalizedLines_terminate unterminated noCr nonempty]
  | error fault =>
    have empty : replaceCrLf existing ≠ [] := mt (replaceCrLf_eq_nil_iff existing).mp nonempty
    have longer : replaceCrLf (existing ++ ['\n']) ≠ [] :=
      mt (replaceCrLf_eq_nil_iff _).mp (by simp)
    rw [parseThread, if_neg empty] at parsed
    rw [parseThread, if_neg longer, normalizedLines_terminate unterminated noCr nonempty]
    exact parsed

/-- Behind a thread that closes, a message that is read alone is read as one more entry. -/
theorem parseThread_finalContent {existing line : Text} {old : ThreadFile Json}
    {entry : ThreadEntry Json} (hold : parseThread codec existing = .ok old)
    (hline : parseThread codec line = .ok ⟨[entry]⟩) (closes : Closes codec existing) :
    parseThread codec (finalContent existing line) = .ok ⟨old.entries ++ [entry]⟩ := by
  rw [finalContent]
  split
  · rename_i open_
    have closed := closes open_.1 open_.2
    rw [hold] at closed
    exact parseThread_append codec closed hline
      (Or.inr (endsInLf_append_lf existing [] (Or.inl rfl)))
  · rename_i done
    rw [List.append_nil]
    apply parseThread_append codec hold hline
    by_cases nonempty : existing = []
    · exact Or.inl nonempty
    · exact Or.inr (not_not.mp fun h => done ⟨nonempty, h⟩)

/-- Conversely the thread can be cut in front of the message. -/
theorem closes_of_parseThread {existing line : Text} {old : ThreadFile Json}
    {entry entry' : ThreadEntry Json} (hold : parseThread codec existing = .ok old)
    (hline : parseThread codec line = .ok ⟨[entry]⟩)
    (hall : parseThread codec (finalContent existing line) = .ok ⟨old.entries ++ [entry']⟩) :
    Closes codec existing := by
  intro nonempty unterminated
  have terminated : EndsInLf (existing ++ ['\n']) := endsInLf_append_lf existing [] (Or.inl rfl)
  rw [finalContent, if_pos ⟨nonempty, unterminated⟩, parseThread_eq_ok_iff,
    normalizedLines_append line (Or.inr terminated)] at hall
  have own := (parseThread_eq_ok_iff codec).mp hline
  cases hlines : normalizedLines line with
  | nil =>
    rw [hlines] at own
    cases own
  | cons header conts =>
    rw [hlines] at own hall
    obtain ⟨caps, -, -, hcaps, -⟩ := derives_cons own
    have isHead : isHeader header = true := by rw [isHeader, hcaps]; rfl
    obtain ⟨front, back, split, hfront, hback⟩ := derives_cut hall isHead
    have one : back.length = [entry'].length := by
      rw [derives_length hback, ← derives_length own]
      rfl
    rw [hold, parseThread_eq_ok_iff, (List.append_inj' split one.symm).1]
    exact hfront

end Closing

section Agreement
variable {Json : Type} (wasm : Wasm Json) (isObject : Json → Bool) (users : List Text)

/-- What the daemon guarantees of a message that was sent. -/
structure Compliant (repo : FileMap) (sent : Sent) : Prop where
  follows : ∃ old msg, parseThread wasm.codec sent.existing = .ok old ∧
    parseThread wasm.codec sent.content = .ok ⟨old.entries ++ [.message msg]⟩ ∧
    msg.lineNumber = lastLineNumber old.entries + 1
  clean : checkThreadIntegrity wasm.codec isObject users sent.content = .ok []
  accepted : validateAppend wasm.codec isObject users sent.senders sent.existing sent.line = .ok ()
  unarchived : ∀ first second, sent.target = .dm first second →
    fileExists repo (archivedDmPath (dmFilename first second)) = false

/-- What the web client leaves unchecked. -/
structure Sendable (repo : FileMap) (target : ThreadTarget) (body : Text)
    (replyTo : Option Int) : Prop where
  closes : Closes wasm.codec (threadText repo target)
  opens : Opens body
  visible : trim body ≠ []
  mentions : ∀ mention ∈ extractMentions body, mention ∈ users
  answers : ∀ file, parseThread wasm.codec (threadText repo target) = .ok file →
    toU64 (replyTo.getD 0) ≠ 0 →
      toU64 (replyTo.getD 0) ∈ file.entries.map ThreadEntry.lineNumber
  unarchived : ∀ first second, target = .dm first second →
    fileExists repo (archivedDmPath (dmFilename first second)) = false

variable {wasm isObject users}

theorem checkSender_allows {repo : FileMap} {me : Text} {target : ThreadTarget} {senders : List Text}
    (h : checkSender wasm repo me target = .ok senders) : ¬ (senders ≠ [] ∧ me ∉ senders) := by
  cases target with
  | channel name =>
    rw [checkSender] at h
    cases found : repo.lookup (Channels.metaPath name) with
    | none =>
      rw [found] at h
      cases h
    | some content =>
      rw [found] at h
      obtain ⟨members, -, h⟩ := bind_eq_ok_iff.mp h
      obtain ⟨allowed, h⟩ := then_eq_ok_iff.mp h
      rw [refuse_eq_ok_iff] at allowed
      exact Except.ok.inj h ▸ allowed
  | dm first second =>
    rw [checkSender] at h
    obtain ⟨allowed, h⟩ := then_eq_ok_iff.mp h
    obtain ⟨-, h⟩ := then_eq_ok_iff.mp h
    rw [refuse_eq_ok_iff, not_not] at allowed
    rintro ⟨-, outside⟩
    exact outside (Except.ok.inj h ▸ allowed)

theorem send_eq_ok {tab : Tab} {repo : FileMap} {now : UtcTime} {thrown : Option Text}
    {channel body : Text} {replyTo : Option Int} {sent : Sent}
    (h : send wasm tab repo now thrown channel body replyTo = .ok sent) :
    ∃ target senders entries author, resolveThreadTarget channel = .ok target ∧
      checkSender wasm repo tab.me target = .ok senders ∧
      parseEntries wasm (threadText repo target) = .ok entries ∧
      author.name = tab.me ∧ sent =
        { target := target, senders := senders, existing := threadText repo target
          line := formatMessage (toU64 (maxLine entries + 1 : Nat)) (toU64 (replyTo.getD 0)) author
            (timestamp now) body
          content := finalContent (threadText repo target)
            (formatMessage (toU64 (maxLine entries + 1 : Nat)) (toU64 (replyTo.getD 0)) author
              (timestamp now) body)
          lineNumber := maxLine entries + 1 } := by
  rw [send] at h
  obtain ⟨-, h⟩ := then_eq_ok_iff.mp h
  obtain ⟨-, h⟩ := then_eq_ok_iff.mp h
  obtain ⟨target, resolved, h⟩ := bind_eq_ok_iff.mp h
  obtain ⟨senders, checked, h⟩ := bind_eq_ok_iff.mp h
  obtain ⟨entries, parsed, h⟩ := bind_eq_ok_iff.mp h
  obtain ⟨author, named, h⟩ := bind_eq_ok_iff.mp h
  obtain ⟨-, h⟩ := then_eq_ok_iff.mp h
  have name_eq : author.name = tab.me := by
    have made := mapError_eq_ok_iff.mp named
    rw [Handler.new] at made
    split at made
    · cases made
    · rw [← Except.ok.inj made]
  exact ⟨target, senders, entries, author, resolved, checked, parsed, name_eq, (Except.ok.inj h).symm⟩

theorem parseEntries_eq_ok
    (handed : ∀ parsed es, wasm.toValue parsed = some es → es = parsed ∧ SafeNumbers parsed)
    {existing : Text} {entries : List (ThreadEntry Json)} (h : parseEntries wasm existing = .ok entries) :
    parseThread wasm.codec existing = .ok ⟨entries⟩ ∧ SafeNumbers entries := by
  rw [parseEntries] at h
  cases parsed : parseThread wasm.codec existing with
  | error fault =>
    rw [parsed] at h
    cases fault <;> cases h
  | ok file =>
    rw [parsed] at h
    cases value : wasm.toValue file.entries with
    | none =>
      simp only [value] at h
      cases h
    | some es =>
      simp only [value] at h
      obtain ⟨rfl, safe⟩ := handed _ _ value
      obtain rfl : file.entries = entries := Except.ok.inj h
      exact ⟨rfl, safe⟩

theorem length_le_of_clean {es : List (ThreadEntry Json)} (safe : SafeNumbers es)
    (clean : issuesFrom isObject users ⟨[], 1⟩ es = []) : es.length ≤ maxSafeInteger := by
  by_cases empty : es.length = 0
  · omega
  · have last : es.length ∈ es.map ThreadEntry.lineNumber := by
      have counted : es.map ThreadEntry.lineNumber = List.range' 1 es.length :=
        lines_of_clean safe clean
      rw [counted]
      exact List.mem_range'_1.mpr ⟨by omega, by omega⟩
    obtain ⟨e, he, hline⟩ := List.mem_map.mp last
    have small := (safe e he).1
    omega

/-- What the daemon's check asks of a formatted message. -/
theorem accepted_iff {senders : List Text} {existing body : Text} {old : ThreadFile Json}
    {ln pt : Nat} {author : Handler} {ts : Text} (hold : parseThread wasm.codec existing = .ok old)
    (hln : ln < u64Bound) (hpt : pt < u64Bound) (hts : TimestampShape ts)
    (next : nextLine (lastLineNumber old.entries) = ln) (registered : author.name ∈ users)
    (allowed : ¬ (senders ≠ [] ∧ author.name ∉ senders)) :
    validateAppend wasm.codec isObject users senders existing (formatMessage ln pt author ts body) =
        .ok () ↔
      Opens body ∧ (pt ≠ 0 → pt ∈ old.entries.map ThreadEntry.lineNumber) ∧
        (∀ mention ∈ extractMentions body, mention ∈ users) ∧ trim body ≠ [] := by
  have checked : ∀ u, checkEntries isObject users senders (old.entries.foldl Seen.after ⟨[], 1⟩)
      [.message ⟨ln, pt, author, ts, readBody body⟩] = .ok u ↔
        (pt ≠ 0 → pt ∈ old.entries.map ThreadEntry.lineNumber) ∧
          (∀ mention ∈ extractMentions body, mention ∈ users) ∧ trim body ≠ [] := by
    intro u
    rw [foldl_after, next, checkEntries, then_eq_ok_iff, checkEntry.eq_def, then_eq_ok_iff,
      then_eq_ok_iff, then_eq_ok_iff, refuse_eq_ok_iff, refuse_eq_ok_iff, refuse_eq_ok_iff]
    simp only [checkMessage_ok_iff, extractMentions_readBody, ne_eq, trim_readBody]
    constructor
    · rintro ⟨⟨-, -, -, points, rest⟩, -⟩
      exact ⟨not_and_not_right.mp points, rest⟩
    · rintro ⟨points, rest⟩
      exact ⟨⟨not_not.mpr rfl, not_not.mpr registered, allowed, not_and_not_right.mpr points, rest⟩,
        rfl⟩
  rw [validateAppend_ok_iff]
  constructor
  · rintro ⟨old', new, hold', hnew, hcheck⟩
    rw [hold] at hold'
    cases hold'
    obtain ⟨opens, rfl⟩ := (parseThread_formatMessage_iff wasm.codec author hln hpt hts).mp hnew
    exact ⟨opens, (checked ()).mp hcheck⟩
  · rintro ⟨opens, rest⟩
    exact ⟨old, _, hold, (parseThread_formatMessage_iff wasm.codec author hln hpt hts).mpr ⟨opens, rfl⟩,
      (checked ()).mpr rest⟩

/-- A send that is answered keeps the thread compliant exactly if the body, the reply target, the
thread and the archive are as the daemon would insist. -/
theorem send_compliant_iff
    (handed : ∀ parsed es, wasm.toValue parsed = some es → es = parsed ∧ SafeNumbers parsed)
    (tab : Tab) (repo : FileMap) (now : UtcTime) (thrown : Option Text) (channel body : Text)
    (replyTo : Option Int) (target : ThreadTarget) (sent : Sent)
    (resolved : resolveThreadTarget channel = .ok target)
    (clean : checkThreadIntegrity wasm.codec isObject users (threadText repo target) = .ok [])
    (registered : tab.me ∈ users)
    (answered : send wasm tab repo now thrown channel body replyTo = .ok sent) :
    Compliant wasm isObject users repo sent ↔ Sendable wasm users repo target body replyTo := by
  obtain ⟨target', senders, entries, author, resolved', checked, parsed, named, hsent⟩ :=
    send_eq_ok answered
  obtain rfl : target = target' := Except.ok.inj (resolved.symm.trans resolved')
  obtain ⟨hold, safe⟩ := parseEntries_eq_ok handed parsed
  have noIssues := (checkThreadIntegrity_clean_iff hold).mp clean
  obtain ⟨top, last⟩ := numbers_of_clean safe noIssues
  have room := length_le_of_clean safe noIssues
  have bound : maxSafeInteger + 1 < u64Bound := by decide
  have number : toU64 ((maxLine entries + 1 : Nat) : Int) = entries.length + 1 := by
    rw [toU64_natCast (by omega), top]
  rw [number] at hsent
  have next : nextLine (lastLineNumber entries) = entries.length + 1 := by
    rw [last, nextLine, Nat.mod_eq_of_lt (by omega)]
  have hts := timestamp_shape now
  have hpt := toU64_lt (replyTo.getD 0)
  have hln : entries.length + 1 < u64Bound := by omega
  have allowed : ¬ (senders ≠ [] ∧ author.name ∉ senders) := named ▸ checkSender_allows checked
  have accepts : validateAppend wasm.codec isObject users senders (threadText repo target)
      (formatMessage (entries.length + 1) (toU64 (replyTo.getD 0)) author (timestamp now) body) =
        .ok () ↔ _ := accepted_iff hold hln hpt hts next (named ▸ registered) allowed
  subst hsent
  constructor
  · intro ok
    obtain ⟨opens, points, mentions, visible⟩ := accepts.mp ok.accepted
    obtain ⟨old, msg, hold', hall, -⟩ := ok.follows
    obtain rfl : old = ⟨entries⟩ := Except.ok.inj (hold'.symm.trans hold)
    have own := (parseThread_formatMessage_iff wasm.codec author hln hpt hts).mpr ⟨opens, rfl⟩
    refine ⟨closes_of_parseThread wasm.codec hold own hall, opens, visible, mentions, ?_, ok.unarchived⟩
    intro file hfile
    obtain rfl : file = ⟨entries⟩ := Except.ok.inj (hfile.symm.trans hold)
    exact points
  · intro can
    have accepted := accepts.mpr ⟨can.opens, can.answers _ hold, can.mentions, can.visible⟩
    have own := (parseThread_formatMessage_iff wasm.codec author hln hpt hts).mpr ⟨can.opens, rfl⟩
    have hall := parseThread_finalContent wasm.codec hold own can.closes
    refine ⟨⟨⟨entries⟩, _, hold, hall, ?_⟩, ?_, accepted, can.unarchived⟩
    · rw [last]
    · obtain ⟨old, new, hold', hnew, hcheck⟩ := validateAppend_ok_iff.mp accepted
      obtain rfl : old = ⟨entries⟩ := Except.ok.inj (hold'.symm.trans hold)
      obtain rfl := Except.ok.inj (hnew.symm.trans own)
      rw [checkThreadIntegrity_clean_iff hall, issuesFrom_append, noIssues,
        issuesFrom_of_checkEntries hcheck]
      rfl

end Agreement

section Samples

def sampleWasm : Wasm SmallJson where
  codec := smallCodec
  toValue := handOver fun _ => []
  parseChannelMeta content :=
    if content = "members:\n- alice\n".toList then .ok ["alice".toList] else .error []
  refusal := []
  trap := []

def sampleRepo : FileMap :=
  [(Channels.metaPath "general".toList, "members:\n- alice\n".toList),
    (Channels.threadPath "general".toList, baseText)]

def sampleTab : Tab := ⟨false, true, "alice".toList⟩

def newYearsDay : UtcTime :=
  ⟨2026, 1, 1, 0, 0, 0, by decide, by decide, by decide⟩

/-- The message that is stored for a body, in answer to the first line. -/
def sampleSent (body : Text) : Sent :=
  let line := formatMessage 2 1 alice newYear body
  ⟨.channel "general".toList, ["alice".toList], baseText, line, baseText ++ line, 2⟩

theorem send_compliant_iff_reply :
    Compliant sampleWasm smallObject ["alice".toList] sampleRepo (sampleSent "hi <@alice>".toList) := by
  have answered : send sampleWasm sampleTab sampleRepo newYearsDay none "general".toList
      "hi <@alice>".toList (some 1) = .ok (sampleSent "hi <@alice>".toList) := by decide +kernel
  apply (send_compliant_iff (fun _ _ => handOver_eq_some) sampleTab sampleRepo newYearsDay none "general".toList
    "hi <@alice>".toList (some 1) (.channel "general".toList) _ (by decide +kernel)
    (by decide +kernel) (by decide) answered).mpr
  have hold : parseThread smallCodec baseText = .ok ⟨[sampleMessage 1 0 "hello".toList]⟩ := by
    decide +kernel
  refine ⟨closes_of_not_endsInCr _ (by decide), by decide, by decide, by decide, ?_, ?_⟩
  · intro file hfile _
    obtain rfl := Except.ok.inj (hfile.symm.trans hold)
    decide
  · intro first second h
    cases h

/-- A body that starts with an empty line: the answer is a line number, and the thread has no such
message but a longer first one. -/
theorem not_compliant_emptyLine :
    send sampleWasm sampleTab sampleRepo newYearsDay none "general".toList "\nhi".toList (some 1) =
        .ok (sampleSent "\nhi".toList) ∧
      checkThreadIntegrity smallCodec smallObject ["alice".toList]
        (threadText sampleRepo (.channel "general".toList)) = .ok [] ∧
      parseThread smallCodec (sampleSent "\nhi".toList).content = .ok ⟨[sampleMessage 1 0
        "hello\n[L000002][P000001][@alice][20260101T000000Z] \nhi".toList]⟩ ∧
      ¬ Compliant sampleWasm smallObject ["alice".toList] sampleRepo (sampleSent "\nhi".toList) := by
  have swallowed : parseThread smallCodec (sampleSent "\nhi".toList).content = .ok ⟨[sampleMessage 1 0
      "hello\n[L000002][P000001][@alice][20260101T000000Z] \nhi".toList]⟩ := by decide +kernel
  refine ⟨by decide +kernel, by decide +kernel, swallowed, ?_⟩
  intro ok
  obtain ⟨old, msg, hold, hall, -⟩ := ok.follows
  have base : parseThread smallCodec baseText = .ok ⟨[sampleMessage 1 0 "hello".toList]⟩ := by
    decide +kernel
  obtain rfl := Except.ok.inj (hold.symm.trans base)
  have same := congrArg ThreadFile.entries (Except.ok.inj (hall.symm.trans swallowed))
  have lengths := congrArg List.length same
  simp at lengths

end Samples

end WebSends
