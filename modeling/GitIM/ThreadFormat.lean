import GitIM.TextScan

/-!
# The thread file format

Handlers, thread entries, the message pattern, `parse_thread`, `format_message`
and `format_event`. Line numbers are `u64` values kept as naturals; the only
partial step of the parser, the conversion of a captured digit run, is an explicit
fault. Mentions and links are functions of a message body and are not stored.
Event bodies are JSON, read and written by a codec that is a parameter.
-/

namespace ThreadFormat

open TextLines TextScan

def u64Bound : Nat := 2 ^ 64

inductive HandlerError where
  | empty
  | tooLong
  | invalidChar (c : Char)
  | hyphenBoundary
  | consecutiveHyphens
  | reserved
  deriving DecidableEq

/-- The displayed text of a handler error. -/
def handlerErrorText : HandlerError → Text
  | .empty => "handler is empty".toList
  | .tooLong => "handler exceeds 39 characters".toList
  | .invalidChar c => "handler contains invalid character: ".toList ++ [c]
  | .hyphenBoundary => "handler must not start or end with hyphen".toList
  | .consecutiveHyphens => "handler must not contain consecutive hyphens".toList
  | .reserved => "handler 'system' is reserved".toList

def systemName : Text := "system".toList

def isHandlerChar (c : Char) : Bool := c.isLower || c.isDigit || c == '-'

def utf8Len (t : Text) : Nat := (t.map Char.utf8Size).sum

/-- The checks of `Handler::new`, in their order; `none` accepts. -/
def handlerError (s : Text) : Option HandlerError :=
  if s = [] then some .empty
  else if utf8Len s > 39 then some .tooLong
  else if s = systemName then some .reserved
  else match s.find? (fun c => !isHandlerChar c) with
    | some c => some (.invalidChar c)
    | none =>
      if s.head? = some '-' ∨ s.getLast? = some '-' then some .hyphenBoundary
      else if "--".toList <:+: s then some .consecutiveHyphens
      else none

/-- A handler is a checked name or the reserved protocol voice. -/
@[ext] structure Handler where
  name : Text
  valid : handlerError name = none ∨ name = systemName
  deriving DecidableEq

def Handler.new (s : Text) : Except HandlerError Handler :=
  match h : handlerError s with
  | some e => .error e
  | none => .ok ⟨s, Or.inl h⟩

def Handler.system : Handler := ⟨systemName, Or.inr rfl⟩

structure Message where
  lineNumber : Nat
  pointTo : Nat
  author : Handler
  timestamp : Text
  body : Text
  deriving DecidableEq

structure ChannelEvent (Json : Type) where
  lineNumber : Nat
  pointTo : Nat
  author : Handler
  timestamp : Text
  eventType : Text
  info : Json
  deriving DecidableEq

inductive ThreadEntry (Json : Type) where
  | message (m : Message)
  | event (e : ChannelEvent Json)
  deriving DecidableEq

namespace ThreadEntry
variable {Json : Type}

def lineNumber : ThreadEntry Json → Nat
  | message m => m.lineNumber
  | event e => e.lineNumber

def pointTo : ThreadEntry Json → Nat
  | message m => m.pointTo
  | event e => e.pointTo

def author : ThreadEntry Json → Handler
  | message m => m.author
  | event e => e.author

def timestamp : ThreadEntry Json → Text
  | message m => m.timestamp
  | event e => e.timestamp

end ThreadEntry

structure ThreadFile (Json : Type) where
  entries : List (ThreadEntry Json)
  deriving DecidableEq

/-- The JSON library: `from_str`, `to_string` and the null value. -/
structure JsonCodec (Json : Type) where
  null : Json
  fromStr : Text → Option Json
  toStr : Json → Text

/-- Compact JSON output is one non-empty line without carriage returns. -/
structure JsonCodec.OneLine {Json : Type} (codec : JsonCodec Json) : Prop where
  nonempty : ∀ v, codec.toStr v ≠ []
  noLf : ∀ v, '\n' ∉ codec.toStr v
  noCr : ∀ v, '\r' ∉ codec.toStr v

/-- Code points of the digit zero of every run of Unicode decimal digits. -/
def digitZeros : List Nat :=
  [0x30, 0x660, 0x6f0, 0x7c0, 0x966, 0x9e6, 0xa66, 0xae6, 0xb66, 0xbe6, 0xc66, 0xce6, 0xd66,
    0xde6, 0xe50, 0xed0, 0xf20, 0x1040, 0x1090, 0x17e0, 0x1810, 0x1946, 0x19d0, 0x1a80, 0x1a90,
    0x1b50, 0x1bb0, 0x1c40, 0x1c50, 0xa620, 0xa8d0, 0xa900, 0xa9d0, 0xa9f0, 0xaa50, 0xabf0,
    0xff10, 0x104a0, 0x10d30, 0x10d40, 0x11066, 0x110f0, 0x11136, 0x111d0, 0x112f0, 0x11450,
    0x114d0, 0x11650, 0x116c0, 0x116d0, 0x116da, 0x11730, 0x118e0, 0x11950, 0x11bf0, 0x11c50,
    0x11d50, 0x11da0, 0x11f50, 0x16130, 0x16a60, 0x16ac0, 0x16b50, 0x16d70, 0x1ccf0, 0x1d7ce,
    0x1d7d8, 0x1d7e2, 0x1d7ec, 0x1d7f6, 0x1e140, 0x1e2f0, 0x1e4f0, 0x1e5f1, 0x1e950, 0x1fbf0]

/-- The class `\d` of the regex engine, which is Unicode-aware. -/
def isRegexDigit (c : Char) : Bool :=
  digitZeros.any fun z => decide (z ≤ c.toNat) && decide (c.toNat < z + 10)

def isEventChar (c : Char) : Bool := c.isLower || c.isDigit || c == '_' || c == '-'

/-- The capture groups of the message pattern. -/
structure MsgCaptures where
  lineNumber : Text
  pointTo : Text
  handler : Text
  timestamp : Text
  eventType : Option Text
  body : Text
  deriving DecidableEq

/-- The timestamp group: eight digits, `T`, six digits, `Z`. -/
def timestampGroup (t : Text) : Option (Text × Text) := do
  let (day, t) ← scanExact isRegexDigit 8 t
  let t ← stripPrefix ['T'] t
  let (time, t) ← scanExact isRegexDigit 6 t
  let t ← stripPrefix ['Z'] t
  some (day ++ 'T' :: (time ++ ['Z']), t)

/-- The optional event group, a lowercase letter and further event characters. -/
def eventGroup (t : Text) : Option (Text × Text) := do
  let t ← stripPrefix "[E:".toList t
  let (initial, t) ← scanExact Char.isLower 1 t
  let (more, t) ← scan isEventChar 0 t
  let t ← stripPrefix [']'] t
  some (initial ++ more, t)

def optionalEventGroup (t : Text) : Option Text × Text :=
  match eventGroup t with
  | some (e, rest) => (some e, rest)
  | none => (none, t)

/-- The anchored pattern `MSG_RE`. No group can give back characters to a later
literal, so one pass from the left decides the match. -/
def msgCaptures (line : Text) : Option MsgCaptures := do
  let t ← stripPrefix "[L".toList line
  let (lineNumber, t) ← scan isRegexDigit 6 t
  let t ← stripPrefix "][P".toList t
  let (pointTo, t) ← scan isRegexDigit 6 t
  let t ← stripPrefix "][@".toList t
  let (handler, t) ← scan isHandlerChar 1 t
  let t ← stripPrefix "][".toList t
  let (timestamp, t) ← timestampGroup t
  let t ← stripPrefix [']'] t
  let body ← stripPrefix [' '] (optionalEventGroup t).2
  if body ≠ [] ∧ '\n' ∉ body then
    some ⟨lineNumber, pointTo, handler, timestamp, (optionalEventGroup t).1, body⟩
  else none

inductive ParseError where
  | firstLineNotMessage (line : Nat)
  | invalidHandler (line : Nat) (source : HandlerError)
  deriving DecidableEq

/-- The displayed text of a parse error. -/
def parseErrorText : ParseError → Text
  | .firstLineNotMessage line => "first non-empty line is not a message start (line ".toList ++
      (Nat.toDigits 10 line ++ [')'])
  | .invalidHandler line source => "invalid handler in message at file line ".toList ++
      (Nat.toDigits 10 line ++ (": ".toList ++ handlerErrorText source))

/-- A parse ends with an error value or in the panic of `preconditions::parse_u64`. -/
inductive ParseFault where
  | error (e : ParseError)
  | panicParseU64 (digits : Text)
  deriving DecidableEq

def parseU64 (s : Text) : Except ParseFault Nat :=
  if s ≠ [] ∧ s.all Char.isDigit ∧ Nat.ofDigitChars 10 s 0 < u64Bound then
    .ok (Nat.ofDigitChars 10 s 0)
  else .error (.panicParseU64 s)

section Parser
variable {Json : Type} (codec : JsonCodec Json)

/-- Complete an entry with its collected body. -/
def ThreadEntry.withBody (body : Text) : ThreadEntry Json → ThreadEntry Json
  | .message m => .message { m with body := body }
  | .event e => .event { e with info := (codec.fromStr body).getD codec.null }

def finalizeEntry (entries : List (ThreadEntry Json)) (body : Option Text) :
    List (ThreadEntry Json) :=
  match body with
  | none => entries
  | some body => entries.modifyLast (ThreadEntry.withBody codec body)

structure ParseState (Json : Type) where
  entries : List (ThreadEntry Json)
  currentBody : Option Text
  firstContentLine : Bool

def headerAuthor (lineIdx : Nat) (raw : Text) : Except ParseFault Handler :=
  if raw = systemName then .ok Handler.system
  else match Handler.new raw with
    | .ok h => .ok h
    | .error e => .error (.error (.invalidHandler (lineIdx + 1) e))

/-- The entry a header line opens, before its body is known. -/
def openEntry (lineIdx : Nat) (caps : MsgCaptures) : Except ParseFault (ThreadEntry Json) := do
  let lineNumber ← parseU64 caps.lineNumber
  let pointTo ← parseU64 caps.pointTo
  let author ← headerAuthor lineIdx caps.handler
  match caps.eventType with
  | some eventType =>
    .ok (.event ⟨lineNumber, pointTo, author, caps.timestamp, eventType, codec.null⟩)
  | none => .ok (.message ⟨lineNumber, pointTo, author, caps.timestamp, []⟩)

/-- A continuation line loses the escape space in front of `[L`. -/
def unescapeContinuation (line : Text) : Text :=
  if " [L".toList <+: line then line.drop 1 else line

def parseLine (lineIdx : Nat) (line : Text) (st : ParseState Json) :
    Except ParseFault (ParseState Json) :=
  match msgCaptures line with
  | some caps => do
    let entry ← openEntry codec lineIdx caps
    .ok ⟨finalizeEntry codec st.entries st.currentBody ++ [entry], some caps.body, false⟩
  | none =>
    if st.firstContentLine then .error (.error (.firstLineNotMessage (lineIdx + 1)))
    else .ok { st with
      currentBody := st.currentBody.map fun body => body ++ '\n' :: unescapeContinuation line }

def parseLines (lineIdx : Nat) : List Text → ParseState Json → Except ParseFault (ParseState Json)
  | [], st => .ok st
  | line :: rest, st => do
    let st ← parseLine codec lineIdx line st
    parseLines (lineIdx + 1) rest st

def parseThread (input : Text) : Except ParseFault (ThreadFile Json) :=
  if replaceCrLf input = [] then .ok ⟨[]⟩
  else do
    let st ← parseLines codec 0 (normalizedLines input) ⟨[], none, true⟩
    .ok ⟨finalizeEntry codec st.entries st.currentBody⟩

end Parser

/-- Decimal digits, padded with zeros on the left to `width`. -/
def padNumber (width n : Nat) : Text :=
  List.replicate (width - (Nat.toDigits 10 n).length) '0' ++ Nat.toDigits 10 n

def lineWidth (lineNumber : Nat) : Nat := max (Nat.toDigits 10 lineNumber).length 6

/-- The pattern `MSG_PREFIX_RE`. -/
def hasMsgPrefix (line : Text) : Bool :=
  ((do
    let t ← stripPrefix "[L".toList line
    let (_, t) ← scan isRegexDigit 6 t
    stripPrefix [']'] t) : Option Text).isSome

def escapeContinuation (line : Text) : Text :=
  if hasMsgPrefix line then ' ' :: line else line

def formatPrefix (lineNumber pointTo : Nat) (author : Handler) (timestamp : Text) : Text :=
  "[L".toList ++ (padNumber (lineWidth lineNumber) lineNumber ++
    ("][P".toList ++ (padNumber (lineWidth lineNumber) pointTo ++
      ("][@".toList ++ (author.name ++ ("][".toList ++ (timestamp ++ [']'])))))))

def formatMessage (lineNumber pointTo : Nat) (author : Handler) (timestamp body : Text) : Text :=
  formatPrefix lineNumber pointTo author timestamp ++ ' ' ::
    match lines body with
    | first :: rest => first ++ '\n' :: unlines (rest.map escapeContinuation)
    | [] => ['\n']

def formatEvent {Json : Type} (codec : JsonCodec Json) (lineNumber : Nat) (author : Handler)
    (timestamp eventType : Text) (info : Json) : Text :=
  formatPrefix lineNumber 0 author timestamp ++
    ("[E:".toList ++ (eventType ++ ("] ".toList ++ (codec.toStr info ++ ['\n']))))

end ThreadFormat
