import GitIM.Flows
import GitIM.InclusiveLines

/-!
# Boards

The board of a member: metadata in a frontmatter and a body of sections under headings. The checks of
a board, its file, and the edits of one field or one section, each with the board that it leaves
behind.
-/

namespace Boards

open TextLines TextScan Checked ThreadFormat Cards InclusiveLines

section Data

def boardVersion : Nat := 1

def boardMaxBytes : Nat := 64 * 1024

def boardMaxStatusLen : Nat := 80

def boardMaxSummaryLen : Nat := 280

def boardMaxLabels : Nat := 20

structure BoardMeta where
  version : Nat
  handler : Text
  updatedAt : Text
  status : Text
  summary : Text
  labels : List Text
  deriving DecidableEq

structure BoardDocument where
  info : BoardMeta
  body : Text
  deriving DecidableEq

/-- Reading and writing of board metadata as YAML. -/
structure BoardCodec where
  fromStr : Text → Except Text BoardMeta
  toStr : BoardMeta → Except Text Text

inductive BoardError where
  | invalidHandler (reason : Text)
  | unsupportedVersion (version expected : Nat)
  | invalidTimestamp (timestamp : Text)
  | emptyStatus
  | statusTooLong (length bound : Nat)
  | summaryTooLong (length bound : Nat)
  | label (e : LabelError)
  | yamlSerialize (message : Text)
  | unknownField (field : Text)
  | invalidSection (reason : Text)
  | documentTooLarge (length bound : Nat)
  deriving DecidableEq

def exceedsText (what : Text) (length bound : Nat) : Text :=
  what ++ (" exceeds ".toList ++ ((toString bound).toList ++ (" bytes, got ".toList ++
    (toString length).toList)))

def BoardError.text : BoardError → Text
  | invalidHandler reason => "invalid handler: ".toList ++ reason
  | unsupportedVersion version expected => "unsupported board version: ".toList ++
      ((toString version).toList ++ (", expected ".toList ++ (toString expected).toList))
  | invalidTimestamp t => "invalid timestamp '".toList ++ (t ++ ['\''])
  | emptyStatus => "status cannot be empty".toList
  | statusTooLong n bound => exceedsText "status".toList n bound
  | summaryTooLong n bound => exceedsText "summary".toList n bound
  | label e => e.text
  | yamlSerialize message => "YAML serialization error: ".toList ++ message
  | unknownField field => "unknown board field '".toList ++ (field ++ ['\''])
  | invalidSection reason => "invalid section name: ".toList ++ reason
  | documentTooLarge n bound => exceedsText "board document".toList n bound

inductive BoardMarkdownError where
  | tooLarge (length bound : Nat)
  | missingOpeningDelimiter
  | missingClosingDelimiter
  | yaml (message : Text)
  | board (e : BoardError)
  deriving DecidableEq

def BoardMarkdownError.text : BoardMarkdownError → Text
  | tooLarge n bound => exceedsText "board markdown".toList n bound
  | missingOpeningDelimiter => "board markdown must start with frontmatter delimiter".toList
  | missingClosingDelimiter => "board markdown missing closing frontmatter delimiter".toList
  | yaml message => "YAML parse error: ".toList ++ message
  | board e => e.text

end Data

section Validation
variable (codec : BoardCodec)

def validateTimestamp (timestamp : Text) : Except BoardError Unit :=
  refuse (¬ (utf8Len timestamp = 16 ∧ timestamp[8]? = some 'T' ∧ timestamp[15]? = some 'Z' ∧
    (timestamp.take 8).all Char.isDigit ∧ ((timestamp.drop 9).take 6).all Char.isDigit))
    (.invalidTimestamp timestamp)

def validateStatus (status : Text) : Except BoardError Unit := do
  refuse (trim status = []) .emptyStatus
  refuse (utf8Len status > boardMaxStatusLen) (.statusTooLong (utf8Len status) boardMaxStatusLen)

def validateSummary (summary : Text) : Except BoardError Unit :=
  refuse (utf8Len summary > boardMaxSummaryLen)
    (.summaryTooLong (utf8Len summary) boardMaxSummaryLen)

def validateBoardMeta (info : BoardMeta) : Except BoardError Unit := do
  refuse (info.version ≠ boardVersion) (.unsupportedVersion info.version boardVersion)
  checkSome (handlerError info.handler) fun e => .error (.invalidHandler (handlerErrorText e))
  validateTimestamp info.updatedAt
  validateStatus info.status
  validateSummary info.summary
  (validateLabels info.labels boardMaxLabels).mapError .label

def delimiter : Text := "---\n".toList

/-- The metadata without a document start in front of it. -/
def bareYaml (yaml : Text) : Text := (stripPrefix delimiter yaml).getD yaml

def renderedBoardLen (info : BoardMeta) (body : Text) : Except BoardError Nat := do
  let yaml ← (codec.toStr info).mapError .yamlSerialize
  let yaml := bareYaml yaml
  .ok (utf8Len delimiter + utf8Len yaml + (if EndsInLf yaml then 0 else 1) + utf8Len delimiter +
    utf8Len body + (if body ≠ [] ∧ ¬ EndsInLf body then 1 else 0))

def validateRenderedSize (info : BoardMeta) (body : Text) : Except BoardError Unit := do
  let len ← renderedBoardLen codec info body
  refuse (len > boardMaxBytes) (.documentTooLarge len boardMaxBytes)

def validateCandidateDocument (info : BoardMeta) (body : Text) : Except BoardError Unit := do
  validateBoardMeta info
  validateRenderedSize codec info body

def validateBoardDocument (doc : BoardDocument) : Except BoardError Unit := do
  validateBoardMeta doc.info
  validateRenderedSize codec doc.info doc.body

end Validation

section Markdown
variable (codec : BoardCodec)

/-- A text with a line feed at its end. -/
def terminated (t : Text) : Text := if EndsInLf t then t else t ++ ['\n']

def stringifyBoardMarkdown (doc : BoardDocument) : Except BoardMarkdownError Text := do
  (validateBoardDocument codec doc).mapError .board
  let yaml ← (codec.toStr doc.info).mapError .yaml
  let out := terminated (delimiter ++ bareYaml yaml)
  let out := terminated (out ++ (delimiter ++ doc.body))
  refuse (utf8Len out > boardMaxBytes) (.board (.documentTooLarge (utf8Len out) boardMaxBytes))
  .ok out

def splitFrontmatter (input : Text) : Except BoardMarkdownError (Text × Text) :=
  match stripPrefix delimiter input with
  | none => .error .missingOpeningDelimiter
  | some rest =>
    match Flows.splitAt ('\n' :: delimiter) rest with
    | some (front, body) => .ok (front ++ ['\n'], body)
    | none =>
      match stripPrefix delimiter rest with
      | some body => .ok ([], body)
      | none => .error .missingClosingDelimiter

def parseBoardMarkdown (input : Text) : Except BoardMarkdownError BoardDocument := do
  refuse (utf8Len input > boardMaxBytes) (.tooLarge (utf8Len input) boardMaxBytes)
  let parts ← splitFrontmatter input
  let info ← (codec.fromStr parts.1).mapError .yaml
  let doc : BoardDocument := ⟨info, parts.2⟩
  (validateBoardDocument codec doc).mapError .board
  .ok doc

end Markdown

section Sections

def headingName (line : Text) : Option Text :=
  (stripPrefix "## ".toList (trimEndMatches '\r' (trimEndMatches '\n' line))).map trim

structure SectionRange where
  start : Nat
  stop : Nat

/-- Where the first heading of a name begins and ends. -/
def sectionStart (name : Text) (offset : Nat) : List Text → Option (Nat × Nat)
  | [] => none
  | line :: rest =>
    if headingName line = some name then some (offset, offset + line.length)
    else sectionStart name (offset + line.length) rest

/-- Where the next heading begins, or else the end of the body. -/
def sectionEnd (bodyLen offset : Nat) : List Text → Nat
  | [] => bodyLen
  | line :: rest =>
    if (headingName line).isSome then offset else sectionEnd bodyLen (offset + line.length) rest

def findSection (body name : Text) : Option SectionRange :=
  match sectionStart name 0 (splitInclusive body) with
  | none => none
  | some (start, contentStart) =>
    some ⟨start, sectionEnd body.length contentStart (splitInclusive (body.drop contentStart))⟩

def normalizeSectionValue (value : Text) : Text := trimEndMatches '\n' (value.dropWhile (· = '\n'))

def sectionBlock (name value : Text) : Text :=
  let value := normalizeSectionValue value
  if value = [] then "## ".toList ++ (name ++ "\n\n".toList)
  else "## ".toList ++ (name ++ ("\n\n".toList ++ (value ++ ['\n'])))

def bodyWithAppendedSection (body block : Text) : Text :=
  if body = [] then block else trimEndMatches '\n' body ++ ("\n\n".toList ++ block)

def appendToSectionBlock (existing value : Text) : Text :=
  let replacement := terminated (trimEndMatches '\n' existing)
  if value = [] then replacement else replacement ++ (value ++ ['\n'])

/-- A body with another text for a part of it. -/
def replaceRange (body : Text) (range : SectionRange) (replacement : Text) : Text :=
  body.take range.start ++ (replacement ++ body.drop range.stop)

end Sections

section Edits
variable (codec : BoardCodec)

def validateSectionName (section_ : Text) : Except BoardError Text :=
  let name := trim section_
  if name = [] then .error (.invalidSection "empty".toList)
  else if '\n' ∈ name ∨ '\r' ∈ name then .error (.invalidSection "must fit on one line".toList)
  else .ok name

def parseLabelsCsv (value : Text) : Except BoardError (List Text) := do
  let labels := ((value.splitOn ',').map trim).filter (· ≠ [])
  (validateLabels labels boardMaxLabels).mapError .label
  .ok labels

/-- A field is set before the document is validated. -/
def setBoardField (doc : BoardDocument) (field value : Text) :
    BoardDocument × Except BoardError Unit :=
  if field = "status".toList then
    match validateStatus (trim value) with
    | .error e => (doc, .error e)
    | .ok () =>
      let doc := { doc with info := { doc.info with status := trim value } }
      (doc, validateBoardDocument codec doc)
  else if field = "summary".toList then
    match validateSummary (trim value) with
    | .error e => (doc, .error e)
    | .ok () =>
      let doc := { doc with info := { doc.info with summary := trim value } }
      (doc, validateBoardDocument codec doc)
  else if field = "labels".toList ∨ field = "tags".toList then
    match parseLabelsCsv value with
    | .error e => (doc, .error e)
    | .ok labels =>
      let doc := { doc with info := { doc.info with labels := labels } }
      (doc, validateBoardDocument codec doc)
  else (doc, .error (.unknownField field))

def setBoardSection (doc : BoardDocument) (section_ value : Text) :
    BoardDocument × Except BoardError Unit :=
  match validateSectionName section_ with
  | .error e => (doc, .error e)
  | .ok name =>
    let replacement := sectionBlock name value
    let body := match findSection doc.body name with
      | some range => replaceRange doc.body range replacement
      | none => bodyWithAppendedSection doc.body replacement
    match validateCandidateDocument codec doc.info body with
    | .error e => (doc, .error e)
    | .ok () => ({ doc with body := body }, .ok ())

def appendBoardSection (doc : BoardDocument) (section_ value : Text) :
    BoardDocument × Except BoardError Unit :=
  match validateSectionName section_ with
  | .error e => (doc, .error e)
  | .ok name =>
    let value := normalizeSectionValue value
    let body := match findSection doc.body name with
      | some range =>
        replaceRange doc.body range
          (appendToSectionBlock ((doc.body.take range.stop).drop range.start) value)
      | none => bodyWithAppendedSection doc.body (sectionBlock name value)
    match validateCandidateDocument codec doc.info body with
    | .error e => (doc, .error e)
    | .ok () => ({ doc with body := body }, .ok ())

end Edits

end Boards
