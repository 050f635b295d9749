import GitIM.Cards

/-!
# Flow documents

A flow is a markdown file: the metadata and the nodes as YAML between two delimiters, and
behind them one section with the prompt of each node. The nodes depend on each other by
their ids, without cycles.
-/

namespace Flows

open TextLines TextScan FileTree Checked ThreadFormat Cards

section Data

inductive FlowSlugError where
  | empty
  | tooLong
  | invalidChar (c : Char)
  | hyphenBoundary
  | consecutiveHyphens
  deriving DecidableEq

def FlowSlugError.text : FlowSlugError → Text
  | empty => "flow slug is empty".toList
  | tooLong => "flow slug exceeds 39 characters".toList
  | invalidChar c => "flow slug contains invalid character: ".toList ++ [c]
  | hyphenBoundary => "flow slug must not start or end with hyphen".toList
  | consecutiveHyphens => "flow slug must not contain consecutive hyphens".toList

/-- The checks of `FlowSlug::new`, in their order; `none` accepts. -/
def flowSlugError (s : Text) : Option FlowSlugError :=
  if s = [] then some .empty
  else if utf8Len s > 39 then some .tooLong
  else match s.find? (fun c => !isHandlerChar c) with
    | some c => some (.invalidChar c)
    | none =>
      if s.head? = some '-' ∨ s.getLast? = some '-' then some .hyphenBoundary
      else if "--".toList <:+: s then some .consecutiveHyphens
      else none

def flowPath (slug : Text) : Path := "flows/".toList ++ (slug ++ "/index.md".toList)

inductive NodeType where
  | agentMention
  | channelThread
  | humanReview
  | waitForSignal
  deriving DecidableEq

/-- The name of a type in messages. -/
def NodeType.debug : NodeType → Text
  | agentMention => "AgentMention".toList
  | channelThread => "ChannelThread".toList
  | humanReview => "HumanReview".toList
  | waitForSignal => "WaitForSignal".toList

structure FlowNode where
  id : Text
  nodeType : NodeType
  owner : Option Text
  participants : List Text
  signal : Option Text
  needs : List Text
  exits : List Text
  requiredLabels : List Text
  prompt : Text
  deriving DecidableEq

structure FlowMeta where
  schemaVersion : Nat
  slug : Text
  name : Text
  description : Text
  createdBy : Text
  createdAt : Text
  updatedAt : Option Text
  nodes : List FlowNode
  deriving DecidableEq

/-- Reading and writing of flow metadata as YAML. The prompts are no part of it. -/
structure FlowCodec where
  fromStr : Text → Except Text FlowMeta
  toStr : FlowMeta → Text

inductive FlowError where
  | invalidSlug (e : FlowSlugError)
  | missingFrontmatter
  | yamlParse (message : Text)
  | schemaVersion (version : Nat)
  | slugMismatch (frontmatter path : Text)
  | invalidNodeId (id reason : Text)
  | duplicateNodeId (id : Text)
  | unknownNeed (node missing : Text)
  | cycle
  | missingRequiredField (node : Text) (nodeType : NodeType) (field : Text)
  | invalidNodeField (node field inner : Text)
  deriving DecidableEq

def FlowError.text : FlowError → Text
  | invalidSlug e => "invalid slug: ".toList ++ e.text
  | missingFrontmatter => "missing frontmatter delimiter".toList
  | yamlParse message => "frontmatter yaml: ".toList ++ message
  | schemaVersion n => "schema mismatch: expected schema_version 1, got ".toList ++ (toString n).toList
  | slugMismatch frontmatter path => "slug in frontmatter (".toList ++ (frontmatter ++
      (") != path slug (".toList ++ (path ++ [')'])))
  | invalidNodeId id reason => "invalid node id \x60".toList ++ (id ++ ("\x60: ".toList ++ reason))
  | duplicateNodeId id => "duplicate node id: ".toList ++ id
  | unknownNeed node missing => "node ".toList ++ (node ++
      (" references unknown id in needs: ".toList ++ missing))
  | cycle => "cycle detected in flow DAG".toList
  | missingRequiredField node nodeType field => "node ".toList ++ (node ++ (" type ".toList ++
      (nodeType.debug ++ (" missing required field: ".toList ++ field))))
  | invalidNodeField node field inner => "node ".toList ++ (node ++ (" field ".toList ++
      (field ++ (": ".toList ++ inner))))

end Data

section Validation

def flowNodeMaxLabels : Nat := 10

/-- What is wrong with the id of a node; a character is named as it is written in Rust. -/
def validateNodeId (quote : Char → Text) (id : Text) : Except Text Unit :=
  if id = [] then .error "must not be empty".toList
  else if utf8Len id > 39 then
    .error ("exceeds 39 characters (len=".toList ++ ((toString (utf8Len id)).toList ++ [')']))
  else match id.find? (fun c => !isLabelChar c) with
    | some c => .error ("contains invalid character ".toList ++ quote c)
    | none => do
      refuse (id.head? = some '-' ∨ id.getLast? = some '-') "must not start or end with hyphen".toList
      refuse ("--".toList <:+: id) "must not contain consecutive hyphens".toList

/-- The ids in order, none among those before it. -/
def checkDistinct (seen : List Text) : List Text → Except FlowError Unit
  | [] => .ok ()
  | id :: rest => do
    refuse (id ∈ seen) (.duplicateNodeId id)
    checkDistinct (id :: seen) rest

def requiredField (n : FlowNode) : Except FlowError Unit :=
  match n.nodeType with
  | .agentMention =>
    refuse (n.owner = none) (.missingRequiredField n.id n.nodeType "owner".toList)
  | .channelThread =>
    refuse (n.participants = []) (.missingRequiredField n.id n.nodeType "participants".toList)
  | .humanReview => .ok ()
  | .waitForSignal =>
    refuse (n.signal = none) (.missingRequiredField n.id n.nodeType "signal".toList)

inductive Mark where
  | white
  | gray
  | black
  deriving DecidableEq

/-- The needs of an id; of several nodes with the id the last counts. -/
def needsOf (nodes : List FlowNode) (id : Text) : List Text :=
  ((nodes.reverse.find? fun n => n.id = id).map FlowNode.needs).getD []

/-- The ids one after the other, up to the first that ends the search. -/
def visitAll (visit : Text → List (Text × Mark) → Bool × List (Text × Mark)) :
    List Text → List (Text × Mark) → Bool × List (Text × Mark)
  | [], marks => (false, marks)
  | id :: rest, marks =>
    match visit id marks with
    | (true, marks) => (true, marks)
    | (false, marks) => visitAll visit rest marks

/-- Whether a gray id is met, and the marks behind the search. The depth is bounded by the number
of white ids, and so by the number of nodes. -/
def dfs (nodes : List FlowNode) : Nat → Text → List (Text × Mark) → Bool × List (Text × Mark)
  | 0, _, marks => (false, marks)
  | fuel + 1, id, marks =>
    match (marks.lookup id).getD .black with
    | .gray => (true, marks)
    | .black => (false, marks)
    | .white =>
      match visitAll (dfs nodes fuel) (needsOf nodes id) (upsert (fun _ => .gray) id marks) with
      | (true, marks) => (true, marks)
      | (false, marks) => (false, upsert (fun _ => .black) id marks)

def hasCycle (nodes : List FlowNode) : Bool :=
  let ids := nodes.map FlowNode.id
  (visitAll (dfs nodes (nodes.length + 1)) ids (ids.map fun id => (id, .white))).1

def validateFlowDocument (quote : Char → Text) (doc : FlowMeta) (slugInPath : Text) :
    Except FlowError Unit := do
  checkSome (flowSlugError doc.slug) fun e => .error (.invalidSlug e)
  checkSome (flowSlugError slugInPath) fun e => .error (.invalidSlug e)
  refuse (doc.slug ≠ slugInPath) (.slugMismatch doc.slug slugInPath)
  let _ ← doc.nodes.mapM fun n => (validateNodeId quote n.id).mapError (.invalidNodeId n.id)
  checkDistinct [] (doc.nodes.map FlowNode.id)
  let _ ← doc.nodes.mapM fun n => n.needs.mapM fun need =>
    refuse (need ∉ doc.nodes.map FlowNode.id) (.unknownNeed n.id need)
  let _ ← doc.nodes.mapM fun n => do
    requiredField n
    (validateLabels n.requiredLabels flowNodeMaxLabels).mapError fun e =>
      .invalidNodeField n.id "required_labels".toList e.text
  refuse (hasCycle doc.nodes = true) .cycle

end Validation

section Markdown
variable (codec : FlowCodec)

def frontmatterDelim : Text := "---".toList

/-- The texts before and behind the first occurrence of another text. -/
def splitAt (needle : Text) : Text → Option (Text × Text)
  | [] => if needle = [] then some ([], []) else none
  | c :: rest =>
    match stripPrefix needle (c :: rest) with
    | some behind => some ([], behind)
    | none => (splitAt needle rest).map fun parts => (c :: parts.1, parts.2)

/-- The sections of a body by their headings; of several with one heading the last counts. `open_`
is the section that is being read. -/
def bodySections (open_ : Option (Text × Text)) : List Text → List (Text × Text)
  | [] => (open_.map fun s => (s.1, trim s.2)).toList
  | line :: rest =>
    match stripPrefix "## ".toList line with
    | some heading =>
      (open_.map fun s => (s.1, trim s.2)).toList ++ bodySections (some (trim heading, [])) rest
    | none => bodySections (open_.map fun s => (s.1, s.2 ++ (line ++ ['\n']))) rest

def splitBodySections (body : Text) : List (Text × Text) :=
  (bodySections none (lines body)).reverse

def parseFlowMarkdown (content : Text) : Except FlowError FlowMeta :=
  let trimmed := content.dropWhile fun c => c = Char.ofNat 0xFEFF
  match stripPrefix frontmatterDelim trimmed with
  | none => .error .missingFrontmatter
  | some afterOpen =>
    match splitAt ('\n' :: frontmatterDelim) afterOpen with
    | none => .error .missingFrontmatter
    | some (yamlBody, bodyAfter) => do
      let info ← (codec.fromStr (trim yamlBody)).mapError .yamlParse
      refuse (info.schemaVersion ≠ 1) (.schemaVersion info.schemaVersion)
      let sections := splitBodySections bodyAfter
      .ok { info with nodes := info.nodes.map fun n =>
        match sections.lookup n.id with
        | some text => { n with prompt := text }
        | none => n }

def trimEnd (t : Text) : Text := (t.reverse.dropWhile isWhiteSpace).reverse

def stringifyFlowMarkdown (doc : FlowMeta) : Text :=
  "---\n".toList ++ (trimEnd (codec.toStr doc) ++ ("\n---\n".toList ++
    doc.nodes.flatMap fun n => "\n## ".toList ++ (n.id ++ ("\n\n".toList ++
      if n.prompt = [] then [] else trim n.prompt ++ ['\n']))))

end Markdown

end Flows
