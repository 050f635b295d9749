import GitIM.Flows
import GitIM.Channels
import GitIM.ChannelMembership

/-!
# Runs of flows

A run of a flow is a file with the status of every node of its template. It is started
from the template, its nodes are set one by one, and it may be cancelled. Every call
writes the file and then commits it; a commit that fails does not take the write back.
-/

namespace FlowRuns

open TextLines TextScan FileTree Checked Runs ThreadFormat DmThreads Channels Flows

section Model

inductive RunStatus where
  | inProgress
  | done
  | failed
  | cancelled
  deriving DecidableEq

def RunStatus.isTerminal : RunStatus → Bool
  | inProgress => false
  | done | failed | cancelled => true

def RunStatus.asStr : RunStatus → Text
  | inProgress => "in_progress".toList
  | done => "done".toList
  | failed => "failed".toList
  | cancelled => "cancelled".toList

/-- The name of a status in messages. -/
def RunStatus.debug : RunStatus → Text
  | inProgress => "InProgress".toList
  | done => "Done".toList
  | failed => "Failed".toList
  | cancelled => "Cancelled".toList

inductive NodeStatus where
  | pending
  | inProgress
  | done
  | failed
  | skipped
  deriving DecidableEq

def NodeStatus.isTerminal : NodeStatus → Bool
  | pending | inProgress => false
  | done | failed | skipped => true

def NodeStatus.asStr : NodeStatus → Text
  | pending => "pending".toList
  | inProgress => "in_progress".toList
  | done => "done".toList
  | failed => "failed".toList
  | skipped => "skipped".toList

def NodeStatus.debug : NodeStatus → Text
  | pending => "Pending".toList
  | inProgress => "InProgress".toList
  | done => "Done".toList
  | failed => "Failed".toList
  | skipped => "Skipped".toList

def parseNodeStatus (s : Text) : Option NodeStatus :=
  [.pending, .inProgress, .done, .failed, .skipped].find? fun status => status.asStr = s

structure FlowRunNode where
  id : Text
  status : NodeStatus
  actor : Option Text
  startedAt : Option Text
  completedAt : Option Text
  resultRef : Option Text
  deriving DecidableEq

structure FlowRun where
  schemaVersion : Nat
  runId : Text
  flowSlug : Text
  channel : Text
  startedAt : Text
  startedBy : Text
  status : RunStatus
  nodes : List FlowRunNode
  updatedAt : Text
  deriving DecidableEq

/-- Reading and writing of run states as YAML. -/
structure RunCodec where
  fromStr : Text → Option FlowRun
  toStr : FlowRun → Text

/-- The forms of the characters of a run id, one by one. -/
def runIdShape : List (Char → Bool) :=
  List.replicate 8 Char.isDigit ++ [(· == 'T')] ++ List.replicate 6 Char.isDigit ++ [(· == '-')] ++
    List.replicate 6 fun c => c.isDigit || ('a' ≤ c && c ≤ 'f')

def isValidRunId (s : Text) : Bool :=
  s.length = runIdShape.length && (s.zip runIdShape).all fun x => x.2 x.1

def checkRunId (s : Text) : Except Text Unit :=
  if s = [] then .error "invalid run id: run id is empty".toList
  else refuse (isValidRunId s = false)
    "invalid run id: run id does not match YYYYMMDDTHHMMSS-XXXXXX pattern".toList

def runPath (slug runId : Text) : Path :=
  ['/'].intercalate ["flows".toList, slug, "runs".toList, runId, "state.yaml".toList]

/-- The id in a path `flows/<slug>/runs/<id>/state.yaml`. -/
def runIdOf (path : Path) : Option Text :=
  match path.splitOn '/' with
  | [flows, _, runs, id, file] =>
    if flows = "flows".toList ∧ runs = "runs".toList ∧ file = "state.yaml".toList then some id
    else none
  | _ => none

variable (flowYaml : FlowCodec) (yaml : RunCodec) (quote : Char → Text)

def parseRunState (content : Text) : Except Text FlowRun :=
  match yaml.fromStr content with
  | none => .error "parse: yaml parse".toList
  | some run =>
    if run.schemaVersion ≠ 1 then
      .error ("parse: schema mismatch: expected schema_version 1, got ".toList ++
        (toString run.schemaVersion).toList)
    else .ok run

/-- The run with the id, in whichever flow it is found first. -/
def findRun (tree : FileMap) (runId : Text) : Except Text (Path × FlowRun) :=
  match tree.find? fun file => runIdOf file.1 = some runId with
  | none => .error ("run not found: ".toList ++ runId)
  | some file => do
    let run ← parseRunState yaml file.2
    .ok (file.1, run)

def allowedTargets : NodeStatus → List NodeStatus
  | .pending => [.inProgress, .done, .failed, .skipped]
  | .inProgress => [.done, .failed, .skipped]
  | .done | .failed | .skipped => []

/-- A no-op is allowed in every status. -/
def validateNodeTransition (source target : NodeStatus) : Except Text Unit :=
  refuse (source ≠ target ∧ target ∉ allowedTargets source)
    ("invalid status transition: ".toList ++ (source.debug ++ (" → ".toList ++ target.debug)))

inductive Call where
  | start (slug channel author : Text)
  | nodeSet (runId nodeId status : Text) (actor resultRef : Option Text) (author : Text)
  | cancel (runId author : Text)
  deriving DecidableEq

/-- What a call finds: the id that is drawn, the time, and how its writes end. -/
structure Env where
  runId : Text
  valid : isValidRunId runId = true
  now : Text
  serialized : Bool
  dirMade : Bool
  write : WriteResult
  committed : Bool

inductive Event where
  | started (runId flowSlug channel : Text)
  | nodeUpdated (runId nodeId : Text) (status : NodeStatus)
  | completed (runId status : Text)
  deriving DecidableEq

/-- A run state to be written, and the events to be sent when it is committed. -/
structure Planned where
  path : Path
  run : FlowRun
  events : List Event
  deriving DecidableEq

def newNode (n : FlowNode) : FlowRunNode := ⟨n.id, .pending, none, none, none, none⟩

def readTemplate (tree : FileMap) (slug : Text) : Except Text FlowMeta :=
  match tree.lookup (flowPath slug) with
  | none => .error ("flow not found: ".toList ++ slug)
  | some content => do
    let doc ← (parseFlowMarkdown flowYaml content).mapError
      fun e => "invalid flow template: ".toList ++ e.text
    (validateFlowDocument quote doc slug).mapError fun e => "flow template invalid: ".toList ++ e.text
    .ok doc

/-- The run of a template; a template without nodes is done. -/
def newRun (doc : FlowMeta) (slug channel author : Text) (env : Env) : FlowRun where
  schemaVersion := 1
  runId := env.runId
  flowSlug := slug
  channel := channel
  startedAt := env.now
  startedBy := author
  status := if doc.nodes = [] then .done else .inProgress
  nodes := doc.nodes.map newNode
  updatedAt := env.now

def setNode (node : FlowRunNode) (status : NodeStatus) (actor resultRef : Option Text)
    (now : Text) : FlowRunNode :=
  let started := if node.status = .pending ∧ status = .inProgress then some now else node.startedAt
  let completes := status.isTerminal ∧ node.completedAt = none
  { node with
    status := status
    actor := actor.or node.actor
    resultRef := resultRef.or node.resultRef
    startedAt := if completes ∧ started = none then some now else started
    completedAt := if completes then some now else node.completedAt }

/-- The status of a run whose nodes were set: it changes when all of them are terminal. -/
def nextStatus (status : RunStatus) (nodes : List FlowRunNode) : RunStatus :=
  if nodes.all fun n => n.status.isTerminal then
    if nodes.any fun n => n.status = .failed then .failed else .done
  else status

def completion (run : FlowRun) : List Event :=
  if run.status.isTerminal then [.completed run.runId run.status.asStr] else []

/-- The checks of a call and the state it is about to write. -/
def plan (tree : FileMap) : Call → Env → Except Text Planned
  | .start slug channel author, env => do
    ensureAuthorNotDeparted tree author
    checkSome (flowSlugError slug) fun e => .error ("invalid slug: ".toList ++ e.text)
    checkSome (channelNameError channel) fun e => .error ("invalid channel: ".toList ++ e.text)
    let doc ← readTemplate flowYaml quote tree slug
    refuse (fileExists tree (metaPath channel) = false) ("channel not found: ".toList ++ channel)
    let run := newRun doc slug channel author env
    refuse (env.serialized = false) "stringify".toList
    refuse (env.dirMade = false) "mkdir".toList
    .ok ⟨runPath slug env.runId, run, .started env.runId slug channel :: completion run⟩
  | .nodeSet runId nodeId status actor resultRef author, env => do
    ensureAuthorNotDeparted tree author
    checkRunId runId
    match parseNodeStatus status with
    | none => .error ("invalid status: ".toList ++ (status ++
        " (expected pending|in_progress|done|failed|skipped)".toList))
    | some target =>
      let (path, run) ← findRun yaml tree runId
      refuse (run.status.isTerminal = true)
        ("run is terminal (".toList ++ (run.status.debug ++ "); refuse to mutate".toList))
      match run.nodes.findIdx? fun n => n.id = nodeId with
      | none => .error ("unknown node id: ".toList ++ nodeId)
      | some i =>
        match run.nodes[i]? with
        | none => .error ("unknown node id: ".toList ++ nodeId)
        | some node =>
          validateNodeTransition node.status target
          let nodes := run.nodes.set i (setNode node target actor resultRef env.now)
          let after := { run with
            nodes := nodes
            status := nextStatus run.status nodes
            updatedAt := env.now }
          refuse (env.serialized = false) "stringify".toList
          .ok ⟨path, after, .nodeUpdated run.runId nodeId target :: completion after⟩
  | .cancel runId author, env => do
    ensureAuthorNotDeparted tree author
    checkRunId runId
    let (path, run) ← findRun yaml tree runId
    refuse (run.status.isTerminal = true)
      ("run already terminal (".toList ++ (run.status.debug ++ [')']))
    let after := { run with
      status := .cancelled
      updatedAt := env.now }
    refuse (env.serialized = false) "stringify".toList
    .ok ⟨path, after, [.completed run.runId "cancelled".toList]⟩

/-- The files, the events that were sent, and the runs whose cancellation succeeded. -/
structure World where
  tree : FileMap
  events : List Event
  cancelled : List Path

def Call.cancels : Call → Bool
  | .cancel _ _ => true
  | .start _ _ _ | .nodeSet _ _ _ _ _ _ => false

def Call.starts : Call → Bool
  | .start _ _ _ => true
  | .nodeSet _ _ _ _ _ _ | .cancel _ _ => false

/-- A call with its response. -/
def answer (w : World) (c : Call) (env : Env) : World × Except Text Unit :=
  match plan flowYaml yaml quote w.tree c env with
  | .error e => (w, .error e)
  | .ok p =>
    match replaceFile w.tree p.path (yaml.toStr p.run) env.write with
    | (after, false) => ({ w with tree := after }, .error "write".toList)
    | (after, true) =>
      if env.committed then
        (⟨after, w.events ++ p.events, if c.cancels then p.path :: w.cancelled else w.cancelled⟩,
          .ok ())
      else ({ w with tree := after }, .error "commit".toList)

def step (w : World) (x : Call × Env) : Option World :=
  some (answer flowYaml yaml quote w x.1 x.2).1

end Model

section Property
variable (flowYaml : FlowCodec) (yaml : RunCodec) (quote : Char → Text)

def AllTerminal (run : FlowRun) : Prop := ∀ n ∈ run.nodes, n.status.isTerminal = true

def AnyFailed (run : FlowRun) : Prop := ∃ n ∈ run.nodes, n.status = .failed

/-- The state of a run fits its template, its nodes and whether it was cancelled. -/
structure Consistent (template : List FlowNode) (wasCancelled : Prop) (run : FlowRun) : Prop where
  ids : run.nodes.map FlowRunNode.id = template.map FlowNode.id
  done : run.status = .done ↔ AllTerminal run ∧ ¬ AnyFailed run ∧ ¬ wasCancelled
  failed : run.status = .failed ↔ AllTerminal run ∧ AnyFailed run ∧ ¬ wasCancelled
  cancelled : run.status = .cancelled ↔ wasCancelled
  inProgress : run.status = .inProgress ↔ ¬ AllTerminal run ∧ ¬ wasCancelled
  stamped : ∀ n ∈ run.nodes, n.status.isTerminal = true →
    n.startedAt.isSome = true ∧ n.completedAt.isSome = true

/-- The file holds a consistent run with the id, of the template in the flow's document. -/
def StoredRun (w : World) (path : Path) (id : Text) (run : FlowRun) : Prop :=
  ∃ content doc, w.tree.lookup path = some content ∧ parseRunState yaml content = .ok run ∧
    run.runId = id ∧ path = runPath run.flowSlug id ∧
    readTemplate flowYaml quote w.tree run.flowSlug = .ok doc ∧
    Consistent doc.nodes (path ∈ w.cancelled) run

def isCompletion (id : Text) : Event → Bool
  | .completed runId _ => runId = id
  | .started _ _ _ | .nodeUpdated _ _ _ => false

/-- Every stored run is consistent, and no run has completed twice. -/
structure Sound (w : World) : Prop where
  stored : ∀ path id, runIdOf path = some id → w.tree.lookup path ≠ none →
    ∃ run, StoredRun flowYaml yaml quote w path id run
  once : ∀ id, (w.events.filter (isCompletion id)).length ≤ 1

/-- A call that answers an error leaves the stored runs as they were, and every call those that are
terminal. -/
structure Respects (w : World) (x : Call × Env) : Prop where
  unchanged : ∀ e, (answer flowYaml yaml quote w x.1 x.2).2 = .error e →
    ∀ path id, runIdOf path = some id →
      (answer flowYaml yaml quote w x.1 x.2).1.tree.lookup path = w.tree.lookup path
  frozen : ∀ path id content run, runIdOf path = some id → w.tree.lookup path = some content →
    parseRunState yaml content = .ok run → run.status.isTerminal = true →
      (answer flowYaml yaml quote w x.1 x.2).1.tree.lookup path = some content

/-- The condition: the write and the commit of a call succeed, or the file is left with the text it
had; and the id that is drawn for a new run belongs to no other. -/
def Undisturbed (w : World) (x : Call × Env) : Prop :=
  ∀ p, plan flowYaml yaml quote w.tree x.1 x.2 = .ok p →
    (x.2.write = .complete ∧ x.2.committed = true ∨
      (replaceFile w.tree p.path (yaml.toStr p.run) x.2.write).1.lookup p.path =
        w.tree.lookup p.path) ∧
    (x.1.starts = true → w.tree.find? (fun file => runIdOf file.1 = some x.2.runId) = none)

end Property

section Paths

theorem runIdOf_eq_some {path : Path} {id : Text} (h : runIdOf path = some id) :
    ∃ slug, path = runPath slug id := by
  rw [runIdOf] at h
  split at h
  · rename_i flows slug runs i file hsplit
    split at h
    · rename_i hparts
      obtain ⟨rfl, rfl, rfl⟩ := hparts
      cases h
      refine ⟨slug, ?_⟩
      rw [runPath, ← hsplit, List.intercalate_splitOn]
    · cases h
  · cases h

theorem runIdOf_runPath {slug id : Text} (hslug : '/' ∉ slug) (hid : '/' ∉ id) :
    runIdOf (runPath slug id) = some id := by
  have hsplit : (runPath slug id).splitOn '/' =
      ["flows".toList, slug, "runs".toList, id, "state.yaml".toList] := by
    apply List.splitOn_intercalate
    · intro l hl
      simp only [List.mem_cons, List.not_mem_nil, or_false] at hl
      rcases hl with rfl | rfl | rfl | rfl | rfl
      · decide
      · exact hslug
      · decide
      · exact hid
      · decide
    · exact List.cons_ne_nil _ _
  rw [runIdOf, hsplit]
  exact if_pos ⟨rfl, rfl, rfl⟩

theorem runPath_getLast (slug id : Text) : (runPath slug id).getLast? = some 'l' := by
  have hsplit : runPath slug id = (("flows".toList ++ ('/' :: slug)) ++
      ('/' :: ("runs".toList ++ ('/' :: (id ++ ['/']))))) ++ "state.yaml".toList := by
    simp only [runPath, List.intercalate_cons_cons, List.intercalate_singleton, List.append_assoc,
      List.cons_append, List.nil_append]
  rw [hsplit]
  exact (List.getLast?_append_of_ne_nil _ (by decide)).trans (by decide)

theorem flowPath_getLast (slug : Text) : (flowPath slug).getLast? = some 'd' := by
  have hsplit : flowPath slug = ("flows/".toList ++ slug) ++ "/index.md".toList :=
    (List.append_assoc _ _ _).symm
  rw [hsplit]
  exact (List.getLast?_append_of_ne_nil _ (by decide)).trans (by decide)

theorem flowPath_ne_runPath (s slug id : Text) : flowPath s ≠ runPath slug id := by
  intro h
  have hlast : some 'd' = some 'l' :=
    (flowPath_getLast s).symm.trans ((congrArg List.getLast? h).trans (runPath_getLast slug id))
  cases hlast

/-- The first file whose path has a property is the file at that path. -/
theorem lookup_of_find {tree : FileMap} {good : Path → Prop} [DecidablePred good] {path : Path}
    {content : Text} (h : tree.find? (fun file => good file.1) = some (path, content)) :
    tree.lookup path = some content := by
  induction tree with
  | nil => cases h
  | cons file tree ih =>
    rw [List.find?_cons] at h
    rw [show file = (file.1, file.2) from rfl, lookup_cons_ite]
    by_cases hgood : good file.1
    · simp only [hgood, decide_true, Option.some.injEq] at h
      rw [h]
      exact if_pos rfl
    · simp only [hgood, decide_false] at h
      have hne : path ≠ file.1 := by
        rintro rfl
        exact hgood (by simpa using List.find?_some h)
      rw [if_neg hne]
      exact ih h

end Paths

section Plans
variable {flowYaml : FlowCodec} {yaml : RunCodec} {quote : Char → Text} {tree : FileMap}
  {env : Env} {p : Planned}

theorem plan_start {slug channel author : Text}
    (h : plan flowYaml yaml quote tree (.start slug channel author) env = .ok p) :
    ∃ doc, flowSlugError slug = none ∧ readTemplate flowYaml quote tree slug = .ok doc ∧
      p = ⟨runPath slug env.runId, newRun doc slug channel author env,
        .started env.runId slug channel :: completion (newRun doc slug channel author env)⟩ := by
  simp only [plan, bind_eq_ok_iff, checkSome_eq_ok_iff] at h
  obtain ⟨_, -, _, hslug, _, -, doc, hdoc, _, -, _, -, _, -, hp⟩ := h
  cases hp
  refine ⟨doc, ?_, hdoc, rfl⟩
  cases herror : flowSlugError slug with
  | none => rfl
  | some e => exact (by cases hslug e herror)

theorem parseRunState_ok {content : Text} {run : FlowRun} :
    parseRunState yaml content = .ok run ↔
      yaml.fromStr content = some run ∧ run.schemaVersion = 1 := by
  rw [parseRunState]
  cases hfrom : yaml.fromStr content with
  | none => simp
  | some r =>
    dsimp only
    by_cases hversion : r.schemaVersion = 1
    · rw [if_neg (fun hne => hne hversion)]
      constructor
      · intro hok
        cases hok
        exact ⟨rfl, hversion⟩
      · rintro ⟨hsome, -⟩
        cases hsome
        rfl
    · rw [if_pos hversion]
      constructor
      · intro hok
        cases hok
      · rintro ⟨hsome, hone⟩
        cases hsome
        exact absurd hone hversion

theorem findRun_ok {runId : Text} {path : Path} {run : FlowRun}
    (h : findRun yaml tree runId = .ok (path, run)) :
    ∃ content, runIdOf path = some runId ∧ tree.lookup path = some content ∧
      parseRunState yaml content = .ok run := by
  rw [findRun] at h
  split at h
  · cases h
  rename_i file hfind
  obtain ⟨found, hparse, hpair⟩ := bind_eq_ok_iff.mp h
  cases hpair
  have hgood : runIdOf file.1 = some runId := by simpa using List.find?_some hfind
  have hlookup := @lookup_of_find tree (fun q => runIdOf q = some runId) _ file.1 file.2 hfind
  exact ⟨file.2, hgood, hlookup, hparse⟩

/-- A node that is set: the run was found in progress, and the transition is allowed. -/
theorem plan_nodeSet {runId nodeId status : Text} {actor resultRef : Option Text} {author : Text}
    (h : plan flowYaml yaml quote tree (.nodeSet runId nodeId status actor resultRef author) env =
      .ok p) :
    ∃ path run i node target, findRun yaml tree runId = .ok (path, run) ∧
      run.status.isTerminal = false ∧ run.nodes[i]? = some node ∧
      (node.status = target ∨ target ∈ allowedTargets node.status) ∧
      p.path = path ∧
      p.run = { run with
        nodes := run.nodes.set i (setNode node target actor resultRef env.now)
        status := nextStatus run.status
          (run.nodes.set i (setNode node target actor resultRef env.now))
        updatedAt := env.now } ∧
      p.events = .nodeUpdated run.runId nodeId target :: completion p.run := by
  simp only [plan, bind_eq_ok_iff] at h
  obtain ⟨_, -, _, -, hrest⟩ := h
  split at hrest
  · cases hrest
  rename_i target htarget
  obtain ⟨⟨path, run⟩, hfind, hrest⟩ := bind_eq_ok_iff.mp hrest
  obtain ⟨_, hopen, hrest⟩ := bind_eq_ok_iff.mp hrest
  split at hrest
  · cases hrest
  rename_i i hindex
  split at hrest
  · cases hrest
  rename_i node hnode
  obtain ⟨_, htransition, hrest⟩ := bind_eq_ok_iff.mp hrest
  obtain ⟨_, -, hp⟩ := bind_eq_ok_iff.mp hrest
  cases hp
  refine ⟨path, run, i, node, target, hfind, Bool.eq_false_of_not_eq_true ?_, hnode, ?_, rfl, rfl,
    rfl⟩
  · exact refuse_eq_ok_iff.mp hopen
  · rw [validateNodeTransition, refuse_eq_ok_iff] at htransition
    by_contra hnot
    rw [not_or] at hnot
    exact htransition hnot

theorem plan_cancel {runId author : Text}
    (h : plan flowYaml yaml quote tree (.cancel runId author) env = .ok p) :
    ∃ path run, findRun yaml tree runId = .ok (path, run) ∧ run.status.isTerminal = false ∧
      p = ⟨path, { run with
        status := .cancelled
        updatedAt := env.now }, [.completed run.runId "cancelled".toList]⟩ := by
  simp only [plan, bind_eq_ok_iff, refuse_eq_ok_iff] at h
  obtain ⟨_, -, _, -, ⟨path, run⟩, hfind, _, hopen, _, -, hp⟩ := h
  cases hp
  exact ⟨path, run, hfind, Bool.eq_false_of_not_eq_true hopen, rfl⟩

end Plans

section Consistency
variable {template : List FlowNode} {run : FlowRun} {cancelled : Prop}

/-- A node that is not terminal has no time of completion. -/
def Open (run : FlowRun) : Prop :=
  ∀ n ∈ run.nodes, n.status.isTerminal = false → n.completedAt = none

instance decidableAnyFailed (run : FlowRun) : Decidable (AnyFailed run) :=
  inferInstanceAs (Decidable (∃ n ∈ run.nodes, n.status = .failed))

/-- The status follows from the nodes as long as a run is not cancelled. -/
theorem status_spec {all any : Prop} [Decidable all] [Decidable any] {status : RunStatus}
    (hnot : ¬ cancelled)
    (h : status = if all then if any then .failed else .done else .inProgress) :
    (status = .done ↔ all ∧ ¬ any ∧ ¬ cancelled) ∧
      (status = .failed ↔ all ∧ any ∧ ¬ cancelled) ∧ (status = .cancelled ↔ cancelled) ∧
      (status = .inProgress ↔ ¬ all ∧ ¬ cancelled) := by
  by_cases hall : all
  · by_cases hany : any
    · simp [h, hall, hany, hnot]
    · simp [h, hall, hany, hnot]
  · simp [h, hall, hnot]

theorem consistent_newRun (doc : FlowMeta) (slug channel author : Text) (env : Env)
    (hnot : ¬ cancelled) : Consistent doc.nodes cancelled (newRun doc slug channel author env) ∧
      Open (newRun doc slug channel author env) := by
  have hpending : ∀ n ∈ (newRun doc slug channel author env).nodes,
      n.status = .pending ∧ n.completedAt = none := by
    intro n hn
    obtain ⟨m, -, rfl⟩ := List.mem_map.mp hn
    exact ⟨rfl, rfl⟩
  have hall : AllTerminal (newRun doc slug channel author env) ↔ doc.nodes = [] := by
    constructor
    · intro hterminal
      by_contra hne
      obtain ⟨m, rest, hnodes⟩ := List.exists_cons_of_ne_nil hne
      have hm : newNode m ∈ (newRun doc slug channel author env).nodes :=
        List.mem_map_of_mem (hnodes ▸ List.mem_cons_self)
      exact (nomatch hterminal (newNode m) hm)
    · intro hnil n hn
      rw [newRun, hnil] at hn
      cases hn
  have hfailed : ¬ AnyFailed (newRun doc slug channel author env) := by
    rintro ⟨n, hn, hstatus⟩
    rw [(hpending n hn).1] at hstatus
    cases hstatus
  have hstatus : (newRun doc slug channel author env).status =
      if doc.nodes = [] then if AnyFailed (newRun doc slug channel author env) then .failed else .done
      else .inProgress := by
    rw [if_neg hfailed]
    rfl
  have hspec := status_spec hnot hstatus
  rw [← hall] at hspec
  refine ⟨⟨?_, hspec.1, hspec.2.1, hspec.2.2.1, hspec.2.2.2, ?_⟩, fun n hn _ => (hpending n hn).2⟩
  · rw [newRun, List.map_map]
    rfl
  · intro n hn hterminal
    rw [(hpending n hn).1] at hterminal
    cases hterminal

theorem setNode_id (node : FlowRunNode) (status : NodeStatus) (actor resultRef : Option Text)
    (now : Text) : (setNode node status actor resultRef now).id = node.id := rfl

/-- The times of a node that is set. -/
theorem setNode_times {node : FlowRunNode} {status : NodeStatus}
    (hallowed : node.status = status ∨ status ∈ allowedTargets node.status)
    (hstamped : node.status.isTerminal = true →
      node.startedAt.isSome = true ∧ node.completedAt.isSome = true)
    (hopen : node.status.isTerminal = false → node.completedAt = none)
    (actor resultRef : Option Text) (now : Text) :
    (status.isTerminal = true →
      (setNode node status actor resultRef now).startedAt.isSome = true ∧
        (setNode node status actor resultRef now).completedAt.isSome = true) ∧
    (status.isTerminal = false →
      (setNode node status actor resultRef now).completedAt = none) := by
  constructor
  · intro hterminal
    cases hcompleted : node.completedAt with
    | none =>
      have hstarted : ∀ s : Option Text, (if s = none then some now else s).isSome = true := by
        intro s
        cases s <;> rfl
      simp only [setNode, hterminal, hcompleted, true_and, if_true, Option.isSome_some, and_true]
      exact hstarted _
    | some t =>
      have hwas : node.status.isTerminal = true := by
        by_contra hnot
        rw [hopen (Bool.eq_false_of_not_eq_true hnot)] at hcompleted
        cases hcompleted
      obtain ⟨hstarted, -⟩ := hstamped hwas
      have hpending : node.status ≠ .pending := by
        intro hpending
        rw [hpending] at hwas
        cases hwas
      simp [setNode, hcompleted, hpending, hstarted]
  · intro hterminal
    have hwas : node.status.isTerminal = false := by
      rcases hallowed with rfl | hmem
      · exact hterminal
      · cases hstatus : node.status with
        | pending => rfl
        | inProgress => rfl
        | done => rw [hstatus] at hmem; cases hmem
        | failed => rw [hstatus] at hmem; cases hmem
        | skipped => rw [hstatus] at hmem; cases hmem
    simp [setNode, hterminal, hopen hwas]

/-- The run behind `handle_flow_node_set`. -/
theorem consistent_setNode {i : Nat} {node : FlowRunNode} {target : NodeStatus}
    (h : Consistent template cancelled run) (hopen : Open run)
    (hrunning : run.status.isTerminal = false) (hnode : run.nodes[i]? = some node)
    (hallowed : node.status = target ∨ target ∈ allowedTargets node.status)
    (actor resultRef : Option Text) (now : Text) :
    Consistent template cancelled { run with
        nodes := run.nodes.set i (setNode node target actor resultRef now)
        status := nextStatus run.status (run.nodes.set i (setNode node target actor resultRef now))
        updatedAt := now } ∧
      Open { run with
        nodes := run.nodes.set i (setNode node target actor resultRef now)
        status := nextStatus run.status (run.nodes.set i (setNode node target actor resultRef now))
        updatedAt := now } := by
  have hin : node ∈ run.nodes := List.mem_of_getElem? hnode
  obtain ⟨hterminal, hnonterminal⟩ :=
    setNode_times hallowed (h.stamped node hin) (hopen node hin) actor resultRef now
  have hstatus : run.status = .inProgress := by
    cases hs : run.status with
    | inProgress => rfl
    | done => rw [hs] at hrunning; cases hrunning
    | failed => rw [hs] at hrunning; cases hrunning
    | cancelled => rw [hs] at hrunning; cases hrunning
  have hnot : ¬ cancelled := (h.inProgress.mp hstatus).2
  have hmem : ∀ n ∈ run.nodes.set i (setNode node target actor resultRef now),
      n = setNode node target actor resultRef now ∨ n ∈ run.nodes :=
    fun n hn => (List.mem_or_eq_of_mem_set hn).symm
  generalize hnodes : run.nodes.set i (setNode node target actor resultRef now) = nodes at hmem
  have hnext : nextStatus run.status nodes =
      if ∀ n ∈ nodes, n.status.isTerminal = true then
        if ∃ n ∈ nodes, n.status = .failed then .failed else .done
      else .inProgress := by
    rw [nextStatus, hstatus]
    simp only [List.all_eq_true, List.any_eq_true, decide_eq_true_eq]
  refine ⟨⟨?_, ?_, ?_, ?_, ?_, ?_⟩, ?_⟩
  · have hids : nodes.map FlowRunNode.id = run.nodes.map FlowRunNode.id := by
      apply List.ext_getElem?
      intro j
      rw [← hnodes, List.getElem?_map, List.getElem?_map, List.getElem?_set]
      by_cases hij : i = j
      · subst hij
        obtain ⟨hlt, -⟩ := List.getElem?_eq_some_iff.mp hnode
        rw [if_pos rfl, if_pos hlt, hnode]
        rfl
      · rw [if_neg hij]
    exact hids.trans h.ids
  · exact (status_spec hnot hnext).1
  · exact (status_spec hnot hnext).2.1
  · exact (status_spec hnot hnext).2.2.1
  · exact (status_spec hnot hnext).2.2.2
  · intro n hn hdone
    rcases hmem n hn with rfl | hold
    · exact hterminal hdone
    · exact h.stamped n hold hdone
  · intro n hn hnotDone
    rcases hmem n hn with rfl | hold
    · exact hnonterminal hnotDone
    · exact hopen n hold hnotDone

theorem consistent_cancel (h : Consistent template cancelled run) {now : Prop} (hnow : now)
    (updatedAt : Text) : Consistent template now { run with
      status := .cancelled
      updatedAt := updatedAt } :=
  ⟨h.ids, by simp [hnow], by simp [hnow], by simp [hnow], by simp [hnow], h.stamped⟩

end Consistency

section Invariant
variable {flowYaml : FlowCodec} {yaml : RunCodec} {quote : Char → Text} {w : World} {env : Env}
  {p : Planned} {c : Call}

/-- What holds between two calls. -/
structure Inv (flowYaml : FlowCodec) (yaml : RunCodec) (quote : Char → Text) (w : World) : Prop where
  stored : ∀ path id, runIdOf path = some id → w.tree.lookup path ≠ none →
    ∃ run, StoredRun flowYaml yaml quote w path id run ∧ Open run
  unique : ∀ path path' id, runIdOf path = some id → runIdOf path' = some id →
    w.tree.lookup path ≠ none → w.tree.lookup path' ≠ none → path = path'
  completed : ∀ id, w.events.filter (isCompletion id) = [] ∨
    (w.events.filter (isCompletion id)).length = 1 ∧
      ∃ path run, runIdOf path = some id ∧ StoredRun flowYaml yaml quote w path id run ∧
        run.status.isTerminal = true
  cancelled : ∀ path ∈ w.cancelled, w.tree.lookup path ≠ none

theorem StoredRun.eq_of_parse {path : Path} {id content : Text} {run run' : FlowRun}
    (h : StoredRun flowYaml yaml quote w path id run) (hlookup : w.tree.lookup path = some content)
    (hparse : parseRunState yaml content = .ok run') : run' = run := by
  obtain ⟨content', -, hlookup', hparse', -⟩ := h
  rw [hlookup] at hlookup'
  cases hlookup'
  rw [hparse] at hparse'
  exact Except.ok.inj hparse'

/-- A run whose file, template and cancellation are as they were. -/
theorem StoredRun.keep {w' : World} {path : Path} {id : Text} {run : FlowRun}
    (h : StoredRun flowYaml yaml quote w path id run)
    (hfile : w'.tree.lookup path = w.tree.lookup path)
    (htemplate : ∀ slug, w'.tree.lookup (flowPath slug) = w.tree.lookup (flowPath slug))
    (hcancelled : path ∈ w'.cancelled ↔ path ∈ w.cancelled) :
    StoredRun flowYaml yaml quote w' path id run := by
  obtain ⟨content, doc, hlookup, hparse, hid, hpath, hdoc, hconsistent⟩ := h
  refine ⟨content, doc, hfile.trans hlookup, hparse, hid, hpath, ?_, ?_⟩
  · rw [readTemplate, htemplate]
    exact hdoc
  · rw [hcancelled]
    exact hconsistent

theorem inv_same {w' : World} (h : Inv flowYaml yaml quote w)
    (htree : ∀ path, w'.tree.lookup path = w.tree.lookup path) (hevents : w'.events = w.events)
    (hcancelled : w'.cancelled = w.cancelled) : Inv flowYaml yaml quote w' := by
  have hkeep : ∀ path id run, StoredRun flowYaml yaml quote w path id run →
      StoredRun flowYaml yaml quote w' path id run :=
    fun path id run hrun => hrun.keep (htree path) (fun _ => htree _) (by rw [hcancelled])
  refine ⟨fun path id hid hfile => ?_, fun path path' id hid hid' hfile hfile' => ?_, fun id => ?_,
    fun path hpath => ?_⟩
  · rw [htree] at hfile
    obtain ⟨run, hrun, hopen⟩ := h.stored path id hid hfile
    exact ⟨run, hkeep path id run hrun, hopen⟩
  · rw [htree] at hfile hfile'
    exact h.unique path path' id hid hid' hfile hfile'
  · rw [hevents]
    rcases h.completed id with hnone | ⟨hone, path, run, hid, hrun, hterminal⟩
    · exact .inl hnone
    · exact .inr ⟨hone, path, run, hid, hkeep path id run hrun, hterminal⟩
  · rw [htree]
    exact h.cancelled path (hcancelled ▸ hpath)

/-- The characters of slugs and run ids. -/
theorem slash_not_mem_slug {slug : Text} (h : flowSlugError slug = none) : '/' ∉ slug := by
  intro hmem
  rw [flowSlugError] at h
  split at h
  · cases h
  split at h
  · cases h
  split at h
  · cases h
  · rename_i hfind
    have := List.find?_eq_none.mp hfind '/' hmem
    revert this
    decide

theorem slash_not_mem_runId {id : Text} (h : isValidRunId id = true) : '/' ∉ id := by
  intro hmem
  rw [isValidRunId, Bool.and_eq_true, decide_eq_true_eq, List.all_eq_true] at h
  obtain ⟨hlength, hall⟩ := h
  rw [← List.map_fst_zip (Nat.le_of_eq hlength)] at hmem
  obtain ⟨x, hx, hslash⟩ := List.mem_map.mp hmem
  have hrejects : ∀ f ∈ runIdShape, f '/' = false := by decide
  have haccepted := hall x hx
  rw [hslash, hrejects x.2 (List.of_mem_zip hx).2] at haccepted
  cases haccepted

/-- A planned state is consistent, nothing terminal is in its place, no other run has its id, and it
completes the run exactly if it is terminal. -/
structure Fits (flowYaml : FlowCodec) (yaml : RunCodec) (quote : Char → Text) (w : World) (c : Call)
    (p : Planned) (id : Text) : Prop where
  isRun : runIdOf p.path = some id
  name : p.run.runId = id
  path : p.path = runPath p.run.flowSlug id
  version : p.run.schemaVersion = 1
  consistent : ∃ doc, readTemplate flowYaml quote w.tree p.run.flowSlug = .ok doc ∧
    Consistent doc.nodes (c.cancels = true ∨ p.path ∈ w.cancelled) p.run
  isOpen : Open p.run
  alone : ∀ path, runIdOf path = some id → w.tree.lookup path ≠ none → path = p.path
  before : ∀ content run, w.tree.lookup p.path = some content →
    parseRunState yaml content = .ok run → run.status.isTerminal = false
  events : (p.events.filter (isCompletion id)).length =
    if p.run.status.isTerminal then 1 else 0
  others : ∀ other ≠ id, p.events.filter (isCompletion other) = []

theorem filter_completion (run : FlowRun) (other : Text) :
    (completion run).filter (isCompletion other) =
      if run.runId = other then completion run else [] := by
  rw [completion]
  split
  · by_cases hid : run.runId = other
    · simp [isCompletion, hid]
    · simp [isCompletion, hid]
  · simp

theorem length_completion (run : FlowRun) :
    (completion run).length = if run.status.isTerminal then 1 else 0 := by
  rw [completion]
  split <;> rfl

theorem fits_start {slug channel author : Text} (h : Inv flowYaml yaml quote w)
    (hplan : plan flowYaml yaml quote w.tree (.start slug channel author) env = .ok p)
    (hfresh : w.tree.find? (fun file => runIdOf file.1 = some env.runId) = none) :
    Fits flowYaml yaml quote w (.start slug channel author) p env.runId := by
  obtain ⟨doc, hslug, hdoc, rfl⟩ := plan_start hplan
  have hrun : runIdOf (runPath slug env.runId) = some env.runId :=
    runIdOf_runPath (slash_not_mem_slug hslug) (slash_not_mem_runId env.valid)
  have hnone : ∀ path, runIdOf path = some env.runId → w.tree.lookup path = none := by
    intro path hpath
    by_contra hsome
    obtain ⟨content, hlookup⟩ := Option.ne_none_iff_exists'.mp hsome
    obtain ⟨file, hfile, hkey⟩ := List.mem_map.mp (lookup_isSome_iff.mp ⟨content, hlookup⟩)
    have := List.find?_eq_none.mp hfresh file hfile
    rw [hkey] at this
    exact this (decide_eq_true hpath)
  have hnew : runPath slug env.runId ∉ w.cancelled :=
    fun hmem => h.cancelled _ hmem (hnone _ hrun)
  have hnot : ¬ ((Call.start slug channel author).cancels = true ∨
      runPath slug env.runId ∈ w.cancelled) := by
    simp [Call.cancels, hnew]
  have hid : (newRun doc slug channel author env).runId = env.runId := rfl
  obtain ⟨hconsistent, hopen⟩ := consistent_newRun doc slug channel author env hnot
  refine ⟨hrun, rfl, rfl, rfl, ⟨doc, hdoc, hconsistent⟩, hopen, ?_, ?_, ?_, ?_⟩
  · exact fun path hpath hfile => absurd (hnone path hpath) hfile
  · intro content run hlookup _
    rw [hnone _ hrun] at hlookup
    cases hlookup
  · rw [List.filter_cons_of_neg (by simp [isCompletion]), filter_completion, if_pos hid,
      length_completion]
  · intro other hne
    rw [List.filter_cons_of_neg (by simp [isCompletion]), filter_completion,
      if_neg (fun heq => hne heq.symm)]

/-- A run that is found is the stored run with its id. -/
theorem found_run {runId : Text} {path : Path} {run : FlowRun} (h : Inv flowYaml yaml quote w)
    (hfind : findRun yaml w.tree runId = .ok (path, run)) :
    runIdOf path = some runId ∧ StoredRun flowYaml yaml quote w path runId run ∧ Open run ∧
      (∀ path', runIdOf path' = some runId → w.tree.lookup path' ≠ none → path' = path) ∧
      ∃ content, w.tree.lookup path = some content ∧ parseRunState yaml content = .ok run := by
  obtain ⟨content, hid, hlookup, hparse⟩ := findRun_ok hfind
  have hfile : w.tree.lookup path ≠ none := by
    rw [hlookup]
    exact Option.some_ne_none content
  obtain ⟨run', hstored, hopen⟩ := h.stored path runId hid hfile
  have heq := hstored.eq_of_parse hlookup hparse
  subst heq
  exact ⟨hid, hstored, hopen, fun path' hid' hfile' => h.unique path' path runId hid' hid hfile' hfile,
    content, hlookup, hparse⟩

theorem fits_nodeSet {runId nodeId status : Text} {actor resultRef : Option Text} {author : Text}
    (h : Inv flowYaml yaml quote w)
    (hplan : plan flowYaml yaml quote w.tree (.nodeSet runId nodeId status actor resultRef author)
      env = .ok p) :
    Fits flowYaml yaml quote w (.nodeSet runId nodeId status actor resultRef author) p runId := by
  obtain ⟨path, run, i, node, target, hfind, hrunning, hnode, hallowed, hpath, hrun, hevents⟩ :=
    plan_nodeSet hplan
  obtain ⟨hid, hstored, hopen, halone, content, hlookup, hparse⟩ := found_run h hfind
  obtain ⟨-, doc, -, -, hname, hplace, hdoc, hconsistent⟩ := hstored
  obtain ⟨hconsistent', hopen'⟩ := consistent_setNode hconsistent hopen hrunning hnode hallowed actor
    resultRef env.now
  rw [← hrun] at hconsistent' hopen'
  subst hpath
  have hname' : p.run.runId = runId := by rw [hrun]; exact hname
  refine ⟨hid, hname', by rw [hrun]; exact hplace, ?_, ⟨doc, by rw [hrun]; exact hdoc, ?_⟩, hopen',
    halone, ?_, ?_, ?_⟩
  · rw [hrun]
    exact (parseRunState_ok.mp hparse).2
  · simpa [Call.cancels] using hconsistent'
  · intro content' run' hlookup' hparse'
    rw [hlookup] at hlookup'
    cases hlookup'
    rw [hparse] at hparse'
    cases hparse'
    exact hrunning
  · rw [hevents, List.filter_cons_of_neg (by simp [isCompletion]), filter_completion,
      if_pos hname', length_completion]
  · intro other hne
    rw [hevents, List.filter_cons_of_neg (by simp [isCompletion]), filter_completion,
      if_neg (fun heq => hne (heq.symm.trans hname'))]

theorem fits_cancel {runId author : Text} (h : Inv flowYaml yaml quote w)
    (hplan : plan flowYaml yaml quote w.tree (.cancel runId author) env = .ok p) :
    Fits flowYaml yaml quote w (.cancel runId author) p runId := by
  obtain ⟨path, run, hfind, hrunning, rfl⟩ := plan_cancel hplan
  obtain ⟨hid, hstored, hopen, halone, content, hlookup, hparse⟩ := found_run h hfind
  obtain ⟨-, doc, -, -, hname, hplace, hdoc, hconsistent⟩ := hstored
  refine ⟨hid, hname, hplace, (parseRunState_ok.mp hparse).2,
    ⟨doc, hdoc, consistent_cancel hconsistent (.inl rfl) env.now⟩, hopen, halone, ?_, ?_, ?_⟩
  · intro content' run' hlookup' hparse'
    rw [hlookup] at hlookup'
    cases hlookup'
    rw [hparse] at hparse'
    cases hparse'
    exact hrunning
  · simp [isCompletion, hname, RunStatus.isTerminal]
  · intro other hne
    have hother : run.runId ≠ other := fun heq => hne (heq.symm.trans hname)
    simp [isCompletion, hother]

theorem fits_of_plan (h : Inv flowYaml yaml quote w)
    (hplan : plan flowYaml yaml quote w.tree c env = .ok p)
    (hfresh : c.starts = true →
      w.tree.find? (fun file => runIdOf file.1 = some env.runId) = none) :
    ∃ id, Fits flowYaml yaml quote w c p id := by
  cases c with
  | start slug channel author =>
    exact ⟨env.runId, fits_start h hplan (hfresh rfl)⟩
  | nodeSet runId nodeId status actor resultRef author => exact ⟨runId, fits_nodeSet h hplan⟩
  | cancel runId author => exact ⟨runId, fits_cancel h hplan⟩

/-- The state after a write that was committed. -/
theorem inv_written {id : Text} (hyaml : ∀ run, yaml.fromStr (yaml.toStr run) = some run)
    (h : Inv flowYaml yaml quote w) (hfits : Fits flowYaml yaml quote w c p id) :
    Inv flowYaml yaml quote ⟨writeFile w.tree p.path (yaml.toStr p.run), w.events ++ p.events,
      if c.cancels then p.path :: w.cancelled else w.cancelled⟩ := by
  have htemplate : ∀ slug, (writeFile w.tree p.path (yaml.toStr p.run)).lookup (flowPath slug) =
      w.tree.lookup (flowPath slug) := by
    intro slug
    rw [lookup_writeFile, if_neg]
    rw [hfits.path]
    exact flowPath_ne_runPath slug _ _
  have hcancelled : ∀ path, path ≠ p.path →
      (path ∈ (if c.cancels then p.path :: w.cancelled else w.cancelled) ↔ path ∈ w.cancelled) := by
    intro path hne
    split
    · simp [hne]
    · rfl
  have hkeep : ∀ path other run, path ≠ p.path → StoredRun flowYaml yaml quote w path other run →
      StoredRun flowYaml yaml quote ⟨writeFile w.tree p.path (yaml.toStr p.run), w.events ++ p.events,
        if c.cancels then p.path :: w.cancelled else w.cancelled⟩ path other run :=
    fun path other run hne hrun => hrun.keep (by rw [lookup_writeFile, if_neg hne]) htemplate
      (hcancelled path hne)
  have hwritten : StoredRun flowYaml yaml quote
      ⟨writeFile w.tree p.path (yaml.toStr p.run), w.events ++ p.events,
        if c.cancels then p.path :: w.cancelled else w.cancelled⟩ p.path id p.run := by
    obtain ⟨doc, hdoc, hconsistent⟩ := hfits.consistent
    refine ⟨yaml.toStr p.run, doc, by rw [lookup_writeFile, if_pos rfl],
      parseRunState_ok.mpr ⟨hyaml p.run, hfits.version⟩, hfits.name, hfits.path, ?_, ?_⟩
    · rw [readTemplate, htemplate]
      exact hdoc
    · have hmem : (p.path ∈ (if c.cancels then p.path :: w.cancelled else w.cancelled)) ↔
          (c.cancels = true ∨ p.path ∈ w.cancelled) := by
        cases c.cancels <;> simp
      rw [hmem]
      exact hconsistent
  refine ⟨fun path other hpath hfile => ?_, fun path path' other hpath hpath' hfile hfile' => ?_,
    fun other => ?_, fun path hpath => ?_⟩
  · by_cases heq : path = p.path
    · subst heq
      rw [hfits.isRun] at hpath
      cases hpath
      exact ⟨p.run, hwritten, hfits.isOpen⟩
    · rw [lookup_writeFile, if_neg heq] at hfile
      obtain ⟨run, hrun, hopen⟩ := h.stored path other hpath hfile
      exact ⟨run, hkeep path other run heq hrun, hopen⟩
  · by_cases heq : path = p.path
    · by_cases heq' : path' = p.path
      · rw [heq, heq']
      · rw [lookup_writeFile, if_neg heq'] at hfile'
        rw [heq, hfits.isRun] at hpath
        cases hpath
        exact absurd (hfits.alone path' hpath' hfile') heq'
    · rw [lookup_writeFile, if_neg heq] at hfile
      by_cases heq' : path' = p.path
      · rw [heq', hfits.isRun] at hpath'
        cases hpath'
        exact absurd (hfits.alone path hpath hfile) heq
      · rw [lookup_writeFile, if_neg heq'] at hfile'
        exact h.unique path path' other hpath hpath' hfile hfile'
  · rw [List.filter_append]
    by_cases heq : other = id
    · subst heq
      have hnone : w.events.filter (isCompletion other) = [] := by
        -- A run that completed is terminal, and the call has found one that is not.
        rcases h.completed other with hnone | ⟨-, path, run, hpath, hrun, hterminal⟩
        · exact hnone
        · obtain ⟨content, -, hlookup, hparse, -⟩ := hrun
          have hplace := hfits.alone path hpath (by rw [hlookup]; exact Option.some_ne_none content)
          rw [hplace] at hlookup
          have hrunning := hfits.before content run hlookup hparse
          rw [hterminal] at hrunning
          cases hrunning
      rw [hnone, List.nil_append]
      have hlength := hfits.events
      cases hterminal : p.run.status.isTerminal with
      | false =>
        rw [hterminal] at hlength
        exact .inl (List.length_eq_zero_iff.mp hlength)
      | true =>
        rw [hterminal] at hlength
        exact .inr ⟨hlength, p.path, p.run, hfits.isRun, hwritten, hterminal⟩
    · rw [hfits.others other heq, List.append_nil]
      rcases h.completed other with hnone | ⟨hone, path, run, hpath, hrun, hterminal⟩
      · exact .inl hnone
      · have hne : path ≠ p.path := by
          rintro rfl
          rw [hfits.isRun] at hpath
          exact heq (Option.some.inj hpath).symm
        exact .inr ⟨hone, path, run, hpath, hkeep path other run hne hrun, hterminal⟩
  · rw [lookup_writeFile]
    split
    · exact Option.some_ne_none _
    · rename_i hne
      exact h.cancelled path ((hcancelled path hne).mp hpath)

/-- How a call ends if nothing disturbs it. -/
theorem answer_cases {x : Call × Env} (h : Inv flowYaml yaml quote w)
    (hcond : Undisturbed flowYaml yaml quote w x) :
    ((∀ path, (answer flowYaml yaml quote w x.1 x.2).1.tree.lookup path = w.tree.lookup path) ∧
      (answer flowYaml yaml quote w x.1 x.2).1.events = w.events ∧
      (answer flowYaml yaml quote w x.1 x.2).1.cancelled = w.cancelled) ∨
    (answer flowYaml yaml quote w x.1 x.2).2 = .ok () ∧
      ∃ p id, Fits flowYaml yaml quote w x.1 p id ∧ (answer flowYaml yaml quote w x.1 x.2).1 =
        ⟨writeFile w.tree p.path (yaml.toStr p.run), w.events ++ p.events,
          if x.1.cancels then p.path :: w.cancelled else w.cancelled⟩ := by
  rw [answer]
  cases hplan : plan flowYaml yaml quote w.tree x.1 x.2 with
  | error e => exact .inl ⟨fun _ => rfl, rfl, rfl⟩
  | ok p =>
    obtain ⟨hends, hfresh⟩ := hcond p hplan
    obtain ⟨id, hfits⟩ := fits_of_plan h hplan hfresh
    have hleft : (replaceFile w.tree p.path (yaml.toStr p.run) x.2.write).1.lookup p.path =
        w.tree.lookup p.path → ∀ path,
          (replaceFile w.tree p.path (yaml.toStr p.run) x.2.write).1.lookup path =
            w.tree.lookup path := by
      intro hsame path
      by_cases heq : path = p.path
      · rw [heq, hsame]
      · cases x.2.write with
        | notOpened => rfl
        | stopped n => rw [replaceFile, lookup_writeFile, if_neg heq]
        | complete => rw [replaceFile, lookup_writeFile, if_neg heq]
    dsimp only
    rcases hends with ⟨hwrite, hcommitted⟩ | hsame
    · rw [hwrite]
      dsimp only [replaceFile]
      rw [if_pos hcommitted]
      exact .inr ⟨rfl, p, id, hfits, rfl⟩
    · have hall := hleft hsame
      cases hwrite : x.2.write with
      | notOpened => exact .inl ⟨fun _ => rfl, rfl, rfl⟩
      | stopped n =>
        rw [hwrite] at hall
        exact .inl ⟨hall, rfl, rfl⟩
      | complete =>
        rw [hwrite] at hall
        dsimp only [replaceFile]
        split
        · exact .inr ⟨rfl, p, id, hfits, rfl⟩
        · exact .inl ⟨hall, rfl, rfl⟩

theorem inv_step {x : Call × Env} {w' : World}
    (hyaml : ∀ run, yaml.fromStr (yaml.toStr run) = some run) (h : Inv flowYaml yaml quote w)
    (hcond : Undisturbed flowYaml yaml quote w x)
    (hstep : step flowYaml yaml quote w x = some w') : Inv flowYaml yaml quote w' := by
  cases hstep
  rcases answer_cases h hcond with ⟨htree, hevents, hcancelled⟩ | ⟨-, p, id, hfits, hworld⟩
  · exact inv_same h htree hevents hcancelled
  · rw [hworld]
    exact inv_written hyaml h hfits

theorem respects_of_undisturbed {x : Call × Env} (h : Inv flowYaml yaml quote w)
    (hcond : Undisturbed flowYaml yaml quote w x) : Respects flowYaml yaml quote w x := by
  rcases answer_cases h hcond with ⟨htree, -, -⟩ | ⟨hok, p, id, hfits, hworld⟩
  · exact ⟨fun _ _ path _ _ => htree path, fun path _ content _ _ hlookup _ _ =>
      (htree path).trans hlookup⟩
  · refine ⟨fun e he => ?_, fun path other content run hpath hlookup hparse hterminal => ?_⟩
    · rw [hok] at he
      cases he
    · rw [hworld, lookup_writeFile]
      split
      · rename_i heq
        rw [heq] at hlookup
        have hrunning := hfits.before content run hlookup hparse
        rw [hterminal] at hrunning
        cases hrunning
      · exact hlookup

theorem inv_empty {tree : FileMap} (hempty : ∀ path id, runIdOf path = some id →
    tree.lookup path = none) : Inv flowYaml yaml quote ⟨tree, [], []⟩ :=
  ⟨fun path id hid hfile => absurd (hempty path id hid) hfile,
    fun path _ id hid _ hfile => absurd (hempty path id hid) hfile, fun _ => .inl rfl,
    fun _ hpath => (by cases hpath)⟩

/-- Every stored run of every undisturbed sequence of calls is consistent, every call that answers
an error has left the runs as they were, and terminal runs stay. -/
theorem flowRuns_sound {tree : FileMap} {calls : List (Call × Env)}
    (hyaml : ∀ run, yaml.fromStr (yaml.toStr run) = some run)
    (hempty : ∀ path id, runIdOf path = some id → tree.lookup path = none)
    (hrun : run (step flowYaml yaml quote) ⟨tree, [], []⟩ calls = some w)
    (hcond : Along (step flowYaml yaml quote) (Undisturbed flowYaml yaml quote) ⟨tree, [], []⟩
      calls) :
    Sound flowYaml yaml quote w ∧
      Along (step flowYaml yaml quote) (Respects flowYaml yaml quote) ⟨tree, [], []⟩ calls := by
  have hstart : Inv flowYaml yaml quote ⟨tree, [], []⟩ := inv_empty hempty
  have hpreserve : ∀ u x u', Inv flowYaml yaml quote u → Undisturbed flowYaml yaml quote u x →
      step flowYaml yaml quote u x = some u' → Inv flowYaml yaml quote u' :=
    fun u x u' hu hx hstep => inv_step hyaml hu hx hstep
  have hinv := run_invariant hpreserve hrun hcond hstart
  refine ⟨⟨fun path id hid hfile => ?_, fun id => ?_⟩, ?_⟩
  · obtain ⟨r, hr, -⟩ := hinv.stored path id hid hfile
    exact ⟨r, hr⟩
  · rcases hinv.completed id with hnone | ⟨hone, -⟩
    · rw [hnone]
      exact Nat.zero_le 1
    · exact Nat.le_of_eq hone
  · exact along_mono hpreserve (fun u x hu hx => respects_of_undisturbed hu hx) hstart hcond

end Invariant

section Samples
open ThreadMerge TableCodec ConflictReplay

instance decidableUndisturbed (flowYaml : FlowCodec) (yaml : RunCodec) (quote : Char → Text)
    (w : World) (x : Call × Env) : Decidable (Undisturbed flowYaml yaml quote w x) :=
  match hplan : plan flowYaml yaml quote w.tree x.1 x.2 with
  | .error _ => isTrue fun _ hok => (by cases hplan.symm.trans hok)
  | .ok p =>
    decidable_of_iff
      ((x.2.write = .complete ∧ x.2.committed = true ∨
        (replaceFile w.tree p.path (yaml.toStr p.run) x.2.write).1.lookup p.path =
          w.tree.lookup p.path) ∧
      (x.1.starts = true → w.tree.find? (fun file => runIdOf file.1 = some x.2.runId) = none))
      ⟨fun h _ hok => Except.ok.inj (hplan.symm.trans hok) ▸ h, fun h => h p hplan⟩

def runStatusNumber : RunStatus → Fin 4
  | .inProgress => 0
  | .done => 1
  | .failed => 2
  | .cancelled => 3

def runStatusOf (n : Fin 4) : RunStatus :=
  if n = 0 then .inProgress else if n = 1 then .done else if n = 2 then .failed else .cancelled

instance encodableRunStatus : Encodable RunStatus :=
  Encodable.ofLeftInverse runStatusNumber runStatusOf fun s => by cases s <;> rfl

def nodeStatusNumber : NodeStatus → Fin 5
  | .pending => 0
  | .inProgress => 1
  | .done => 2
  | .failed => 3
  | .skipped => 4

def nodeStatusOf (n : Fin 5) : NodeStatus :=
  if n = 0 then .pending else if n = 1 then .inProgress else if n = 2 then .done
  else if n = 3 then .failed else .skipped

instance encodableNodeStatus : Encodable NodeStatus :=
  Encodable.ofLeftInverse nodeStatusNumber nodeStatusOf fun s => by cases s <;> rfl

instance encodableRunNode : Encodable FlowRunNode :=
  Encodable.ofLeftInverse
    (fun n => (n.id, n.status, n.actor, n.startedAt, n.completedAt, n.resultRef))
    (fun n => ⟨n.1, n.2.1, n.2.2.1, n.2.2.2.1, n.2.2.2.2.1, n.2.2.2.2.2⟩) fun _ => rfl

instance encodableRun : Encodable FlowRun :=
  Encodable.ofLeftInverse
    (fun r => (r.schemaVersion, r.runId, r.flowSlug, r.channel, r.startedAt, r.startedBy, r.status,
      r.nodes, r.updatedAt))
    (fun r => ⟨r.1, r.2.1, r.2.2.1, r.2.2.2.1, r.2.2.2.2.1, r.2.2.2.2.2.1, r.2.2.2.2.2.2.1,
      r.2.2.2.2.2.2.2.1, r.2.2.2.2.2.2.2.2⟩) fun _ => rfl

def releaseYaml : Text := ['\n'].intercalate ["schema_version: 1".toList, "slug: release".toList,
  "name: Release".toList, "description: ''".toList, "created_by: alice".toList,
  "created_at: ".toList ++ newYear, "nodes:".toList, "- id: build".toList,
  "  type: agent_mention".toList, "  owner: alice".toList]

def releaseMeta : FlowMeta := ⟨1, "release".toList, "Release".toList, [], "alice".toList, newYear,
  none, [⟨"build".toList, .agentMention, some "alice".toList, [], none, [], [], [], []⟩]⟩

def releaseCodec : FlowCodec where
  fromStr t := if t = releaseYaml then .ok releaseMeta else .error "missing field".toList
  toStr _ := releaseYaml

def releaseText : Text :=
  "---\n".toList ++ (releaseYaml ++ "\n---\n\n## build\n\nBuild it.\n".toList)

def sampleRunId : Text := "20260101T000000-a1b2c3".toList

def sampleRun (status : RunStatus) (node : NodeStatus) (started completed : Option Text) : FlowRun :=
  ⟨1, sampleRunId, "release".toList, "general".toList, newYear, "alice".toList, status,
    [⟨"build".toList, node, none, started, completed, none⟩], newYear⟩

def timeYaml (key : Text) (time : Option Text) : List Text :=
  (time.map fun t => "  ".toList ++ (key ++ (": ".toList ++ t))).toList

def runYaml (r : FlowRun) : Text := unlines (["schema_version: 1".toList,
  "run_id: ".toList ++ r.runId, "flow_slug: ".toList ++ r.flowSlug,
  "channel: ".toList ++ r.channel, "started_at: ".toList ++ r.startedAt,
  "started_by: ".toList ++ r.startedBy, "status: ".toList ++ r.status.asStr, "nodes:".toList] ++
  (r.nodes.flatMap fun n => ["- id: ".toList ++ n.id, "  status: ".toList ++ n.status.asStr] ++
    timeYaml "started_at".toList n.startedAt ++ timeYaml "completed_at".toList n.completedAt) ++
  ["updated_at: ".toList ++ r.updatedAt])

def runTable : List (FlowRun × Text) :=
  [sampleRun .inProgress .pending none none, sampleRun .inProgress .inProgress (some newYear) none,
    sampleRun .done .done (some newYear) (some newYear)].map fun r => (r, runYaml r)

def sampleRuns : RunCodec := ⟨tableValue runTable, tableText runTable⟩

theorem sampleRuns_back (r : FlowRun) : sampleRuns.fromStr (sampleRuns.toStr r) = some r :=
  tableValue_tableText (by decide +kernel) r

def sampleQuote (c : Char) : Text := ['\'', c, '\'']

def sampleEnv : Env :=
  ⟨sampleRunId, by decide, newYear, true, true, .complete, true⟩

def commitFails : Env := { sampleEnv with committed := false }

def sampleTree : FileMap :=
  [(flowPath "release".toList, releaseText),
    (metaPath "general".toList, blockYaml (channelOf ["alice".toList]))]

theorem sampleTree_empty (path : Path) (id : Text) (h : runIdOf path = some id) :
    sampleTree.lookup path = none := by
  obtain ⟨slug, rfl⟩ := runIdOf_eq_some h
  have hmeta : runPath slug id ≠ metaPath "general".toList := by
    intro heq
    have hhead : some 'f' = some 'c' := congrArg List.head? heq
    cases hhead
  rw [sampleTree, lookup_cons_ite, if_neg (flowPath_ne_runPath _ slug id).symm, lookup_cons_ite,
    if_neg hmeta]
  rfl

def buildSet (status : Text) : Call :=
  .nodeSet sampleRunId "build".toList status none none "alice".toList

/-- The build is started and done; the run is complete and cannot be cancelled any more. -/
def sampleCalls : List (Call × Env) :=
  [(.start "release".toList "general".toList "alice".toList, sampleEnv),
    (buildSet "in_progress".toList, sampleEnv), (buildSet "done".toList, sampleEnv),
    (.cancel sampleRunId "alice".toList, sampleEnv)]

theorem flowRuns_sound_sampleCalls :
    ∃ w, run (step releaseCodec sampleRuns sampleQuote) ⟨sampleTree, [], []⟩ sampleCalls = some w ∧
      w.tree.lookup (runPath "release".toList sampleRunId) =
        some (runYaml (sampleRun .done .done (some newYear) (some newYear))) ∧
      (w.events.filter (isCompletion sampleRunId)).length = 1 ∧
      Sound releaseCodec sampleRuns sampleQuote w := by
  have hevaluated :
      (run (step releaseCodec sampleRuns sampleQuote) ⟨sampleTree, [], []⟩ sampleCalls).map
        (fun w => (w.tree.lookup (runPath "release".toList sampleRunId),
          (w.events.filter (isCompletion sampleRunId)).length)) =
        some (some (runYaml (sampleRun .done .done (some newYear) (some newYear))), 1) ∧
      Along (step releaseCodec sampleRuns sampleQuote)
        (Undisturbed releaseCodec sampleRuns sampleQuote) ⟨sampleTree, [], []⟩ sampleCalls := by
    unfold sampleCalls sampleTree releaseText releaseYaml
    repeat rw [String.toList_ofList]
    decide +kernel
  obtain ⟨hend, hundisturbed⟩ := hevaluated
  obtain ⟨w, hrun, hfields⟩ := Option.map_eq_some_iff.mp hend
  rw [Prod.mk.injEq] at hfields
  exact ⟨w, hrun, hfields.1, hfields.2, (flowRuns_sound sampleRuns_back sampleTree_empty hrun
    hundisturbed).1⟩

/-- The commit of the last step fails. -/
def uncommitted : List (Call × Env) :=
  [(.start "release".toList "general".toList "alice".toList, sampleEnv),
    (buildSet "done".toList, commitFails)]

/-- The call answers an error, and the run is stored as done. -/
theorem not_respects_uncommitted :
    ∃ w, step releaseCodec sampleRuns sampleQuote ⟨sampleTree, [], []⟩
        (.start "release".toList "general".toList "alice".toList, sampleEnv) = some w ∧
      (answer releaseCodec sampleRuns sampleQuote w (buildSet "done".toList) commitFails).2 =
        .error "commit".toList ∧
      (answer releaseCodec sampleRuns sampleQuote w (buildSet "done".toList)
        commitFails).1.tree.lookup (runPath "release".toList sampleRunId) =
          some (runYaml (sampleRun .done .done (some newYear) (some newYear))) ∧
      ¬ Along (step releaseCodec sampleRuns sampleQuote) (Respects releaseCodec sampleRuns sampleQuote)
        ⟨sampleTree, [], []⟩ uncommitted := by
  have hevaluated :
      (step releaseCodec sampleRuns sampleQuote ⟨sampleTree, [], []⟩
          (.start "release".toList "general".toList "alice".toList, sampleEnv)).map (fun w =>
        ((answer releaseCodec sampleRuns sampleQuote w (buildSet "done".toList) commitFails).2,
          (answer releaseCodec sampleRuns sampleQuote w (buildSet "done".toList)
            commitFails).1.tree.lookup (runPath "release".toList sampleRunId),
          w.tree.lookup (runPath "release".toList sampleRunId))) =
        some (.error "commit".toList,
          some (runYaml (sampleRun .done .done (some newYear) (some newYear))),
          some (runYaml (sampleRun .inProgress .pending none none))) ∧
      runIdOf (runPath "release".toList sampleRunId) = some sampleRunId ∧
      runYaml (sampleRun .done .done (some newYear) (some newYear)) ≠
        runYaml (sampleRun .inProgress .pending none none) := by
    unfold sampleTree releaseText
    repeat rw [String.toList_ofList]
    decide +kernel
  obtain ⟨hend, hid, hother⟩ := hevaluated
  obtain ⟨w, hstart, hfields⟩ := Option.map_eq_some_iff.mp hend
  simp only [Prod.mk.injEq] at hfields
  obtain ⟨hanswer, hstored, hbefore⟩ := hfields
  refine ⟨w, hstart, hanswer, hstored, fun h => ?_⟩
  have hsame := (h.2 w hstart).1.unchanged "commit".toList hanswer
    (runPath "release".toList sampleRunId) sampleRunId hid
  rw [hstored, hbefore] at hsame
  exact hother (Option.some.inj hsame)

end Samples

end FlowRuns
