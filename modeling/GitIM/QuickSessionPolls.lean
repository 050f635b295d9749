import GitIM.QuickSessionCalls

/-!
# Polling quick sessions

The runtime of an agent polls the list of its actionable sessions and claims what it finds, and a
client polls a session with the last line it has read. The list offers exactly the sessions that a
claim would get, as far as it is not cut off; the lines that a client has read are the first lines of
the thread, in order, whatever happens between its polls.
-/

namespace QuickSessionPolls

open Checked TextLines TextScan FileTree GitIndex ThreadFormat ThreadGrammar ThreadValidation
  ThreadReading ThreadMerge QuickSession QuickSessionLife QuickSessionCreate
  QuickSessionCalls Runs

structure ListItem where
  id : Text
  title : Option Text
  agentId : Text
  createdBy : Text
  status : QuickSessionStatus
  updatedAt : Text
  lastMessagePreview : Text
  revision : Nat
  archived : Bool
  reference : Text
  deriving DecidableEq

def ListItem.fromMeta (info : QuickSessionMeta) (archived : Bool) : ListItem where
  id := info.id
  title := info.title
  agentId := info.agentId
  createdBy := info.createdBy
  status := info.status
  updatedAt := info.updatedAt
  lastMessagePreview := info.lastMessagePreview
  revision := info.revision
  archived := archived
  reference := refString info

section Model
variable {Json : Type} (lib : Library Json)

/-- A title is missing or set, and the newest line of the creator is not answered. -/
def isActionable (tree : FileMap) (located : Located) (info : QuickSessionMeta) : Bool :=
  (info.status = .needsTitle ∨ info.status = .active) &&
    match loadThread lib tree located with
    | .error _ => false
    | .ok entries =>
      match newestCreatorLine entries info.createdBy with
      | none => false
      | some line => ¬ info.lastCompletedInputLine.any fun completed => line ≤ completed

/-- What one directory adds to the list; what cannot be read is left out. -/
def listed (tree : FileMap) (archived : Bool) (agentId : Option Text) (actionable : Bool)
    (status : Option QuickSessionStatus) (sessionId : Text) : Option ListItem :=
  match sessionRelDir sessionId archived with
  | .error _ => none
  | .ok dir =>
    match loadMeta lib tree ⟨dir, archived⟩ with
    | .error _ => none
    | .ok info =>
      if agentId.any (· ≠ info.agentId) = true then none
      else if status.any (· ≠ info.status) = true then none
      else if actionable = true ∧ isActionable lib tree ⟨dir, archived⟩ info = false then none
      else some (.fromMeta info archived)

/-- The newest change first, then by id. -/
def newerFirst (left right : ListItem) : Bool :=
  right.updatedAt < left.updatedAt ∨ left.updatedAt = right.updatedAt ∧ left.id ≤ right.id

def listLimit (limit : Option Nat) : Nat := min (max (limit.getD 100) 1) 100

def handleListQuickSessions (tree : FileMap) (archived : Bool) (agentId : Option Text)
    (actionable : Bool) (status : Option QuickSessionStatus) (limit : Option Nat) :
    Except Refusal (List ListItem) := do
  checkSome agentId fun agent => (Handler.new agent).map (fun _ => ()) |>.mapError fun e =>
    .error ("invalid agent: ".toList ++ handlerErrorText e) none
  .ok ((((readDir (rootOf archived) tree).filterMap
    (listed lib tree archived agentId actionable status)).mergeSort newerFirst).take (listLimit limit))

/-- With a line to start behind, the first entries behind it; else the last entries. -/
def boundedEntries (entries : List (ThreadEntry Json)) (limit since : Option Nat) :
    List (ThreadEntry Json) :=
  let later := entries.filter fun entry => since.all fun line => line < entry.lineNumber
  match limit with
  | none => later
  | some n => if since.isSome then later.take n else later.drop (later.length - n)

def handleReadQuickSession (tree : FileMap) (sessionId : Text) (limit since : Option Nat) :
    Except Refusal (Detail Json) := do
  match ← locateSession tree sessionId with
  | none => .error notFound
  | some located => do
    let session ← detail lib tree located
    .ok { session with entries := boundedEntries session.entries limit since }

end Model

section Claims

variable {Json : Type} {lib : Library Json} {tree : FileMap} {id : Text} {s : Session} {scene : Scene}
  {agent attempt : Text} {line : Nat}

/-- The newest line of the creator is the one the metadata know. -/
theorem newestCreatorLine_eq {info : QuickSessionMeta} {messages : List Message}
    (h : Conversation info messages) :
    newestCreatorLine (messages.map (@ThreadEntry.message Json)) info.createdBy =
      info.lastHumanLine := by
  obtain ⟨line, hline⟩ := Option.ne_none_iff_exists'.mp h.asked
  obtain ⟨⟨m, hm, hauthor, hnumber⟩, hmax⟩ := (h.newest line).mp hline
  rw [hline, newestCreatorLine, List.max?_eq_some_iff]
  simp only [List.mem_filterMap, List.mem_map, exists_exists_and_eq_and,
    Option.ite_none_right_eq_some, Option.some.injEq]
  refine ⟨⟨m, hm, hauthor, hnumber⟩, ?_⟩
  rintro b ⟨k, hk, hkauthor, rfl⟩
  exact hmax k hk hkauthor

/-- When a claim under a fresh attempt is accepted. -/
structure Claimable (s : Session) (agent : Text) (line : Nat) : Prop where
  active : s.archived = false
  agent : s.info.agentId = agent
  status : s.info.status = .needsTitle ∨ s.info.status = .active
  newest : s.info.lastHumanLine = some line
  unanswered : ∀ done, s.info.lastCompletedInputLine = some done → done < line
  room : s.info.revision + 1 < u64Bound

theorem claimable_of_accepted (hkept : Kept lib tree) (hs : Stores lib tree id s)
    (hfresh : s.info.attemptId ≠ some attempt) {response : ClaimResponse}
    (h : (handleClaimQuickSessionTurn lib scene tree id line attempt agent).1 = .ok response) :
    Claimable s agent line ∧ response.status = .running := by
  rw [handleClaimQuickSessionTurn] at h
  cases hclaim : claimTurn lib scene tree id line attempt agent with
  | error refusal =>
    rw [hclaim] at h
    cases h
  | ok answer =>
    rw [hclaim] at h
    obtain ⟨handler, -, hclaim⟩ := bind_eq_ok_iff.mp hclaim
    obtain ⟨located, hlocated, hclaim⟩ := bind_eq_ok_iff.mp hclaim
    obtain ⟨hid, s', hs', hactive, rfl⟩ := stores_of_locateActive hkept hlocated
    obtain rfl := hs.unique hs'
    obtain ⟨info, hinfo, hclaim⟩ := bind_eq_ok_iff.mp hclaim
    rw [hs.loadMeta] at hinfo
    cases hinfo
    obtain ⟨hagent, hclaim⟩ := then_eq_ok_iff.mp hclaim
    obtain ⟨entries, -, hclaim⟩ := bind_eq_ok_iff.mp hclaim
    obtain ⟨-, hclaim⟩ := then_eq_ok_iff.mp hclaim
    obtain ⟨stored, hstored, hclaim⟩ := bind_eq_ok_iff.mp hclaim
    cases hclaim
    obtain ⟨located, hlocated', hstored⟩ := bind_eq_ok_iff.mp hstored
    rw [hlocated] at hlocated'
    cases hlocated'
    obtain ⟨info, hinfo, hstored⟩ := bind_eq_ok_iff.mp hstored
    rw [hs.loadMeta] at hinfo
    cases hinfo
    obtain ⟨oldInfo, -, hstored⟩ := bind_eq_ok_iff.mp hstored
    obtain ⟨⟨outcome, next⟩, happlied, hstored⟩ := bind_eq_ok_iff.mp hstored
    rw [mapError_eq_ok_iff] at happlied
    have houtcome : outcome = .applied := by
      rw [applyQuickSessionTransition, then_eq_ok_iff] at happlied
      obtain ⟨⟨first, result⟩, happly, hrest⟩ := bind_eq_ok_iff.mp happlied.2
      rw [applyTransition, applyClaim, then_eq_ok_iff, then_eq_ok_iff,
        if_neg fun hsame => hfresh hsame.2.2] at happly
      simp only [then_eq_ok_iff, finish_eq_ok_iff] at happly
      obtain ⟨-, -, -, -, -, -, -, rfl, -⟩ := happly
      simp only [if_true, then_eq_ok_iff] at hrest
      exact (Prod.mk.inj (Except.ok.inj hrest.2)).1.symm
    subst houtcome
    cases hstored
    obtain ⟨-, happly, -⟩ := applyQuickSessionTransition_applied happlied
    obtain ⟨hactor, -, hstatus, hnewest, -, hdone, hroom, hnext⟩ := applyClaim_applied happly
    refine ⟨⟨hactive, hactor.symm, hstatus, hnewest, hdone, hroom⟩, ?_⟩
    have hrunning : next.status = .running := by rw [hnext]
    rw [settle, Answer.map, Answer.map] at h
    cases hstore : (storeMeta scene tree (relDir id s.archived) "claim quick session".toList oldInfo
        (lib.yaml.toStr next)).1 with
    | error refusal =>
      rw [hstore] at h
      cases h
    | ok done =>
      rw [hstore] at h
      cases h
      exact hrunning

theorem accepted_of_claimable (hid : validateQuickSessionId id = .ok ()) (hs : Stores lib tree id s)
    {handler : Handler} (huser : ensureActiveUser tree agent "author".toList = .ok handler)
    (hwrite : scene.writeError = none) (hcommit : scene.commitError = none)
    (hattempt : validateQuickSessionAttemptId attempt = .ok ()) (h : Claimable s agent line) :
    ∃ response, (handleClaimQuickSessionTurn lib scene tree id line attempt agent).1 = .ok response ∧
      response.status = .running := by
  have happlies := claim_applies hs.valid h.newest h.unanswered h.status h.room attempt scene.now hattempt
  rw [inPlace] at happlies
  cases happlied : applyQuickSessionTransition s.info (.claim s.info.agentId line attempt scene.now) with
  | error e => simp [happlied] at happlies
  | ok result =>
    obtain ⟨outcome, next⟩ := result
    rw [happlied] at happlies
    have houtcome : outcome = .applied := Except.ok.inj happlies
    subst houtcome
    obtain ⟨-, happly, -⟩ := applyQuickSessionTransition_applied happlied
    obtain ⟨-, -, -, -, -, -, -, hnext⟩ := applyClaim_applied happly
    rw [h.agent] at happlied
    have hlocated : locateActive tree id = .ok ⟨relDir id s.archived, s.archived⟩ :=
      bind_eq_ok_iff.mpr ⟨_, hs.locate hid, by simp [h.active]⟩
    obtain ⟨oldInfo, hold, -⟩ := hs.info
    have hstored : applyMetaTransition lib scene tree id "claim quick session".toList
        (.claim agent line attempt scene.now) = .ok (.ok next,
          writeFile tree (infoPath (relDir id s.archived)) (lib.yaml.toStr next)) := by
      refine bind_eq_ok_iff.mpr ⟨_, hlocated, bind_eq_ok_iff.mpr ⟨_, hs.loadMeta,
        bind_eq_ok_iff.mpr ⟨oldInfo, readFile_ok_iff.mpr hold,
          bind_eq_ok_iff.mpr ⟨_, mapError_eq_ok_iff.mpr happlied, ?_⟩⟩⟩⟩
      simp only [storeMeta, hwrite, hcommit, Answer.map, Except.map]
    have hclaim : claimTurn lib scene tree id line attempt agent = .ok (.ok
        { receipt id next with inputLine := line, attemptId := attempt },
          writeFile tree (infoPath (relDir id s.archived)) (lib.yaml.toStr next)) := by
      refine bind_eq_ok_iff.mpr ⟨_, huser, bind_eq_ok_iff.mpr ⟨_, hlocated, bind_eq_ok_iff.mpr
        ⟨_, hs.loadMeta, then_eq_ok_iff.mpr ⟨refuse_eq_ok_iff.mpr (by simp [h.agent]),
          bind_eq_ok_iff.mpr ⟨_, hs.loadThread, then_eq_ok_iff.mpr ⟨refuse_eq_ok_iff.mpr ?_,
            bind_eq_ok_iff.mpr ⟨_, hstored, rfl⟩⟩⟩⟩⟩⟩⟩
      rw [newestCreatorLine_eq hs.conversation, h.newest]
      simp
    refine ⟨{ receipt id next with inputLine := line, attemptId := attempt }, ?_, ?_⟩
    · rw [handleClaimQuickSessionTurn, hclaim]
      rfl
    · rw [hnext]
      rfl

end Claims

section Lists

variable {Json : Type} {lib : Library Json} {tree start : FileMap} {id name : Text} {s : Session}
  {scene : Scene} {agent attempt : Text} {item : ListItem} {actions : List Action}

theorem valid_of_stores (h : Stores lib tree id s) : validateQuickSessionId id = .ok () := by
  rw [validateQuickSessionId, refuse_eq_ok_iff, ← h.id, h.valid.id]
  exact Bool.noConfusion

theorem no_slash_of_valid (h : validateQuickSessionId id = .ok ()) : '/' ∉ id := by
  rw [validateQuickSessionId, refuse_eq_ok_iff, Bool.not_eq_false, validateOpaqueId] at h
  split at h
  · rename_i value hvalue
    rw [stripPrefix_eq_some_iff.mp hvalue, List.mem_append, not_or]
    refine ⟨by decide, fun hmem => ?_⟩
    rw [Bool.and_eq_true, List.all_eq_true] at h
    exact absurd (h.2 '/' hmem) (by decide)
  · cases h

/-- A session in use is found in its directory. -/
theorem mem_readDir (hs : Stores lib tree id s) : id ∈ readDir (rootOf s.archived) tree := by
  have hslash := no_slash_of_valid (valid_of_stores hs)
  have hwhole : ∀ c ∈ id, decide (c ≠ '/') = true := fun c hc =>
    decide_eq_true fun heq => hslash (heq ▸ hc)
  rw [readDir, List.mem_dedup, List.mem_filterMap]
  refine ⟨_, mem_of_lookup hs.thread, ?_⟩
  rw [discussionPath, relDir_eq, List.append_assoc, stripPrefix_append, Option.map_some,
    List.takeWhile_append_of_pos hwhole]
  have hstop : ("/discussion.thread".toList).takeWhile (· ≠ '/') = [] := by decide
  rw [hstop, List.append_nil]

/-- What makes a session one that the agent should take up. -/
theorem isActionable_iff (hs : Stores lib tree id s) :
    isActionable lib tree ⟨relDir id s.archived, s.archived⟩ s.info = true ↔
      (s.info.status = .needsTitle ∨ s.info.status = .active) ∧
        ∃ line, s.info.lastHumanLine = some line ∧
          ∀ done, s.info.lastCompletedInputLine = some done → done < line := by
  rw [isActionable, hs.loadThread, Bool.and_eq_true, decide_eq_true_iff]
  refine and_congr Iff.rfl ?_
  simp only [newestCreatorLine_eq hs.conversation]
  obtain ⟨line, hline⟩ := Option.ne_none_iff_exists'.mp hs.conversation.asked
  rw [hline]
  cases s.info.lastCompletedInputLine <;> simp

theorem listed_iff (hkept : Kept lib tree) :
    listed lib tree false (some agent) true none name = some item ↔
      ∃ s, Stores lib tree name s ∧ s.archived = false ∧ s.info.agentId = agent ∧
        isActionable lib tree ⟨relDir name s.archived, s.archived⟩ s.info = true ∧
          item = .fromMeta s.info false := by
  constructor
  · intro h
    rw [listed] at h
    split at h
    · cases h
    · rename_i dir hdir
      obtain ⟨hid, rfl⟩ := sessionRelDir_ok_iff.mp hdir
      split at h
      · cases h
      · rename_i info hinfo
        rcases hkept name hid with habsent | ⟨s, hs⟩
        · rw [loadMeta, habsent false _ (under_infoPath _)] at hinfo
          cases hinfo
        · have hactive : s.archived = false := by
            by_contra hne
            have harchived : s.archived = true := by simpa using hne
            have hfree := hs.free _ (under_infoPath _)
            rw [harchived, Bool.not_true] at hfree
            rw [loadMeta, hfree] at hinfo
            cases hinfo
          have hloaded := hs.loadMeta
          rw [hactive, hinfo] at hloaded
          cases hloaded
          split at h
          · cases h
          · rename_i hagent
            split at h
            · cases h
            · split at h
              · cases h
              · rename_i hactionable
                have hname : agent = s.info.agentId := by simpa using hagent
                refine ⟨s, hs, hactive, hname.symm, ?_, (Option.some.inj h).symm⟩
                rw [hactive]
                simpa using hactionable
  · rintro ⟨s, hs, hactive, hagent, hactionable, rfl⟩
    have hload := hs.loadMeta
    rw [hactive] at hload hactionable
    have hdir : sessionRelDir name false = .ok (relDir name false) :=
      sessionRelDir_ok_iff.mpr ⟨valid_of_stores hs, rfl⟩
    simp only [listed, hdir, hload, hagent, hactionable, Option.any_some, Option.any_none, ne_eq,
      not_true_eq_false, decide_false, Bool.false_eq_true, if_false, Bool.true_eq_false, and_false]

theorem claimable_iff_actionable (hs : Stores lib tree id s) (hroom : s.info.revision + 1 < u64Bound) :
    (∃ line, Claimable s agent line) ↔ s.archived = false ∧ s.info.agentId = agent ∧
      isActionable lib tree ⟨relDir id s.archived, s.archived⟩ s.info = true := by
  rw [isActionable_iff hs]
  constructor
  · rintro ⟨line, h⟩
    exact ⟨h.active, h.agent, h.status, line, h.newest, h.unanswered⟩
  · rintro ⟨hactive, hagent, hstatus, line, hnewest, hdone⟩
    exact ⟨line, hactive, hagent, hstatus, hnewest, hdone, hroom⟩

theorem mem_take_or_full {α : Type} {a : α} {l : List α} (h : a ∈ l) (n : Nat) :
    a ∈ l.take n ∨ (l.take n).length = n := by
  by_cases hlong : l.length ≤ n
  · exact .inl (by rwa [List.take_of_length_le hlong])
  · exact .inr (by rw [List.length_take]; omega)

/-- The list that an agent polls offers only sessions whose newest question it can claim at once, and
a session that it can claim is missing only from a list that is full. -/
theorem polls_offer_claimable (hback : ∀ info, lib.yaml.fromStr (lib.yaml.toStr info) = .ok info)
    (hempty : NoSessions start) (hrolls : ∀ a ∈ actions, a.RollsBack)
    (hrun : run (step lib) start actions = some tree) {handler : Handler}
    (huser : ensureActiveUser tree agent "author".toList = .ok handler)
    (hwrite : scene.writeError = none) (hcommit : scene.commitError = none)
    (hattempt : validateQuickSessionAttemptId attempt = .ok ()) {limit : Option Nat}
    {items : List ListItem}
    (h : handleListQuickSessions lib tree false (some agent) true none limit = .ok items) :
    (∀ item ∈ items, ∃ s line, Stores lib tree item.id s ∧ item = .fromMeta s.info false ∧
      s.info.lastHumanLine = some line ∧ (s.info.revision + 1 < u64Bound →
        ∃ response, (handleClaimQuickSessionTurn lib scene tree item.id line attempt agent).1 =
          .ok response ∧ response.status = .running)) ∧
    ∀ id s line response, Stores lib tree id s → s.info.attemptId ≠ some attempt →
      (handleClaimQuickSessionTurn lib scene tree id line attempt agent).1 = .ok response →
        (∃ item ∈ items, item.id = id) ∨ items.length = listLimit limit := by
  have hkept := run_kept hback (kept_of_noSessions hempty) hrolls hrun
  obtain ⟨-, h⟩ := then_eq_ok_iff.mp h
  cases h
  constructor
  · intro item hitem
    obtain ⟨name, -, hlisted⟩ := List.mem_filterMap.mp (List.mem_mergeSort.mp (List.mem_of_mem_take hitem))
    obtain ⟨s, hs, hactive, hagent, hactionable, rfl⟩ := (listed_iff hkept).mp hlisted
    have hname : (ListItem.fromMeta s.info false).id = name := hs.id
    obtain ⟨line, hnewest, -⟩ := ((isActionable_iff hs).mp hactionable).2
    rw [hname]
    refine ⟨s, line, hs, rfl, hnewest, fun hroom => ?_⟩
    obtain ⟨line', hclaimable⟩ := (claimable_iff_actionable hs hroom).mpr ⟨hactive, hagent, hactionable⟩
    have hline := hclaimable.newest
    rw [hnewest] at hline
    cases hline
    exact accepted_of_claimable (valid_of_stores hs) hs huser hwrite hcommit hattempt hclaimable
  · intro id s line response hs hfresh haccepted
    have hclaimable := (claimable_of_accepted hkept hs hfresh haccepted).1
    obtain ⟨hactive, hagent, hactionable⟩ :=
      (claimable_iff_actionable hs hclaimable.room).mp ⟨line, hclaimable⟩
    have hlisted := (listed_iff hkept).mpr ⟨s, hs, hactive, hagent, hactionable, rfl⟩
    have hread := mem_readDir hs
    rw [hactive] at hread
    have hmem : ListItem.fromMeta s.info false ∈ ((readDir (rootOf false) tree).filterMap
        (listed lib tree false (some agent) true none)).mergeSort newerFirst :=
      List.mem_mergeSort.mpr (List.mem_filterMap.mpr ⟨id, hread, hlisted⟩)
    rcases mem_take_or_full hmem (listLimit limit) with hin | hfull
    · exact .inl ⟨_, hin, hs.id⟩
    · exact .inr hfull

end Lists

section Readers

variable {Json : Type} {lib : Library Json} {tree start : FileMap} {id : Text} {s : Session}

/-- A client's poll between the calls, behind the last line it has read. -/
inductive Move where
  | act (a : Action)
  | poll (limit : Option Nat)

def Move.RollsBack : Move → Prop
  | .act a => a.RollsBack
  | .poll _ => True

/-- The repository, and what the client has read. -/
abbrev Watched (Json : Type) := FileMap × List (ThreadEntry Json)

variable (lib id) in
def watchStep (w : Watched Json) : Move → Option (Watched Json)
  | .act a => (step lib w.1 a).map fun after => (after, w.2)
  | .poll limit =>
    match handleReadQuickSession lib w.1 id limit (some (lastLineNumber w.2)) with
    | .ok session => some (w.1, w.2 ++ session.entries)
    | .error _ => some w

/-- The part of the thread behind a line. -/
def page (messages : List Message) (since : Nat) : Option Nat → List Message
  | none => messages.drop since
  | some n => (messages.drop since).take n

theorem filter_later {messages : List Message} {base since : Nat}
    (h : messages.map (·.lineNumber) = List.range' (base + 1) messages.length) :
    messages.filter (fun m => since < m.lineNumber) = messages.drop (since - base) := by
  induction messages generalizing base with
  | nil => simp
  | cons m rest ih =>
    rw [List.map_cons, List.length_cons, List.range'_succ, List.cons.injEq] at h
    have hrest := ih h.2
    by_cases hlater : since < m.lineNumber
    · have hzero : since - base = 0 := by omega
      have hzero' : since - (base + 1) = 0 := by omega
      rw [List.filter_cons_of_pos (by simpa using hlater), hrest, hzero, hzero', List.drop_zero,
        List.drop_zero]
    · have hstep : since - base = (since - (base + 1)) + 1 := by omega
      rw [List.filter_cons_of_neg (by simpa using hlater), hrest, hstep, List.drop_succ_cons]

theorem boundedEntries_since {info : QuickSessionMeta} {messages : List Message}
    (h : Conversation info messages) (limit : Option Nat) (since : Nat) :
    boundedEntries (messages.map (@ThreadEntry.message Json)) limit (some since) =
      (page messages since limit).map .message := by
  have hlater : (messages.map (@ThreadEntry.message Json)).filter
      (fun entry => (some since).all fun line => decide (line < entry.lineNumber)) =
        (messages.drop since).map .message := by
    have hfilter : messages.filter (fun m => since < m.lineNumber) = messages.drop since :=
      filter_later h.numbered
    rw [← hfilter, List.filter_map]
    rfl
  simp only [boundedEntries, hlater]
  cases limit with
  | none => rfl
  | some n => simp [page, List.map_take]

theorem read_since (hs : Stores lib tree id s) (limit : Option Nat) (since : Nat) :
    handleReadQuickSession lib tree id limit (some since) =
      .ok ⟨s.info, (page s.messages since limit).map .message, s.archived⟩ := by
  have hdetail : detail lib tree ⟨relDir id s.archived, s.archived⟩ =
      .ok ⟨s.info, s.messages.map .message, s.archived⟩ :=
    bind_eq_ok_iff.mpr ⟨_, hs.loadMeta, bind_eq_ok_iff.mpr ⟨_, hs.loadThread, rfl⟩⟩
  refine bind_eq_ok_iff.mpr ⟨_, hs.locate (valid_of_stores hs), bind_eq_ok_iff.mpr ⟨_, hdetail, ?_⟩⟩
  rw [boundedEntries_since hs.conversation]

/-- What has been read is the beginning of the thread. -/
def Abreast (lib : Library Json) (id : Text) (w : Watched Json) : Prop :=
  (Absent w.1 id → w.2 = []) ∧
    ∀ s, Stores lib w.1 id s → ∃ n, n ≤ s.messages.length ∧ w.2 = (s.messages.take n).map .message

theorem lastLineNumber_take {info : QuickSessionMeta} {messages : List Message}
    (h : Conversation info messages) {n : Nat} (hn : n ≤ messages.length) :
    lastLineNumber ((messages.take n).map (@ThreadEntry.message Json)) = n :=
  lastLineNumber_numbered (by rw [List.map_take, h.numbered, List.take_range'_of_length_ge hn])

/-- A poll brings the lines that follow the ones that have been read, as many as it asks for. -/
theorem watch_poll (hs : Stores lib tree id s) {n : Nat} (hn : n ≤ s.messages.length)
    (limit : Option Nat) :
    watchStep lib id (tree, (s.messages.take n).map .message) (.poll limit) =
      some (tree, (s.messages.take (limit.elim s.messages.length (n + ·))).map .message) := by
  simp only [watchStep, lastLineNumber_take hs.conversation hn, read_since hs, ← List.map_append]
  cases limit with
  | none => simp [page]
  | some k => simp [page, List.take_add]

theorem watch_preserves (hback : ∀ info, lib.yaml.fromStr (lib.yaml.toStr info) = .ok info)
    (hid : validateQuickSessionId id = .ok ()) {w after : Watched Json} {move : Move}
    (hw : Kept lib w.1 ∧ Abreast lib id w) (hrolls : move.RollsBack)
    (hstep : watchStep lib id w move = some after) :
    Kept lib after.1 ∧ Abreast lib id after := by
  obtain ⟨tree, log⟩ := w
  obtain ⟨hkept, hempty, hread⟩ := hw
  cases move with
  | act a =>
    obtain ⟨next, hnext, rfl⟩ := Option.map_eq_some_iff.mp hstep
    obtain ⟨hkept', hevolves⟩ := step_effect hback hkept hrolls hnext
    refine ⟨hkept', fun habsent => ?_, fun s hs => ?_⟩
    · rcases hkept id hid with hbefore | ⟨s, hs⟩
      · exact hempty hbefore
      · obtain ⟨later, hlater, -⟩ := hevolves id s hid hs
        exact absurd habsent hlater.present
    · rcases hkept id hid with hbefore | ⟨earlier, hearlier⟩
      · exact ⟨0, Nat.zero_le _, hempty hbefore⟩
      · obtain ⟨later, hlater, hgrown⟩ := hevolves id earlier hid hearlier
        obtain rfl := hs.unique hlater
        obtain ⟨n, hn, hlog⟩ := hread earlier hearlier
        obtain ⟨more, hmore⟩ := hgrown.messages
        refine ⟨n, hn.trans hgrown.messages.length_le, ?_⟩
        rw [← hmore, List.take_append_of_le_length hn]
        exact hlog
  | poll limit =>
    rcases hkept id hid with habsent | ⟨s, hs⟩
    · have hlocate := habsent.locate hid
      have hrefused : handleReadQuickSession lib tree id limit (some (lastLineNumber log)) =
          .error notFound := by
        rw [handleReadQuickSession, hlocate]
        rfl
      rw [watchStep, hrefused] at hstep
      cases hstep
      exact ⟨hkept, hempty, hread⟩
    · obtain ⟨n, hn, rfl⟩ := hread s hs
      rw [watch_poll hs hn] at hstep
      cases hstep
      refine ⟨hkept, fun habsent => absurd habsent hs.present, fun s' hs' => ?_⟩
      obtain rfl := hs.unique hs'
      refine ⟨min (limit.elim s.messages.length (n + ·)) s.messages.length, Nat.min_le_right _ _, ?_⟩
      exact congrArg (List.map ThreadEntry.message) List.take_eq_take_min

/-- Whatever is called between its polls, a client has read the first lines of the thread, each once
and in order, and its next poll continues there. -/
theorem reader_follows (hback : ∀ info, lib.yaml.fromStr (lib.yaml.toStr info) = .ok info)
    (hempty : NoSessions start) (hid : validateQuickSessionId id = .ok ()) {moves : List Move}
    {log : List (ThreadEntry Json)} (hrolls : ∀ move ∈ moves, move.RollsBack)
    (hrun : run (watchStep lib id) (start, []) moves = some (tree, log))
    (hs : Stores lib tree id s) :
    ∃ n, n ≤ s.messages.length ∧ log = (s.messages.take n).map .message ∧
      ∀ limit, watchStep lib id (tree, log) (.poll limit) =
        some (tree, (s.messages.take (limit.elim s.messages.length (n + ·))).map .message) := by
  have hstart : Kept lib start ∧ Abreast lib id (start, []) := by
    refine ⟨kept_of_noSessions hempty, fun _ => rfl, fun s hs => ?_⟩
    exact absurd (fun _ p hp => hempty p (inSessions_of_under hp)) hs.present
  obtain ⟨-, -, hread⟩ := @run_invariant _ _ _ (fun _ move => move.RollsBack)
    (fun w => Kept lib w.1 ∧ Abreast lib id w)
    (fun _ _ _ hw hrolls hstep => watch_preserves hback hid hw hrolls hstep) _ _ _ hrun
    (along_of_forall (fun move hmove _ => hrolls move hmove) _) hstart
  obtain ⟨n, hn, rfl⟩ := hread s hs
  exact ⟨n, hn, rfl, watch_poll hs hn⟩

end Readers

section Samples

/-- The repository after Alice has begun a session with Bob. -/
def begunTree : FileMap := (Call.answer callLibrary sampleScene sampleTree
  (.create (sampleRequest "hello".toList))).2

theorem begunTree_run : run (step callLibrary) sampleTree [beginSession] = some begunTree := rfl

theorem polls_offer_claimable_begun :
    ∃ items, handleListQuickSessions callLibrary begunTree false (some "bob".toList) true none none =
        .ok items ∧ items = [.fromMeta (sampleInfo "hello".toList) false] ∧
      (∀ item ∈ items, ∃ s line, Stores callLibrary begunTree item.id s ∧
        item = .fromMeta s.info false ∧ s.info.lastHumanLine = some line ∧
        (s.info.revision + 1 < u64Bound → ∃ response,
          (handleClaimQuickSessionTurn callLibrary sampleScene begunTree item.id line
            (sampleAttempt '1') "bob".toList).1 = .ok response ∧ response.status = .running)) ∧
      ∀ id s line response, Stores callLibrary begunTree id s →
        s.info.attemptId ≠ some (sampleAttempt '1') →
        (handleClaimQuickSessionTurn callLibrary sampleScene begunTree id line (sampleAttempt '1')
          "bob".toList).1 = .ok response →
        (∃ item ∈ items, item.id = id) ∨ items.length = listLimit none := by
  have hevaluated : (readDir (rootOf false) begunTree).filterMap
        (listed callLibrary begunTree false (some "bob".toList) true none) =
          [.fromMeta (sampleInfo "hello".toList) false] ∧
      (∃ handler, ensureActiveUser begunTree "bob".toList "author".toList = .ok handler) ∧
      validateQuickSessionAttemptId (sampleAttempt '1') = .ok () := by
    refine ⟨by decide +kernel, ⟨⟨"bob".toList, by decide +kernel⟩, by decide +kernel⟩, by decide +kernel⟩
  obtain ⟨hlisted, ⟨handler, huser⟩, hattempt⟩ := hevaluated
  have hlist : handleListQuickSessions callLibrary begunTree false (some "bob".toList) true none none =
      .ok [.fromMeta (sampleInfo "hello".toList) false] := by
    refine then_eq_ok_iff.mpr ⟨by decide +kernel, ?_⟩
    rw [hlisted, List.mergeSort_singleton]
    rfl
  exact ⟨_, hlist, rfl, polls_offer_claimable callLibrary_back sampleTree_noSessions
    beginSession_rollsBack begunTree_run huser rfl rfl hattempt hlist⟩

/-- A poll before the session begins, and one after. -/
def sampleMoves : List Move := [.poll none, .act beginSession, .poll (some 5)]

theorem reader_follows_begun :
    ∃ log s, run (watchStep callLibrary QuickSessionCreate.sampleSession) (sampleTree, []) sampleMoves =
        some (begunTree, log) ∧ log.length = 1 ∧
      Stores callLibrary begunTree QuickSessionCreate.sampleSession s ∧
      ∃ n, n ≤ s.messages.length ∧ log = (s.messages.take n).map .message ∧
        ∀ limit, watchStep callLibrary QuickSessionCreate.sampleSession (begunTree, log) (.poll limit) =
          some (begunTree, (s.messages.take (limit.elim s.messages.length (n + ·))).map .message) := by
  have hrun : run (watchStep callLibrary QuickSessionCreate.sampleSession) (sampleTree, []) sampleMoves =
      some (begunTree, [sampleMessage 1 0 "hello".toList]) := by decide +kernel
  have hkept := run_kept callLibrary_back (kept_of_noSessions sampleTree_noSessions)
    beginSession_rollsBack begunTree_run
  have hrolls : ∀ move ∈ sampleMoves, move.RollsBack := by
    simp only [sampleMoves, List.forall_mem_cons]
    exact ⟨trivial, sampleScene_rollsBack, trivial, List.forall_mem_nil _⟩
  rcases hkept _ sampleSession_valid with habsent | ⟨s, hs⟩
  · have hthread := habsent false _ (under_discussionPath _)
    exact absurd hthread (by decide +kernel)
  · exact ⟨_, s, hrun, rfl, hs,
      reader_follows callLibrary_back sampleTree_noSessions sampleSession_valid hrolls hrun hs⟩

end Samples

end QuickSessionPolls
