import GitIM.ChatMessages
import GitIM.TextScan

/-!
# The poll loop of the browser

A cycle asks for the changes since a cursor, saves the new cursor, walks the changes
and then fetches the lists they make obsolete. Every request may be answered with an
error or throw; what throws ends the cycle. The history of a run lists the changes
received and the cycles in which each list had to be fetched and was fetched.
-/

namespace PollLoop

open TextLines FileTree TextScan Runs ChatMessages

section Model

inductive ChangeKind where
  | newMessages
  | channel
  | channelMeta
  | dmArchived
  | dm
  | board
  | cardMeta
  | cardThread
  | quickSessionMeta
  | quickSessionThread
  deriving DecidableEq

structure PollChange where
  channel : Text
  kind : ChangeKind
  entries : List Message
  deriving DecidableEq

inductive ChannelKind where
  | channel
  | dm
  deriving DecidableEq

structure Channel where
  name : Text
  kind : ChannelKind
  unreadCount : Nat
  hasMention : Bool
  deriving DecidableEq

structure Card where
  channel : Text
  cardId : Text
  title : Text
  deriving DecidableEq

structure Board where
  handler : Text
  body : Text
  deriving DecidableEq

/-- What the browser stores about a conversation. -/
structure ScopeState where
  unreadCount : Nat
  hasMention : Bool
  firstUnreadLine : Option Int
  deriving DecidableEq

structure Store where
  channels : List Channel
  currentChannel : Option Text
  currentUser : Text
  pathname : Text
  messages : List Message
  cards : List Card
  inFlightCardPaths : List Text
  boards : List Board
  selectedHandler : Option Text
  selectedBoard : Option Board
  users : List Text
  scopes : List (Text × ScopeState)

def Store.names (s : Store) : List Text := s.channels.map Channel.name

def apiToDisplay (channel : Text) : Text :=
  match stripPrefix "dm:".toList channel with
  | none => channel
  | some rest =>
    match splitOnce ',' rest with
    | none => rest
    | some (a, b) => a ++ "--".toList ++ b

def isChatRoute (pathname : Text) : Bool :=
  pathname = "/chat".toList ∨ "/chat/".toList <+: pathname

def chatScopeKey (kind : ChannelKind) (name : Text) : Text :=
  match kind with
  | .channel => "channel:".toList ++ name
  | .dm => "dm:".toList ++ name

def chatScopeKeyForName (name : Text) : Text :=
  chatScopeKey (if "--".toList <:+: name then .dm else .channel) name

def isDmChange (c : PollChange) : Bool :=
  c.kind = .dm ∨ c.kind = .dmArchived ∨ "dm:".toList <+: c.channel ∨
    c.kind = .newMessages ∧ "--".toList <:+: apiToDisplay c.channel

def selectedChannelVisible (s : Store) (displayName : Text) : Bool :=
  s.currentChannel = some displayName ∧ isChatRoute s.pathname = true

def othersEntries (me : Text) (c : PollChange) : List Message :=
  c.entries.filter fun e => e.author ≠ me

def mentioned (me : Text) (entries : List Message) : Bool :=
  entries.any fun e => "<@".toList ++ me ++ ">".toList <:+: e.body

def firstUnreadLine (entries : List Message) : Option Int :=
  ((entries.map Message.lineNumber).filter fun line => 0 < line).min?

def incrementUnread (channels : List Channel) (name : Text) (hasMention : Bool) : List Channel :=
  channels.map fun c =>
    if c.name = name then
      { c with
        unreadCount := c.unreadCount + 1
        hasMention := c.hasMention || hasMention }
    else c

/-- A call of `incrementChatScopeUnread`, and the change it is made for. -/
structure Call where
  scope : Text
  change : PollChange
  count : Nat
  hasMention : Bool
  firstUnreadLine : Option Int
  deriving DecidableEq

def incrementChatScopeUnread (scopes : List (Text × ScopeState)) (call : Call) :
    List (Text × ScopeState) :=
  if call.count = 0 then scopes
  else upsert (fun stored =>
    let state := stored.getD ⟨0, false, none⟩
    ⟨state.unreadCount + call.count, state.hasMention || call.hasMention,
      state.firstUnreadLine.or call.firstUnreadLine⟩) call.scope scopes

def mergeChatUnreadIntoChannels (scopes : List (Text × ScopeState)) (channels : List Channel) :
    List Channel :=
  channels.map fun c =>
    match scopes.lookup (chatScopeKey c.kind c.name) with
    | none => c
    | some state =>
      if state.unreadCount = 0 then c
      else { c with
        unreadCount := state.unreadCount
        hasMention := state.hasMention }

def setChannels (channels newChannels : List Channel) : List Channel :=
  newChannels.map fun c =>
    match channels.reverse.find? fun prev => prev.name = c.name with
    | none => c
    | some prev => { c with
      unreadCount := prev.unreadCount
      hasMention := prev.hasMention }

def markDmArchived (channels : List Channel) (name : Text) : List Channel :=
  channels.filter fun c => c.name ≠ name

def markDmUnarchived (channels : List Channel) (name : Text) : List Channel :=
  if name ∈ channels.map Channel.name then channels else channels ++ [⟨name, .dm, 0, false⟩]

def cardPathKey (c : Card) : Text := c.channel ++ '/' :: c.cardId

/-- A card that is being edited stays as it is. -/
def mergeCards (cards : List Card) (inFlight : List Text) (incoming : List Card) : List Card :=
  let known := cards.foldl (fun byKey c => upsert (fun _ => c) (cardPathKey c) byKey) []
  let byKey := incoming.foldl (fun byKey c =>
    if cardPathKey c ∈ inFlight then byKey else upsert (fun _ => c) (cardPathKey c) byKey) known
  (byKey.filter fun e => e.1 ∈ incoming.map cardPathKey ∨ e.1 ∈ inFlight).map Prod.snd

def setBoards (s : Store) (boards : List Board) : Store :=
  let keep := s.selectedHandler.filter fun handler => handler ∈ boards.map Board.handler
  let selected := keep.or (boards.head?.map Board.handler)
  { s with
    boards := boards
    selectedHandler := selected
    selectedBoard := s.selectedBoard.filter fun board => selected = some board.handler }

/-- The lists that a change may make obsolete. -/
inductive Listing where
  | channels
  | cards
  | boards
  deriving DecidableEq

/-- The variables of the walk over the changes. -/
structure Walk where
  store : Store
  needChannelRefresh : Bool
  needArchivedChannelInvalidate : Bool
  needCardRefresh : Bool
  needBoardRefresh : Bool
  quickSessionChanges : List PollChange
  calls : List Call

def Walk.need (w : Walk) : Listing → Bool
  | .channels => w.needChannelRefresh
  | .cards => w.needCardRefresh
  | .boards => w.needBoardRefresh

def callFor (me : Text) (c : PollChange) : Call :=
  let entries := othersEntries me c
  ⟨chatScopeKeyForName (apiToDisplay c.channel), c, entries.length, mentioned me entries,
    firstUnreadLine entries⟩

/-- The last part of the walk at a change of a conversation. -/
def applyEntries (w : Walk) (c : PollChange) : Walk :=
  let s := w.store
  let displayName := apiToDisplay c.channel
  let shown := if s.currentChannel = some displayName ∧ c.entries ≠ [] then
    { s with messages := addMessages s.messages c.entries } else s
  if selectedChannelVisible s displayName = true ∨ othersEntries s.currentUser c = [] then
    { w with store := shown }
  else
    let call := callFor s.currentUser c
    { w with
      store := { shown with
        channels := incrementUnread shown.channels displayName call.hasMention
        scopes := incrementChatScopeUnread shown.scopes call }
      calls := w.calls ++ [call] }

/-- The change of a conversation that is not archived. -/
def applyConversation (w : Walk) (c : PollChange) : Walk :=
  let displayName := apiToDisplay c.channel
  let known := decide (displayName ∈ w.store.names)
  let seeded := if known = false ∧ isDmChange c = true then
    { w with
      store := { w.store with channels := markDmUnarchived w.store.channels displayName }
      needChannelRefresh := true } else w
  if known = false ∨ c.kind = .channelMeta then
    let marked := { seeded with
      needChannelRefresh := true
      needArchivedChannelInvalidate := seeded.needArchivedChannelInvalidate || !isDmChange c
      needCardRefresh := seeded.needCardRefresh || !isDmChange c }
    if known = false ∧ isDmChange c = false then marked else applyEntries marked c
  else applyEntries seeded c

def applyChange (w : Walk) (c : PollChange) : Walk :=
  match c.kind with
  | .quickSessionMeta | .quickSessionThread =>
    { w with quickSessionChanges := w.quickSessionChanges ++ [c] }
  | .board => { w with needBoardRefresh := true }
  | .cardMeta => { w with needCardRefresh := true }
  | .cardThread => w
  | .dmArchived => { w with
    store := { w.store with channels := markDmArchived w.store.channels (apiToDisplay c.channel) }
    needChannelRefresh := true }
  | .newMessages | .channel | .channelMeta | .dm => applyConversation w c

/-- A change as it was received: whether its channel was visible, and to whom. -/
structure Receipt where
  change : PollChange
  visible : Bool
  me : Text
  deriving DecidableEq

/-- The changes received, the calls made, and the last cycle in which a list had to be fetched and
in which the list in the store was fetched. -/
structure History where
  cycle : Nat
  received : List Receipt
  calls : List Call
  due : Listing → Nat
  fetched : Listing → Nat

structure World where
  store : Store
  cursor : Option Text
  history : History

/-- The conversations after a change. -/
def namesAfter (names : List Text) (c : PollChange) : List Text :=
  let displayName := apiToDisplay c.channel
  match c.kind with
  | .dmArchived => names.filter fun name => name ≠ displayName
  | .newMessages | .channel | .channelMeta | .dm =>
    if displayName ∉ names ∧ isDmChange c = true then names ++ [displayName] else names
  | .board | .cardMeta | .cardThread | .quickSessionMeta | .quickSessionThread => names

/-- The lists that a change makes obsolete for a client that knows some conversations. -/
def requires (names : List Text) (c : PollChange) : Listing → Bool
  | .channels =>
    match c.kind with
    | .dmArchived | .channelMeta => true
    | .newMessages | .channel | .dm => apiToDisplay c.channel ∉ names
    | .board | .cardMeta | .cardThread | .quickSessionMeta | .quickSessionThread => false
  | .cards =>
    match c.kind with
    | .cardMeta => true
    | .channelMeta => !isDmChange c
    | .newMessages | .channel | .dm => apiToDisplay c.channel ∉ names ∧ isDmChange c = false
    | .board | .dmArchived | .cardThread | .quickSessionMeta | .quickSessionThread => false
  | .boards => c.kind = .board

def History.receive (h : History) (s : Store) (c : PollChange) : History :=
  { h with
    received := h.received ++
      [⟨c, selectedChannelVisible s (apiToDisplay c.channel), s.currentUser⟩]
    due := fun l => if requires s.names c l then h.cycle else h.due l }

def History.fetch (h : History) (l : Listing) : History :=
  { h with fetched := Function.update h.fetched l h.cycle }

def visit (w : Walk × History) (c : PollChange) : Walk × History :=
  (applyChange w.1 c, w.2.receive w.1.store c)

/-- The end of a request. -/
inductive Reply (α : Type) where
  | thrown
  | failed
  | ok (data : α)

structure PollData where
  commitId : Text
  changes : List PollChange
  needsToken : Bool

inductive PollReply where
  | thrown
  | failed (error : Option Text)
  | ok (data : PollData)

/-- How the requests of a cycle end. -/
structure Env where
  poll : PollReply
  quickSessions : Reply Unit
  channels : Reply (List Channel)
  cards : Reply (List Card)
  boards : Reply (List Board)
  board : Reply Board
  users : Reply (List Text)

def refreshUsers (env : Env) (w : World) : World :=
  match env.users with
  | .thrown | .failed => w
  | .ok users => { w with store := { w.store with users := users } }

def refreshSelectedBoard (env : Env) (w : World) : World :=
  match w.store.selectedHandler with
  | none => refreshUsers env w
  | some _ =>
    match env.board with
    | .thrown => w
    | .failed => refreshUsers env w
    | .ok board => refreshUsers env { w with store := { w.store with
      selectedBoard := some board
      selectedHandler := some board.handler } }

def refreshBoards (env : Env) (walk : Walk) (w : World) : World :=
  if walk.needBoardRefresh then
    match env.boards with
    | .thrown => w
    | .failed => refreshUsers env w
    | .ok boards => refreshSelectedBoard env { w with
      store := setBoards w.store boards
      history := w.history.fetch .boards }
  else refreshUsers env w

def refreshCards (env : Env) (walk : Walk) (w : World) : World :=
  if walk.needCardRefresh then
    match env.cards with
    | .thrown => w
    | .failed => refreshBoards env walk w
    | .ok cards => refreshBoards env walk { w with
      store := { w.store with cards := mergeCards w.store.cards w.store.inFlightCardPaths cards }
      history := w.history.fetch .cards }
  else refreshBoards env walk w

def refreshChannels (env : Env) (walk : Walk) (w : World) : World :=
  if walk.needChannelRefresh then
    match env.channels with
    | .thrown => w
    | .failed => refreshCards env walk w
    | .ok channels =>
      let merged := mergeChatUnreadIntoChannels w.store.scopes channels
      refreshCards env walk { w with
        store := { w.store with channels := setChannels w.store.channels merged }
        history := w.history.fetch .channels }
  else refreshCards env walk w

def refreshQuickSessions (env : Env) (walk : Walk) (w : World) : World :=
  if walk.quickSessionChanges = [] then refreshChannels env walk w
  else
    match env.quickSessions with
    | .thrown => w
    | .failed | .ok _ => refreshChannels env walk w

def startWalk (s : Store) (h : History) : Walk × History :=
  (⟨s, false, false, false, false, [], h.calls⟩, h)

/-- One cycle; `browser` is the mode in which the repository is in the browser itself. -/
def runPoll (browser : Bool) (w : World) (env : Env) : World :=
  let w := { w with history := { w.history with cycle := w.history.cycle + 1 } }
  match env.poll with
  | .thrown => w
  | .failed error => if error.isSome then { w with cursor := none } else w
  | .ok data =>
    if browser = true ∧ data.needsToken = true then
      { w with
        cursor := some data.commitId
        history := data.changes.foldl (fun h c => h.receive w.store c) w.history }
    else
      let walked := data.changes.foldl visit (startWalk w.store w.history)
      refreshQuickSessions env walked.1
        ⟨walked.1.store, some data.commitId, { walked.2 with calls := walked.1.calls }⟩

/-- A cycle, or what the user and the rest of the application do between two cycles. -/
inductive Action where
  | poll (env : Env)
  | other (store : Store)

def step (browser : Bool) (w : World) : Action → Option World
  | .poll env => some (runPoll browser w env)
  | .other store => some { w with store := store }

end Model

section Property

/-- The call that an unseen change of a conversation has to lead to. -/
def expected (r : Receipt) : Option (Text × PollChange × Nat) :=
  if (r.change.kind = .channel ∨ r.change.kind = .dm) ∧ r.visible = false ∧
      othersEntries r.me r.change ≠ [] then
    some (chatScopeKeyForName (apiToDisplay r.change.channel), r.change,
      (othersEntries r.me r.change).length)
  else none

def counted (call : Call) : Option (Text × PollChange × Nat) :=
  if call.change.kind = .channel ∨ call.change.kind = .dm then
    some (call.scope, call.change, call.count)
  else none

/-- Every unseen entry is counted once, and every list was fetched after it had to be. -/
structure CaughtUp (w : World) : Prop where
  once : w.history.calls.filterMap counted = w.history.received.filterMap expected
  fresh : ∀ l, w.history.due l ≤ w.history.fetched l

def Reply.isOk {α : Type} : Reply α → Bool
  | .ok _ => true
  | .thrown | .failed => false

def Reply.returns {α : Type} : Reply α → Bool
  | .thrown => false
  | .failed | .ok _ => true

/-- Every request of the cycle succeeds. -/
def Env.succeeds (env : Env) : Bool :=
  (match env.poll with
    | .ok _ => true
    | .thrown | .failed _ => false) && env.quickSessions.isOk && env.channels.isOk &&
    env.cards.isOk && env.boards.isOk && env.board.isOk && env.users.isOk

/-- At the end of a cycle that succeeds nothing is missing. -/
def SkipsNothing (browser : Bool) (w : World) : Action → Prop
  | .poll env => env.succeeds = true → CaughtUp (runPoll browser w env)
  | .other _ => True

/-- A message of others in a channel that the client does not know and does not show. -/
def Unheard (s : Store) (names : List Text) (c : PollChange) : Prop :=
  c.kind = .channel ∧ isDmChange c = false ∧ apiToDisplay c.channel ∉ names ∧
    selectedChannelVisible s (apiToDisplay c.channel) = false ∧ othersEntries s.currentUser c ≠ []

def AllHeard (s : Store) : List Text → List PollChange → Prop
  | _, [] => True
  | names, c :: rest => ¬ Unheard s names c ∧ AllHeard s (namesAfter names c) rest

def requiresAny : List Text → List PollChange → Listing → Bool
  | _, [], _ => false
  | names, c :: rest, l => requires names c l || requiresAny (namesAfter names c) rest l

def isQuickSessionChange (c : PollChange) : Bool :=
  c.kind = .quickSessionMeta ∨ c.kind = .quickSessionThread

/-- The requests for the lists that the changes require are reached and succeed. -/
def Answered (names : List Text) (changes : List PollChange) (env : Env) : Prop :=
  let quick := (changes.any isQuickSessionChange = true → env.quickSessions.returns = true)
  let channels := (requiresAny names changes .channels = true → env.channels.returns = true)
  let cards := (requiresAny names changes .cards = true → env.cards.returns = true)
  (requiresAny names changes .channels = true → quick ∧ env.channels.isOk = true) ∧
    (requiresAny names changes .cards = true → quick ∧ channels ∧ env.cards.isOk = true) ∧
    (requiresAny names changes .boards = true → quick ∧ channels ∧ cards ∧ env.boards.isOk = true)

/-- The condition on a cycle. -/
def Attentive (browser : Bool) (w : World) : Action → Prop
  | .poll env => ∀ data, env.poll = .ok data →
      (browser = true ∧ data.needsToken = true → data.changes = []) ∧
      (¬(browser = true ∧ data.needsToken = true) →
        AllHeard w.store w.store.names data.changes ∧ Answered w.store.names data.changes env)
  | .other _ => True

end Property

section Walks
variable {w : Walk} {c : PollChange}

/-- What the user looks at. -/
def SameView (s t : Store) : Prop :=
  t.currentChannel = s.currentChannel ∧ t.currentUser = s.currentUser ∧ t.pathname = s.pathname

def receipt (s : Store) (c : PollChange) : Receipt :=
  ⟨c, selectedChannelVisible s (apiToDisplay c.channel), s.currentUser⟩

theorem selectedChannelVisible_congr {s t : Store} (h : SameView s t) (name : Text) :
    selectedChannelVisible t name = selectedChannelVisible s name := by
  rw [selectedChannelVisible, selectedChannelVisible, h.1, h.2.2]

theorem receipt_congr {s t : Store} (h : SameView s t) (c : PollChange) :
    receipt t c = receipt s c := by
  rw [receipt, receipt, selectedChannelVisible_congr h, h.2.1]

theorem names_incrementUnread (channels : List Channel) (name : Text) (hasMention : Bool) :
    (incrementUnread channels name hasMention).map Channel.name = channels.map Channel.name := by
  rw [incrementUnread, List.map_map]
  apply List.map_congr_left
  intro c _
  rw [Function.comp_apply]
  split <;> rfl

/-- What the walk does with the entries of a change. -/
structure Entered (w : Walk) (c : PollChange) (w' : Walk) : Prop where
  names : w'.store.names = w.store.names
  view : SameView w.store w'.store
  need : w'.need = w.need
  quick : w'.quickSessionChanges = w.quickSessionChanges
  calls : c.kind = .channel ∨ c.kind = .dm →
    w'.calls.filterMap counted = w.calls.filterMap counted ++ (expected (receipt w.store c)).toList
  others : ¬(c.kind = .channel ∨ c.kind = .dm) →
    w'.calls.filterMap counted = w.calls.filterMap counted

theorem applyEntries_entered (w : Walk) (c : PollChange) : Entered w c (applyEntries w c) := by
  rw [applyEntries]
  dsimp only
  generalize hshown : (if w.store.currentChannel = some (apiToDisplay c.channel) ∧ c.entries ≠ [] then
    { w.store with messages := addMessages w.store.messages c.entries } else w.store) = shown
  have hnames : shown.names = w.store.names := by
    rw [← hshown]
    split <;> rfl
  have hview : SameView w.store shown := by
    rw [← hshown]
    split <;> exact ⟨rfl, rfl, rfl⟩
  split
  · rename_i hseen
    refine ⟨hnames, hview, rfl, rfl, fun _ => ?_, fun _ => rfl⟩
    have hnone : expected (receipt w.store c) = none := by
      rw [expected, if_neg]
      rintro ⟨-, hhidden, hothers⟩
      rcases hseen with hvisible | hempty
      · exact Bool.false_ne_true (hhidden.symm.trans hvisible)
      · exact hothers hempty
    rw [hnone, Option.toList_none, List.append_nil]
  · rename_i hseen
    rw [not_or, Bool.not_eq_true] at hseen
    refine ⟨?_, hview, rfl, rfl, fun hkind => ?_, fun hkind => ?_⟩
    · exact (names_incrementUnread _ _ _).trans hnames
    · have hsome : expected (receipt w.store c) = counted (callFor w.store.currentUser c) :=
        (if_pos ⟨hkind, hseen⟩).trans (if_pos hkind).symm
      rw [List.filterMap_append, hsome, List.filterMap_cons, List.filterMap_nil]
      cases counted (callFor w.store.currentUser c) <;> rfl
    · have hnone : counted (callFor w.store.currentUser c) = none := if_neg hkind
      rw [List.filterMap_append, List.filterMap_cons, hnone, List.filterMap_nil, List.append_nil]

/-- What the walk does with a change. -/
structure Applied (w : Walk) (c : PollChange) (w' : Walk) : Prop where
  names : w'.store.names = namesAfter w.store.names c
  view : SameView w.store w'.store
  need : ∀ l, w'.need l = (w.need l || requires w.store.names c l)
  quick : w'.quickSessionChanges =
    w.quickSessionChanges ++ if isQuickSessionChange c then [c] else []
  calls : ¬ Unheard w.store w.store.names c →
    w'.calls.filterMap counted = w.calls.filterMap counted ++ (expected (receipt w.store c)).toList

theorem expected_eq_none {r : Receipt} (h : ¬(r.change.kind = .channel ∨ r.change.kind = .dm)) :
    expected r = none := by
  rw [expected, if_neg fun hboth => h hboth.1]

/-- The kinds of changes that belong to a conversation. -/
def Conversation (c : PollChange) : Prop :=
  c.kind = .newMessages ∨ c.kind = .channel ∨ c.kind = .channelMeta ∨ c.kind = .dm

theorem namesAfter_conversation (h : Conversation c) (names : List Text) :
    namesAfter names c = if apiToDisplay c.channel ∉ names ∧ isDmChange c = true then
      names ++ [apiToDisplay c.channel] else names := by
  rcases h with hk | hk | hk | hk <;> rw [namesAfter, hk]

theorem requires_channels (h : Conversation c) (names : List Text) :
    requires names c .channels =
      decide (apiToDisplay c.channel ∉ names ∨ c.kind = .channelMeta) := by
  rcases h with hk | hk | hk | hk <;> simp [requires, hk]

theorem requires_cards (h : Conversation c) (names : List Text) :
    requires names c .cards =
      decide ((apiToDisplay c.channel ∉ names ∨ c.kind = .channelMeta) ∧ isDmChange c = false) := by
  rcases h with hk | hk | hk | hk <;> simp [requires, hk]

theorem requires_boards (h : Conversation c) (names : List Text) :
    requires names c .boards = false := by
  rcases h with hk | hk | hk | hk <;> simp [requires, hk]

theorem Conversation.not_quick (h : Conversation c) : isQuickSessionChange c = false := by
  rcases h with hk | hk | hk | hk <;> simp [isQuickSessionChange, hk]

/-- A walk that goes on to the entries of a change, from another with the same view. -/
theorem Entered.applied {w' v : Walk} (h : Entered v c w') (hc : Conversation c)
    (hnames : v.store.names = namesAfter w.store.names c) (hview : SameView w.store v.store)
    (hneed : ∀ l, v.need l = (w.need l || requires w.store.names c l))
    (hquick : v.quickSessionChanges = w.quickSessionChanges) (hcalls : v.calls = w.calls) :
    Applied w c w' := by
  refine ⟨h.names.trans hnames, ?_, fun l => ?_, ?_, fun _ => ?_⟩
  · exact ⟨h.view.1.trans hview.1, h.view.2.1.trans hview.2.1, h.view.2.2.trans hview.2.2⟩
  · rw [h.need]
    exact hneed l
  · rw [h.quick, hquick, hc.not_quick]
    exact (List.append_nil _).symm
  · by_cases hkind : c.kind = .channel ∨ c.kind = .dm
    · rw [h.calls hkind, hcalls, receipt_congr hview]
    · rw [h.others hkind, hcalls, expected_eq_none (r := receipt w.store c) hkind]
      exact (List.append_nil _).symm

theorem applyConversation_applied (hc : Conversation c) : Applied w c (applyConversation w c) := by
  have hafter := namesAfter_conversation hc w.store.names
  have hchannels := requires_channels hc w.store.names
  have hcards := requires_cards hc w.store.names
  have hboards := requires_boards hc w.store.names
  rw [applyConversation]
  by_cases hknown : apiToDisplay c.channel ∈ w.store.names
  · rw [if_neg (fun hboth => hboth.1 hknown)] at hafter
    simp only [hknown, decide_true, Bool.true_eq_false, false_and, if_false, false_or]
    simp only [hknown, not_true, false_or] at hchannels hcards
    split
    · rename_i hmeta
      refine (applyEntries_entered _ c).applied hc hafter.symm ⟨rfl, rfl, rfl⟩ (fun l => ?_) rfl rfl
      cases l with
      | channels => simp [Walk.need, hchannels, hmeta]
      | cards => simp [Walk.need, hcards, hmeta]
      | boards => simp [Walk.need, hboards]
    · rename_i hmeta
      refine (applyEntries_entered _ c).applied hc hafter.symm ⟨rfl, rfl, rfl⟩ (fun l => ?_) rfl rfl
      cases l with
      | channels => simp [Walk.need, hchannels, hmeta]
      | cards => simp [Walk.need, hcards, hmeta]
      | boards => simp [Walk.need, hboards]
  · simp only [hknown, decide_false, true_and, true_or, if_true]
    simp only [hknown, not_false_iff, true_or, true_and, decide_true] at hchannels hcards
    cases hdm : isDmChange c with
    | true =>
      simp only [if_true, Bool.true_eq_false, if_false, Bool.not_true, Bool.or_false]
      rw [if_pos ⟨hknown, hdm⟩] at hafter
      refine (applyEntries_entered _ c).applied hc ?_ ⟨rfl, rfl, rfl⟩ (fun l => ?_) rfl rfl
      · have hmissing : apiToDisplay c.channel ∉ w.store.channels.map Channel.name := hknown
        rw [hafter, Store.names]
        dsimp only
        rw [markDmUnarchived, if_neg hmissing, List.map_append]
        rfl
      · cases l with
        | channels => simp [Walk.need, hchannels]
        | cards => simp [Walk.need, hcards, hdm]
        | boards => simp [Walk.need, hboards]
    | false =>
      simp only [Bool.false_eq_true, if_false, if_true, Bool.not_false, Bool.or_true]
      rw [if_neg (fun hboth => Bool.false_ne_true (hdm.symm.trans hboth.2))] at hafter
      refine ⟨hafter.symm, ⟨rfl, rfl, rfl⟩, fun l => ?_, ?_, fun hheard => ?_⟩
      · cases l with
        | channels => simp [Walk.need, hchannels]
        | cards => simp [Walk.need, hcards, hdm]
        | boards => simp [Walk.need, hboards]
      · rw [hc.not_quick]
        exact (List.append_nil _).symm
      · -- The entries are passed over, so that nobody else may have written any unseen.
        have hnone : expected (receipt w.store c) = none := by
          rw [expected, if_neg]
          rintro ⟨hkind | hkind, hhidden, hothers⟩
          · exact hheard ⟨hkind, hdm, hknown, hhidden, hothers⟩
          · have hkind : c.kind = .dm := hkind
            rw [isDmChange, hkind] at hdm
            exact absurd hdm (by simp)
        rw [hnone]
        exact (List.append_nil _).symm

theorem applyChange_applied (w : Walk) (c : PollChange) : Applied w c (applyChange w c) := by
  have hnone : ∀ {kind}, c.kind = kind → kind ≠ .channel → kind ≠ .dm →
      ∀ calls : List (Text × PollChange × Nat),
        calls = calls ++ (expected (receipt w.store c)).toList := by
    intro kind hkind hchannel hdm calls
    have hno : ¬((receipt w.store c).change.kind = .channel ∨ (receipt w.store c).change.kind = .dm) := by
      rintro (h | h)
      · exact hchannel (hkind.symm.trans h)
      · exact hdm (hkind.symm.trans h)
    rw [expected_eq_none hno]
    exact (List.append_nil _).symm
  rw [applyChange]
  cases hk : c.kind with
  | newMessages => exact applyConversation_applied (.inl hk)
  | channel => exact applyConversation_applied (.inr (.inl hk))
  | channelMeta => exact applyConversation_applied (.inr (.inr (.inl hk)))
  | dm => exact applyConversation_applied (.inr (.inr (.inr hk)))
  | dmArchived =>
    refine ⟨?_, ⟨rfl, rfl, rfl⟩, fun l => ?_, ?_, fun _ => hnone hk (by decide) (by decide) _⟩
    · simp only [namesAfter, hk, Store.names, markDmArchived]
      rw [List.filter_map]
      rfl
    · cases l <;> simp [Walk.need, requires, hk]
    · simp [isQuickSessionChange, hk]
  | board | cardMeta | cardThread | quickSessionMeta | quickSessionThread =>
    refine ⟨by rw [namesAfter, hk], ⟨rfl, rfl, rfl⟩, fun l => ?_, ?_,
      fun _ => hnone hk (by decide) (by decide) _⟩
    · cases l <;> simp [Walk.need, requires, hk]
    · simp [isQuickSessionChange, hk]

theorem requiresAny_need (changes : List PollChange) (w : Walk × History) (l : Listing) :
    (changes.foldl visit w).1.need l =
      (w.1.need l || requiresAny w.1.store.names changes l) := by
  induction changes generalizing w with
  | nil => exact (Bool.or_false _).symm
  | cons c rest ih =>
    have happlied := applyChange_applied w.1 c
    rw [List.foldl_cons, ih, requiresAny, visit]
    dsimp only
    rw [happlied.need, happlied.names, Bool.or_assoc]

theorem quickSessionChanges_foldl (changes : List PollChange) (w : Walk × History) :
    (changes.foldl visit w).1.quickSessionChanges =
      w.1.quickSessionChanges ++ changes.filter isQuickSessionChange := by
  induction changes generalizing w with
  | nil => exact (List.append_nil _).symm
  | cons c rest ih =>
    have happlied := applyChange_applied w.1 c
    rw [List.foldl_cons, ih, visit]
    dsimp only
    rw [happlied.quick, List.append_assoc, List.filter_cons]
    cases isQuickSessionChange c <;> rfl

/-- The walk in the middle of a cycle that began with `fetched`. -/
structure Walking (cycle : Nat) (fetched : Listing → Nat) (w : Walk × History) : Prop where
  once : w.1.calls.filterMap counted = w.2.received.filterMap expected
  due : ∀ l, w.2.due l ≤ fetched l ∨ w.1.need l = true
  past : ∀ l, w.2.due l ≤ cycle
  cycle : w.2.cycle = cycle
  fetched : w.2.fetched = fetched

theorem Walking.visit {cycle : Nat} {fetched : Listing → Nat} {w : Walk × History}
    (h : Walking cycle fetched w) (hheard : ¬ Unheard w.1.store w.1.store.names c) :
    Walking cycle fetched (visit w c) := by
  have happlied := applyChange_applied w.1 c
  refine ⟨?_, fun l => ?_, fun l => ?_, h.cycle, h.fetched⟩
  · change (applyChange w.1 c).calls.filterMap counted =
      (w.2.received ++ [receipt w.1.store c]).filterMap expected
    rw [happlied.calls hheard, h.once, List.filterMap_append, List.filterMap_cons,
      List.filterMap_nil]
    cases expected (receipt w.1.store c) <;> rfl
  · change (if requires w.1.store.names c l then w.2.cycle else w.2.due l) ≤ fetched l ∨
      (applyChange w.1 c).need l = true
    rw [happlied.need]
    cases hrequires : requires w.1.store.names c l with
    | true => exact .inr (Bool.or_true _)
    | false =>
      rw [Bool.or_false]
      exact h.due l
  · change (if requires w.1.store.names c l then w.2.cycle else w.2.due l) ≤ cycle
    split
    · exact Nat.le_of_eq h.cycle
    · exact h.past l

theorem allHeard_congr {s t : Store} (h : SameView s t) {names : List Text}
    {changes : List PollChange} (hheard : AllHeard s names changes) : AllHeard t names changes := by
  induction changes generalizing names with
  | nil => trivial
  | cons c rest ih =>
    refine ⟨?_, ih hheard.2⟩
    rintro ⟨hkind, hdm, hnames, hhidden, hothers⟩
    rw [selectedChannelVisible_congr h] at hhidden
    rw [h.2.1] at hothers
    exact hheard.1 ⟨hkind, hdm, hnames, hhidden, hothers⟩

theorem Walking.foldl {cycle : Nat} {fetched : Listing → Nat} {changes : List PollChange}
    {w : Walk × History} (h : Walking cycle fetched w)
    (hheard : AllHeard w.1.store w.1.store.names changes) :
    Walking cycle fetched (changes.foldl PollLoop.visit w) := by
  induction changes generalizing w with
  | nil => exact h
  | cons c rest ih =>
    have happlied := applyChange_applied w.1 c
    refine ih (h.visit hheard.1) ?_
    change AllHeard (applyChange w.1 c).store (applyChange w.1 c).store.names rest
    rw [happlied.names]
    exact allHeard_congr happlied.view hheard.2

end Walks

section Cycles
variable {env : Env} {walk : Walk} {w : World}

theorem History.fetched_fetch_self (h : History) (l : Listing) :
    (h.fetch l).fetched l = h.cycle := by
  simp [History.fetch]

theorem History.fetched_fetch_of_ne (h : History) {l m : Listing} (hm : m ≠ l) :
    (h.fetch l).fetched m = h.fetched m := by
  simp [History.fetch, hm]

/-- What the requests of a cycle may change in its history. -/
structure Fetches (w w' : World) (fetches : Listing → Prop) : Prop where
  received : w'.history.received = w.history.received
  calls : w'.history.calls = w.history.calls
  due : w'.history.due = w.history.due
  cycle : w'.history.cycle = w.history.cycle
  fetched : ∀ l, w'.history.fetched l = w.history.fetched l ∨
    w'.history.fetched l = w.history.cycle
  reached : ∀ l, fetches l → w'.history.fetched l = w.history.cycle

theorem Fetches.of_history {w' : World} (h : w'.history = w.history) :
    Fetches w w' fun _ => False := by
  refine ⟨?_, ?_, ?_, ?_, fun l => ?_, fun _ hfalse => hfalse.elim⟩
  · rw [h]
  · rw [h]
  · rw [h]
  · rw [h]
  · rw [h]
    exact .inl rfl

theorem Fetches.mono {w' : World} {fetches fetches' : Listing → Prop} (h : Fetches w w' fetches)
    (himp : ∀ l, fetches' l → fetches l) : Fetches w w' fetches' :=
  ⟨h.received, h.calls, h.due, h.cycle, h.fetched, fun l hl => h.reached l (himp l hl)⟩

/-- A list that is fetched first, and then what follows. -/
theorem Fetches.after {v w' : World} {l : Listing} {fetches : Listing → Prop}
    (h : Fetches v w' fetches) (hv : v.history = w.history.fetch l) :
    Fetches w w' fun m => m = l ∨ fetches m := by
  have hcycle : v.history.cycle = w.history.cycle := by rw [hv]; rfl
  have hold : ∀ m, v.history.fetched m = w.history.fetched m ∨
      v.history.fetched m = w.history.cycle := by
    intro m
    rw [hv]
    by_cases hm : m = l
    · subst hm
      exact .inr (w.history.fetched_fetch_self m)
    · exact .inl (w.history.fetched_fetch_of_ne hm)
  refine ⟨?_, ?_, ?_, h.cycle.trans hcycle, fun m => ?_, fun m hm => ?_⟩
  · rw [h.received, hv]
    rfl
  · rw [h.calls, hv]
    rfl
  · rw [h.due, hv]
    rfl
  · rcases h.fetched m with heq | heq
    · rw [heq]
      exact hold m
    · exact .inr (heq.trans hcycle)
  · rcases hm with rfl | hm
    · rcases h.fetched m with heq | heq
      · rw [heq, hv]
        exact w.history.fetched_fetch_self m
      · exact heq.trans hcycle
    · exact (h.reached m hm).trans hcycle

theorem refreshUsers_history (env : Env) (w : World) : (refreshUsers env w).history = w.history := by
  rw [refreshUsers]
  split <;> rfl

theorem refreshSelectedBoard_history (env : Env) (w : World) :
    (refreshSelectedBoard env w).history = w.history := by
  rw [refreshSelectedBoard]
  split
  · exact refreshUsers_history env w
  · split
    · rfl
    · exact refreshUsers_history env w
    · exact refreshUsers_history env _

/-- The lists that are fetched from the boards on, and so on back to the first request. -/
def boardsOn (env : Env) (walk : Walk) (l : Listing) : Prop :=
  l = .boards ∧ walk.needBoardRefresh = true ∧ env.boards.isOk = true

def cardsOn (env : Env) (walk : Walk) (l : Listing) : Prop :=
  l = .cards ∧ walk.needCardRefresh = true ∧ env.cards.isOk = true ∨
    (walk.needCardRefresh = true → env.cards.returns = true) ∧ boardsOn env walk l

def channelsOn (env : Env) (walk : Walk) (l : Listing) : Prop :=
  l = .channels ∧ walk.needChannelRefresh = true ∧ env.channels.isOk = true ∨
    (walk.needChannelRefresh = true → env.channels.returns = true) ∧ cardsOn env walk l

def quickSessionsOn (env : Env) (walk : Walk) (l : Listing) : Prop :=
  (walk.quickSessionChanges ≠ [] → env.quickSessions.returns = true) ∧ channelsOn env walk l

theorem refreshBoards_fetches (env : Env) (walk : Walk) (w : World) :
    Fetches w (refreshBoards env walk w) (boardsOn env walk) := by
  rw [refreshBoards]
  split
  · cases hreply : env.boards with
    | thrown =>
      refine (Fetches.of_history rfl).mono fun _ h => ?_
      have hok := h.2.2
      rw [hreply] at hok
      cases hok
    | failed =>
      refine (Fetches.of_history (refreshUsers_history env w)).mono fun _ h => ?_
      have hok := h.2.2
      rw [hreply] at hok
      cases hok
    | ok boards =>
      have hafter := Fetches.of_history (refreshSelectedBoard_history env { w with
        store := setBoards w.store boards
        history := w.history.fetch .boards })
      exact (hafter.after (w := w) rfl).mono fun _ h => .inl h.1
  · rename_i hneed
    exact (Fetches.of_history (refreshUsers_history env w)).mono fun _ h => hneed h.2.1

theorem refreshCards_fetches (env : Env) (walk : Walk) (w : World) :
    Fetches w (refreshCards env walk w) (cardsOn env walk) := by
  rw [refreshCards]
  split
  · rename_i hneed
    split
    · rename_i hreply
      refine (Fetches.of_history rfl).mono fun _ h => ?_
      rcases h with ⟨-, -, hok⟩ | ⟨hreturns, -⟩
      · rw [hreply] at hok
        cases hok
      · have hno := hreturns hneed
        rw [hreply] at hno
        cases hno
    · rename_i hreply
      refine (refreshBoards_fetches env walk w).mono fun l h => ?_
      rcases h with ⟨-, -, hok⟩ | h
      · rw [hreply] at hok
        cases hok
      · exact h.2
    · refine ((refreshBoards_fetches env walk _).after (w := w) rfl).mono fun l h => ?_
      rcases h with h | h
      · exact .inl h.1
      · exact .inr h.2
  · rename_i hneed
    refine (refreshBoards_fetches env walk w).mono fun l h => ?_
    rcases h with h | h
    · exact absurd h.2.1 hneed
    · exact h.2

theorem refreshChannels_fetches (env : Env) (walk : Walk) (w : World) :
    Fetches w (refreshChannels env walk w) (channelsOn env walk) := by
  rw [refreshChannels]
  split
  · rename_i hneed
    split
    · rename_i hreply
      refine (Fetches.of_history rfl).mono fun _ h => ?_
      rcases h with ⟨-, -, hok⟩ | ⟨hreturns, -⟩
      · rw [hreply] at hok
        cases hok
      · have hno := hreturns hneed
        rw [hreply] at hno
        cases hno
    · rename_i hreply
      refine (refreshCards_fetches env walk w).mono fun l h => ?_
      rcases h with ⟨-, -, hok⟩ | h
      · rw [hreply] at hok
        cases hok
      · exact h.2
    · refine ((refreshCards_fetches env walk _).after (w := w) rfl).mono fun l h => ?_
      rcases h with h | h
      · exact .inl h.1
      · exact .inr h.2
  · rename_i hneed
    refine (refreshCards_fetches env walk w).mono fun l h => ?_
    rcases h with h | h
    · exact absurd h.2.1 hneed
    · exact h.2

theorem refreshQuickSessions_fetches (env : Env) (walk : Walk) (w : World) :
    Fetches w (refreshQuickSessions env walk w) (quickSessionsOn env walk) := by
  rw [refreshQuickSessions]
  split
  · exact (refreshChannels_fetches env walk w).mono fun _ h => h.2
  · rename_i hquick
    split
    · rename_i hreply
      refine (Fetches.of_history rfl).mono fun _ h => ?_
      have hno := h.1 hquick
      rw [hreply] at hno
      cases hno
    · exact (refreshChannels_fetches env walk w).mono fun _ h => h.2
    · exact (refreshChannels_fetches env walk w).mono fun _ h => h.2

/-- What holds between two cycles. -/
structure Inv (w : World) : Prop where
  caughtUp : CaughtUp w
  past : ∀ l, w.history.due l ≤ w.history.cycle

/-- An attentive cycle. -/
theorem runPoll_inv {browser : Bool} (hinv : Inv w) (hattentive : Attentive browser w (.poll env)) :
    Inv (runPoll browser w env) := by
  obtain ⟨⟨honce, hfresh⟩, hpast⟩ := hinv
  have hnext : ∀ l, w.history.due l ≤ w.history.cycle + 1 := fun l => Nat.le_succ_of_le (hpast l)
  rw [runPoll]
  dsimp only
  split
  · exact ⟨⟨honce, hfresh⟩, hnext⟩
  · split
    · exact ⟨⟨honce, hfresh⟩, hnext⟩
    · exact ⟨⟨honce, hfresh⟩, hnext⟩
  rename_i data hpoll
  obtain ⟨hempty, hwalk⟩ := hattentive data hpoll
  split
  · rename_i htoken
    rw [hempty htoken]
    exact ⟨⟨honce, hfresh⟩, hnext⟩
  rename_i htoken
  obtain ⟨hheard, hchannels, hcards, hboards⟩ := hwalk htoken
  have hstart : Walking (w.history.cycle + 1) w.history.fetched
      (startWalk w.store { w.history with cycle := w.history.cycle + 1 }) :=
    ⟨honce, fun l => .inl (hfresh l), hnext, rfl, rfl⟩
  have hwalked := hstart.foldl hheard
  have hneed := requiresAny_need data.changes
    (startWalk w.store { w.history with cycle := w.history.cycle + 1 })
  have hquick := quickSessionChanges_foldl data.changes
    (startWalk w.store { w.history with cycle := w.history.cycle + 1 })
  generalize data.changes.foldl visit
    (startWalk w.store { w.history with cycle := w.history.cycle + 1 }) = walked at *
  have hend := refreshQuickSessions_fetches env walked.1
    ⟨walked.1.store, some data.commitId, { walked.2 with calls := walked.1.calls }⟩
  have hrequired : ∀ l, walked.1.need l = requiresAny w.store.names data.changes l :=
    fun l => (hneed l).trans (by cases l <;> rfl)
  have hquickNeeded : walked.1.quickSessionChanges ≠ [] →
      data.changes.any isQuickSessionChange = true := by
    intro hne
    rw [hquick] at hne
    obtain ⟨c, hc⟩ := List.exists_mem_of_ne_nil _ hne
    obtain ⟨hmem, hkind⟩ := List.mem_filter.mp hc
    exact List.any_eq_true.mpr ⟨c, hmem, hkind⟩
  have hreached : ∀ l, walked.1.need l = true → quickSessionsOn env walked.1 l := by
    intro l hl
    have hchannelNeed : walked.1.needChannelRefresh =
      requiresAny w.store.names data.changes .channels := hrequired .channels
    have hcardNeed : walked.1.needCardRefresh =
      requiresAny w.store.names data.changes .cards := hrequired .cards
    rw [quickSessionsOn, channelsOn, cardsOn, hchannelNeed, hcardNeed]
    rw [hrequired] at hl
    cases l with
    | channels =>
      obtain ⟨hq, hok⟩ := hchannels hl
      exact ⟨fun hne => hq (hquickNeeded hne), .inl ⟨rfl, hl, hok⟩⟩
    | cards =>
      obtain ⟨hq, hreturns, hok⟩ := hcards hl
      exact ⟨fun hne => hq (hquickNeeded hne), .inr ⟨hreturns, .inl ⟨rfl, hl, hok⟩⟩⟩
    | boards =>
      obtain ⟨hq, hreturns, hreturns', hok⟩ := hboards hl
      have hboardNeed := (hrequired .boards).trans hl
      exact ⟨fun hne => hq (hquickNeeded hne),
        .inr ⟨hreturns, .inr ⟨hreturns', rfl, hboardNeed, hok⟩⟩⟩
  refine ⟨⟨?_, fun l => ?_⟩, fun l => ?_⟩
  · rw [hend.calls, hend.received]
    exact hwalked.once
  · rw [hend.due]
    have hcycle : walked.2.due l ≤ walked.2.cycle := hwalked.cycle ▸ hwalked.past l
    rcases hwalked.due l with hold | hneeded
    · rcases hend.fetched l with heq | heq
      · rw [heq]
        exact hwalked.fetched ▸ hold
      · rw [heq]
        exact hcycle
    · rw [hend.reached l (hreached l hneeded)]
      exact hcycle
  · rw [hend.due, hend.cycle]
    exact hwalked.cycle ▸ hwalked.past l

end Cycles

section Counting
variable {w : Walk} {c : PollChange}

def unread (scopes : List (Text × ScopeState)) (scope : Text) : Nat :=
  ((scopes.lookup scope).map ScopeState.unreadCount).getD 0

theorem unread_incrementChatScopeUnread (scopes : List (Text × ScopeState)) (call : Call)
    (scope : Text) : unread (incrementChatScopeUnread scopes call) scope =
      unread scopes scope + if scope = call.scope then call.count else 0 := by
  rw [incrementChatScopeUnread]
  split
  · rename_i hzero
    rw [hzero, ite_self, Nat.add_zero]
  · rw [unread, lookup_upsert]
    split
    · rename_i hscope
      subst hscope
      rw [unread]
      cases scopes.lookup call.scope <;> rfl
    · rfl

/-- The unread counts after some calls. -/
theorem unread_foldl (scopes : List (Text × ScopeState)) (calls : List Call) (scope : Text) :
    unread (calls.foldl incrementChatScopeUnread scopes) scope =
      unread scopes scope + ((calls.filter fun call => scope = call.scope).map Call.count).sum := by
  induction calls generalizing scopes with
  | nil => rfl
  | cons call rest ih =>
    rw [List.foldl_cons, ih, unread_incrementChatScopeUnread, List.filter_cons]
    by_cases hscope : scope = call.scope
    · rw [if_pos hscope, if_pos (decide_eq_true hscope), List.map_cons, List.sum_cons,
        Nat.add_assoc]
    · rw [if_neg hscope, if_neg (by rw [decide_eq_true_eq]; exact hscope), Nat.add_zero]

/-- The calls made on the way, and the stored counts they lead to. -/
def Stored (w w' : Walk) : Prop :=
  ∃ calls, w'.calls = w.calls ++ calls ∧
    w'.store.scopes = calls.foldl incrementChatScopeUnread w.store.scopes

theorem Stored.of_eq {w' : Walk} (hcalls : w'.calls = w.calls)
    (hscopes : w'.store.scopes = w.store.scopes) : Stored w w' :=
  ⟨[], by rw [hcalls, List.append_nil], hscopes⟩

theorem Stored.trans {v w' : Walk} (h : Stored w v) (h' : Stored v w') : Stored w w' := by
  obtain ⟨calls, hcalls, hscopes⟩ := h
  obtain ⟨calls', hcalls', hscopes'⟩ := h'
  refine ⟨calls ++ calls', ?_, ?_⟩
  · rw [hcalls', hcalls, List.append_assoc]
  · rw [hscopes', hscopes, List.foldl_append]

theorem applyEntries_stored (w : Walk) (c : PollChange) : Stored w (applyEntries w c) := by
  rw [applyEntries]
  dsimp only
  generalize hshown : (if w.store.currentChannel = some (apiToDisplay c.channel) ∧ c.entries ≠ [] then
    { w.store with messages := addMessages w.store.messages c.entries } else w.store) = shown
  have hscopes : shown.scopes = w.store.scopes := by
    rw [← hshown]
    split <;> rfl
  split
  · exact Stored.of_eq rfl hscopes
  · refine ⟨[callFor w.store.currentUser c], rfl, ?_⟩
    rw [← hscopes]
    rfl

theorem applyConversation_stored (w : Walk) (c : PollChange) :
    Stored w (applyConversation w c) := by
  rw [applyConversation]
  dsimp only
  generalize hseeded : (if decide (apiToDisplay c.channel ∈ w.store.names) = false ∧
      isDmChange c = true then
    { w with
      store := { w.store with
        channels := markDmUnarchived w.store.channels (apiToDisplay c.channel) }
      needChannelRefresh := true } else w) = seeded
  have hstored : Stored w seeded := by
    rw [← hseeded]
    split <;> exact Stored.of_eq rfl rfl
  split
  · split
    · exact hstored.trans (Stored.of_eq rfl rfl)
    · exact (hstored.trans (Stored.of_eq rfl rfl)).trans (applyEntries_stored _ c)
  · exact hstored.trans (applyEntries_stored _ c)

theorem applyChange_stored (w : Walk) (c : PollChange) : Stored w (applyChange w c) := by
  rw [applyChange]
  split
  · exact Stored.of_eq rfl rfl
  · exact Stored.of_eq rfl rfl
  · exact Stored.of_eq rfl rfl
  · exact Stored.of_eq rfl rfl
  · exact Stored.of_eq rfl rfl
  · exact Stored.of_eq rfl rfl
  all_goals exact applyConversation_stored w c

theorem foldl_stored (changes : List PollChange) (w : Walk × History) :
    Stored w.1 (changes.foldl visit w).1 := by
  induction changes generalizing w with
  | nil => exact Stored.of_eq rfl rfl
  | cons c rest ih => exact (applyChange_stored w.1 c).trans (ih (visit w c))

theorem refreshUsers_scopes (env : Env) (w : World) :
    (refreshUsers env w).store.scopes = w.store.scopes := by
  rw [refreshUsers]
  split <;> rfl

theorem refreshSelectedBoard_scopes (env : Env) (w : World) :
    (refreshSelectedBoard env w).store.scopes = w.store.scopes := by
  rw [refreshSelectedBoard]
  split
  · exact refreshUsers_scopes env w
  · split
    · rfl
    · exact refreshUsers_scopes env w
    · exact refreshUsers_scopes env _

theorem refreshBoards_scopes (env : Env) (walk : Walk) (w : World) :
    (refreshBoards env walk w).store.scopes = w.store.scopes := by
  rw [refreshBoards]
  split
  · split
    · rfl
    · exact refreshUsers_scopes env w
    · exact refreshSelectedBoard_scopes env _
  · exact refreshUsers_scopes env w

theorem refreshCards_scopes (env : Env) (walk : Walk) (w : World) :
    (refreshCards env walk w).store.scopes = w.store.scopes := by
  rw [refreshCards]
  split
  · split
    · rfl
    · exact refreshBoards_scopes env walk w
    · exact refreshBoards_scopes env walk _
  · exact refreshBoards_scopes env walk w

theorem refreshChannels_scopes (env : Env) (walk : Walk) (w : World) :
    (refreshChannels env walk w).store.scopes = w.store.scopes := by
  rw [refreshChannels]
  split
  · split
    · rfl
    · exact refreshCards_scopes env walk w
    · exact refreshCards_scopes env walk _
  · exact refreshCards_scopes env walk w

theorem refreshQuickSessions_scopes (env : Env) (walk : Walk) (w : World) :
    (refreshQuickSessions env walk w).store.scopes = w.store.scopes := by
  rw [refreshQuickSessions]
  split
  · exact refreshChannels_scopes env walk w
  · split
    · rfl
    · exact refreshChannels_scopes env walk w
    · exact refreshChannels_scopes env walk w

theorem calls_receive (changes : List PollChange) (h : History) (s : Store) :
    (changes.foldl (fun h c => h.receive s c) h).calls = h.calls := by
  induction changes generalizing h with
  | nil => rfl
  | cons c rest ih => exact ih (h.receive s c)

/-- The calls of a cycle are what the stored count of a conversation grows by. -/
theorem unread_runPoll (browser : Bool) (w : World) (env : Env) :
    ∃ calls, (runPoll browser w env).history.calls = w.history.calls ++ calls ∧
      ∀ scope, unread (runPoll browser w env).store.scopes scope = unread w.store.scopes scope +
        ((calls.filter fun call => scope = call.scope).map Call.count).sum := by
  rw [runPoll]
  dsimp only
  split
  · exact ⟨[], (List.append_nil _).symm, fun _ => rfl⟩
  · refine ⟨[], ?_, fun _ => ?_⟩
    · split <;> exact (List.append_nil _).symm
    · split <;> rfl
  split
  · exact ⟨[], (calls_receive _ _ _).trans (List.append_nil _).symm, fun _ => rfl⟩
  · rename_i data _ _
    obtain ⟨calls, hcalls, hscopes⟩ := foldl_stored data.changes
      (startWalk w.store { w.history with cycle := w.history.cycle + 1 })
    refine ⟨calls, ?_, fun scope => ?_⟩
    · rw [(refreshQuickSessions_fetches _ _ _).calls]
      exact hcalls
    · rw [refreshQuickSessions_scopes, hscopes]
      exact unread_foldl w.store.scopes calls scope

end Counting

section Runs

instance decidableUnheard (s : Store) (names : List Text) (c : PollChange) :
    Decidable (Unheard s names c) :=
  inferInstanceAs (Decidable (_ ∧ _ ∧ _ ∧ _ ∧ _))

instance decidableAllHeard (s : Store) : ∀ names changes, Decidable (AllHeard s names changes)
  | _, [] => isTrue trivial
  | names, c :: rest =>
    have := decidableAllHeard s (namesAfter names c) rest
    inferInstanceAs (Decidable (_ ∧ _))

instance decidableAnswered (names : List Text) (changes : List PollChange) (env : Env) :
    Decidable (Answered names changes env) :=
  inferInstanceAs (Decidable ((_ → (_ → _) ∧ _) ∧ (_ → (_ → _) ∧ (_ → _) ∧ _) ∧
    (_ → (_ → _) ∧ (_ → _) ∧ (_ → _) ∧ _)))

instance decidableAttentive (browser : Bool) (w : World) : ∀ a, Decidable (Attentive browser w a)
  | .poll env =>
    match hpoll : env.poll with
    | .thrown => isTrue fun _ h => (by cases hpoll.symm.trans h)
    | .failed _ => isTrue fun _ h => (by cases hpoll.symm.trans h)
    | .ok data =>
      decidable_of_iff ((browser = true ∧ data.needsToken = true → data.changes = []) ∧
          (¬(browser = true ∧ data.needsToken = true) →
            AllHeard w.store w.store.names data.changes ∧
              Answered w.store.names data.changes env))
        ⟨fun h data' hdata => by
            cases hpoll.symm.trans hdata
            exact h,
          fun h => h data hpoll⟩
  | .other _ => isTrue trivial

/-- Nothing has been received yet. -/
def Initial (w : World) : Prop := w.history = ⟨0, [], [], fun _ => 0, fun _ => 0⟩

/-- In every run of attentive cycles nothing is missing at the end of a cycle that succeeds. -/
theorem pollLoop_skipsNothing (browser : Bool) (w : World) (hinitial : Initial w)
    (as : List Action) (hattentive : Along (step browser) (Attentive browser) w as) :
    Along (step browser) (SkipsNothing browser) w as := by
  have hinv : Inv w := by
    refine ⟨⟨?_, fun l => ?_⟩, fun l => ?_⟩
    · rw [hinitial]
      rfl
    · rw [hinitial]
    · rw [hinitial]
  refine along_mono (fun s a t hinv ha h => ?_) (fun s a hinv ha => ?_) hinv hattentive
  · cases a with
    | poll env =>
      cases h
      exact runPoll_inv hinv ha
    | other store =>
      cases h
      exact ⟨⟨hinv.caughtUp.once, hinv.caughtUp.fresh⟩, hinv.past⟩
  · cases a with
    | poll env => exact fun _ => (runPoll_inv hinv ha).caughtUp
    | other store => trivial

def sampleMessage (line : Int) (author : Text) : Message :=
  ⟨line, 0, author, [], "hello".toList, none, none⟩

/-- A client of alice that knows one channel and shows none. -/
def sampleWorld : World where
  store := ⟨[⟨"general".toList, .channel, 0, false⟩], none, "alice".toList, "/chat".toList, [], [],
    [], [], none, none, [], []⟩
  cursor := none
  history := ⟨0, [], [], fun _ => 0, fun _ => 0⟩

def samplePoll (changes : List PollChange) (boards : Reply (List Board)) : Action :=
  .poll ⟨.ok ⟨"c1".toList, changes, false⟩, .ok (), .ok [⟨"general".toList, .channel, 0, false⟩],
    .ok [], boards, .ok ⟨"alice".toList, []⟩, .ok []⟩

/-- Messages in a known channel and in a new direct conversation, and then a cycle that fails. -/
theorem pollLoop_skipsNothing_sample :
    Along (step false) (Attentive false) sampleWorld
        [samplePoll [⟨"general".toList, .channel, [sampleMessage 1 "bob".toList]⟩,
          ⟨"dm:alice,bob".toList, .dm, [sampleMessage 1 "bob".toList]⟩] (.ok []),
        .poll ⟨.thrown, .thrown, .thrown, .thrown, .thrown, .thrown, .thrown⟩] ∧
      Along (step false) (SkipsNothing false) sampleWorld
        [samplePoll [⟨"general".toList, .channel, [sampleMessage 1 "bob".toList]⟩,
          ⟨"dm:alice,bob".toList, .dm, [sampleMessage 1 "bob".toList]⟩] (.ok []),
        .poll ⟨.thrown, .thrown, .thrown, .thrown, .thrown, .thrown, .thrown⟩] := by
  have hattentive : Along (step false) (Attentive false) sampleWorld
      [samplePoll [⟨"general".toList, .channel, [sampleMessage 1 "bob".toList]⟩,
        ⟨"dm:alice,bob".toList, .dm, [sampleMessage 1 "bob".toList]⟩] (.ok []),
      .poll ⟨.thrown, .thrown, .thrown, .thrown, .thrown, .thrown, .thrown⟩] := by decide +kernel
  exact ⟨hattentive, pollLoop_skipsNothing false sampleWorld rfl _ hattentive⟩

/-- A message in a channel that the client does not know is not counted, and boards that could not
be fetched when they changed are not fetched later. -/
theorem not_skipsNothing_newChannel :
    ¬ Along (step false) (SkipsNothing false) sampleWorld
        [samplePoll [⟨"ops".toList, .channel, [sampleMessage 1 "bob".toList]⟩] (.ok [])] ∧
      ¬ Along (step false) (SkipsNothing false) sampleWorld
        [samplePoll [⟨"alice".toList, .board, []⟩] .failed, samplePoll [] (.ok [])] := by
  constructor
  · intro h
    have hcaught := h.1 (by decide +kernel)
    exact absurd hcaught.once (by decide +kernel)
  · intro h
    have hcaught := (h.2 _ rfl).1 (by decide +kernel)
    exact absurd (hcaught.fresh .boards) (by decide +kernel)

end Runs

end PollLoop
