import GitIM.FileTree
import GitIM.Runs
import Mathlib.Data.List.Sort

/-!
# The messages of the chat view

The view shows stored messages, which have a line, and messages being sent, which have a
pending id. A send that fails stays in the view as failed. Stored copies replace pending
ones by line number, and failed ones by author and body, since a send may have been stored
although its answer was lost.
-/

namespace ChatMessages

open TextLines FileTree Runs

section Store

inductive MessageStatus where
  | sending
  | sent
  | failed
  deriving DecidableEq

structure Message where
  lineNumber : Int
  pointTo : Nat
  author : Text
  timestamp : Text
  body : Text
  status : Option MessageStatus
  pendingId : Option Nat
  deriving DecidableEq

/-- Author and body in one text, as a key. -/
def key (m : Message) : Text := m.author ++ Char.ofNat 0 :: m.body

def dropFailedPendingsMatching (existing incoming : List Message) : List Message :=
  let realKeys := (incoming.filter fun m => m.pendingId = none).map key
  existing.filter fun m => ¬(m.status = some .failed ∧ m.pendingId.isSome = true ∧ key m ∈ realKeys)

/-- The stored messages of a batch by line; the last one of a line counts. -/
def incomingByLine (incoming : List Message) : List (Int × Message) :=
  incoming.foldl (fun byLine m =>
    if 0 < m.lineNumber ∧ m.pendingId = none then upsert (fun _ => m) m.lineNumber byLine
    else byLine) []

/-- The stored message over the current one, which stays pending if it is. -/
def overlay (current authoritative : Message) : Message :=
  { authoritative with
    pendingId := current.pendingId
    status := if current.pendingId.isSome then current.status
      else authoritative.status.or current.status }

/-- The merged messages, and whether any has been merged. -/
def mergeIncomingByLine (existing incoming : List Message) : List Message × Bool :=
  let byLine := incomingByLine incoming
  (existing.map fun current =>
    match byLine.lookup current.lineNumber with
    | none => current
    | some authoritative => overlay current authoritative,
    existing.any fun current => (byLine.lookup current.lineNumber).isSome)

def hasLine (messages : List Message) (line : Int) : Bool :=
  messages.any fun m => m.lineNumber = line

def setMessages (messages newMessages : List Message) : List Message :=
  if newMessages = [] then []
  else
    let reconciled := dropFailedPendingsMatching messages newMessages
    newMessages ++ reconciled.filter fun m =>
      m.pendingId.isSome = true ∧ hasLine newMessages m.lineNumber = false

def addMessages (messages batch : List Message) : List Message :=
  let reconciled := dropFailedPendingsMatching messages batch
  let merged := mergeIncomingByLine reconciled batch
  let toAdd := batch.filter fun m => hasLine merged.1 m.lineNumber = false
  if toAdd = [] ∧ merged.2 = false then messages else merged.1 ++ toAdd

def prependMessages (messages older : List Message) : List Message :=
  let toAdd := older.filter fun m => hasLine messages m.lineNumber = false
  if toAdd = [] then messages
  else toAdd.mergeSort (fun a b => a.lineNumber ≤ b.lineNumber) ++ messages

def addPendingMessage (messages : List Message) (m : Message) : List Message := messages ++ [m]

def removePendingMessage (messages : List Message) (id : Nat) : List Message :=
  messages.filter fun m => m.pendingId ≠ some id

def markPendingSent (messages : List Message) (id : Nat) (lineNumber : Int) : List Message :=
  if messages.any fun m => m.pendingId = none ∧ m.lineNumber = lineNumber then
    removePendingMessage messages id
  else messages.map fun m =>
    if m.pendingId = some id then { m with status := some .sent, lineNumber := lineNumber } else m

/-- A stored message with the text of the pending one is in the view. -/
def realArrived (messages : List Message) (pending : Message) : Bool :=
  messages.any fun m => m.pendingId = none ∧ m.author = pending.author ∧ m.body = pending.body

def markPendingFailed (messages : List Message) (id : Nat) (lineNumber : Option Int) : List Message :=
  if (messages.find? fun m => m.pendingId = some id).any (realArrived messages) then
    removePendingMessage messages id
  else messages.map fun m =>
    if m.pendingId = some id then
      { m with status := some .failed, lineNumber := lineNumber.getD m.lineNumber }
    else m

end Store

section View

/-- What the server stores: the message of a line, and the line of a send, if it was stored. -/
structure Server where
  stored : Nat → Nat × Text × Text × Text
  own : Nat → Option Nat
  own_pos : ∀ id n, own id = some n → 0 < n
  own_inj : ∀ id id' n, own id = some n → own id' = some n → id = id'

variable (server : Server)

/-- The stored message of a line. -/
def Server.message (n : Nat) : Message :=
  let (pointTo, author, timestamp, body) := server.stored n
  ⟨n, pointTo, author, timestamp, body, none, none⟩

/-- The view of a channel. `delivered`: the lines of the batches since the last `setMessages`;
`added`: the sends so far; `failed`: the sends that were marked failed and never stored, until they
are removed. -/
structure View where
  messages : List Message
  delivered : List Nat
  added : List (Nat × Text × Text)
  failed : List Nat
  deriving DecidableEq

inductive Action where
  | addPendingMessage (id pointTo : Nat) (author timestamp body : Text)
  | markPendingSent (id : Nat) (lineNumber : Int)
  | markPendingFailed (id : Nat) (lineNumber : Option Int)
  | addMessages (lines : List Nat)
  | prependMessages (lines : List Nat)
  | setMessages (lines : List Nat)
  | removePendingMessage (id : Nat)
  deriving DecidableEq

def batch (lines : List Nat) : List Message := lines.map server.message

def pendingMessage (id pointTo : Nat) (author timestamp body : Text) : Message :=
  ⟨-1, pointTo, author, timestamp, body, some .sending, some id⟩

/-- Pending ids are fresh, lines are positive and `setMessages` gets a message. -/
def step (v : View) : Action → Option View
  | .addPendingMessage id pointTo author timestamp body =>
    if id ∈ v.added.map Prod.fst then none
    else some { v with
      messages := addPendingMessage v.messages (pendingMessage id pointTo author timestamp body)
      added := (id, author, body) :: v.added }
  | .markPendingSent id lineNumber =>
    some { v with messages := markPendingSent v.messages id lineNumber }
  | .markPendingFailed id lineNumber =>
    some { v with
      messages := markPendingFailed v.messages id lineNumber
      failed := if server.own id = none ∧ v.messages.any (fun m => m.pendingId = some id) = true then
        id :: v.failed else v.failed }
  | .addMessages lines =>
    if 0 ∈ lines then none
    else some { v with
      messages := addMessages v.messages (batch server lines)
      delivered := lines ++ v.delivered }
  | .prependMessages lines =>
    if 0 ∈ lines then none
    else some { v with
      messages := prependMessages v.messages (batch server lines)
      delivered := lines ++ v.delivered }
  | .setMessages lines =>
    if 0 ∈ lines ∨ lines = [] then none
    else some { v with messages := setMessages v.messages (batch server lines), delivered := lines }
  | .removePendingMessage id =>
    some { v with
      messages := removePendingMessage v.messages id
      failed := v.failed.filter fun p => p ≠ id }

/-- No message of the batch has the text of a failed send that was never stored. -/
def Unlike (v : View) (lines : List Nat) : Prop :=
  ∀ m ∈ v.messages, m.status = some .failed → ∀ id ∈ m.pendingId, server.own id = none →
    ∀ n ∈ lines, key m ≠ key (server.message n)

instance decidableUnlike (v : View) (lines : List Nat) : Decidable (Unlike server v lines) :=
  inferInstanceAs (Decidable (∀ m ∈ v.messages, m.status = some .failed → ∀ id ∈ m.pendingId,
    server.own id = none → ∀ n ∈ lines, key m ≠ key (server.message n)))

/-- The condition. A batch has a line once and no text of a failed send; a send is answered once,
with the line at which it is stored or with no line; and a send that fails has no equal in view. -/
def Keeps (v : View) : Action → Prop
  | .addPendingMessage id _ author _ body =>
    ∀ n ∈ server.own id, author = (server.message n).author ∧ body = (server.message n).body
  | .markPendingSent id lineNumber => ∃ n ∈ server.own id, lineNumber = n
  | .markPendingFailed id lineNumber => lineNumber = none ∧
      ∀ m ∈ v.messages, m.pendingId = some id → m.status ≠ some .sent ∧
        (server.own id = none → realArrived v.messages m = false)
  | .addMessages lines | .setMessages lines => lines.Nodup ∧ Unlike server v lines
  | .prependMessages lines => lines.Nodup
  | .removePendingMessage id => ∀ m ∈ v.messages, m.pendingId = some id → m.status ≠ some .sent

instance decidableKeeps (v : View) : (a : Action) → Decidable (Keeps server v a)
  | .addPendingMessage _ _ _ _ _ => inferInstanceAs (Decidable (∀ _ ∈ _, _ ∧ _))
  | .markPendingSent id lineNumber =>
    decidable_of_iff ((server.own id).any (fun n : Nat => lineNumber = n) = true)
      (by simp [Keeps, Option.any_eq_true])
  | .markPendingFailed _ _ => inferInstanceAs (Decidable (_ ∧ ∀ _ ∈ _, _ → _ ∧ (_ → _)))
  | .addMessages lines => inferInstanceAs (Decidable (lines.Nodup ∧ Unlike server v lines))
  | .setMessages lines => inferInstanceAs (Decidable (lines.Nodup ∧ Unlike server v lines))
  | .prependMessages lines => inferInstanceAs (Decidable lines.Nodup)
  | .removePendingMessage _ => inferInstanceAs (Decidable (∀ _ ∈ _, _ → _))

end View

section Apart

/-- Two messages of the view share no positive line and no pending id. -/
structure Apart (a b : Message) : Prop where
  line : 0 < a.lineNumber → a.lineNumber ≠ b.lineNumber
  id : ∀ p, a.pendingId = some p → b.pendingId ≠ some p

theorem Apart.symm {a b : Message} (h : Apart a b) : Apart b a where
  line := fun hpos heq => h.line (heq ▸ hpos) heq.symm
  id := fun p hb ha => h.id p ha hb

/-- Messages that keep their lines and ids stay apart. -/
theorem pairwise_map_same {f : Message → Message} {l : List Message} (h : l.Pairwise Apart)
    (hline : ∀ m, (f m).lineNumber = m.lineNumber) (hid : ∀ m, (f m).pendingId = m.pendingId) :
    (l.map f).Pairwise Apart := by
  rw [List.pairwise_map]
  apply h.imp
  intro a b hab
  refine ⟨?_, ?_⟩
  · rw [hline, hline]
    exact hab.line
  · rw [hid, hid]
    exact hab.id

theorem hasLine_eq_false {l : List Message} {n : Int} :
    hasLine l n = false ↔ ∀ m ∈ l, m.lineNumber ≠ n := by
  simp [hasLine]

variable (server : Server)

theorem mem_batch {lines : List Nat} {m : Message} :
    m ∈ batch server lines ↔ ∃ n ∈ lines, server.message n = m :=
  List.mem_map

theorem pairwise_batch {lines : List Nat} (h : lines.Nodup) :
    (batch server lines).Pairwise Apart := by
  rw [batch, List.pairwise_map]
  apply h.imp
  intro a b hab
  exact ⟨fun _ heq => hab (Int.ofNat.inj heq), fun p hp => (by cases hp)⟩

/-- New messages beside the old ones, none of whose lines they have. -/
theorem pairwise_beside {l : List Message} {lines : List Nat} {keep : Message → Bool}
    (hlines : lines.Nodup)
    (hnew : ∀ m ∈ batch server lines, keep m = true → ∀ m' ∈ l, m'.lineNumber ≠ m.lineNumber) :
    ((batch server lines).filter keep).Pairwise Apart ∧
      (∀ a ∈ l, ∀ b ∈ (batch server lines).filter keep, Apart a b) := by
  refine ⟨(pairwise_batch server hlines).filter keep, fun a ha b hb => ?_⟩
  obtain ⟨hmem, hkeep⟩ := List.mem_filter.mp hb
  refine ⟨fun _ => hnew b hmem hkeep a ha, fun p _ hb => ?_⟩
  obtain ⟨n, -, rfl⟩ := (mem_batch server).mp hmem
  cases hb

end Apart

section Merge
variable {incoming : List Message} {m : Message} {line : Int}

/-- What a batch says of a line is a stored message of the batch. -/
theorem lookup_incomingByLine (h : (incomingByLine incoming).lookup line = some m) :
    m ∈ incoming ∧ m.lineNumber = line ∧ 0 < line := by
  have hfold : ∀ (l : List Message) (byLine : List (Int × Message)),
      (∀ n x, byLine.lookup n = some x → x ∈ incoming ∧ x.lineNumber = n ∧ 0 < n) →
      (∀ x ∈ l, x ∈ incoming) → ∀ n x,
      (l.foldl (fun byLine m => if 0 < m.lineNumber ∧ m.pendingId = none then
        upsert (fun _ => m) m.lineNumber byLine else byLine) byLine).lookup n = some x →
        x ∈ incoming ∧ x.lineNumber = n ∧ 0 < n := by
    intro l
    induction l with
    | nil => exact fun byLine hby _ n x hx => hby n x hx
    | cons y l ih =>
      intro byLine hby hl n x hx
      refine ih _ ?_ (fun z hz => hl z (List.mem_cons_of_mem y hz)) n x hx
      intro n' x' hx'
      dsimp only at hx'
      split at hx'
      · rename_i hreal
        rw [lookup_upsert] at hx'
        split at hx'
        · rename_i heq
          cases hx'
          exact ⟨hl y List.mem_cons_self, heq.symm, heq ▸ hreal.1⟩
        · exact hby n' x' hx'
      · exact hby n' x' hx'
  exact hfold incoming [] (fun n x hx => (by cases hx)) (fun x hx => hx) line m h

/-- One message of the merge. -/
def mergedOne (incoming : List Message) (current : Message) : Message :=
  match (incomingByLine incoming).lookup current.lineNumber with
  | none => current
  | some authoritative => overlay current authoritative

theorem mergedOne_line (current : Message) :
    (mergedOne incoming current).lineNumber = current.lineNumber := by
  rw [mergedOne]
  split
  · rfl
  · rename_i authoritative h
    exact (lookup_incomingByLine h).2.1

theorem mergedOne_id (current : Message) :
    (mergedOne incoming current).pendingId = current.pendingId := by
  rw [mergedOne]
  split <;> rfl

/-- The text of a merged message is its own or that of a stored message of its line. -/
theorem mergedOne_cases (incoming : List Message) (current : Message) :
    mergedOne incoming current = current ∨ ∃ m ∈ incoming, m.lineNumber = current.lineNumber ∧
      0 < current.lineNumber ∧ mergedOne incoming current = overlay current m := by
  rw [mergedOne]
  split
  · exact .inl rfl
  · rename_i authoritative h
    obtain ⟨hmem, hline, hpos⟩ := lookup_incomingByLine h
    exact .inr ⟨authoritative, hmem, hline, hpos, rfl⟩

end Merge

section Invariant
variable (server : Server)

/-- The text of a stored line. -/
def TextOf (n : Nat) (m : Message) : Prop :=
  m.author = (server.message n).author ∧ m.body = (server.message n).body

/-- A message of the view: a stored one, one that is known to be stored, or one that has no line. -/
inductive Fits (added : List (Nat × Text × Text)) (m : Message) : Prop where
  | stored (n : Nat) (hid : m.pendingId = none) (hpos : 0 < n) (hline : m.lineNumber = n)
      (htext : TextOf server n m)
  | sent (id n : Nat) (hid : m.pendingId = some id) (hstatus : m.status = some .sent)
      (hown : server.own id = some n) (hline : m.lineNumber = n) (htext : TextOf server n m)
      (hadded : (id, m.author, m.body) ∈ added)
  | unsent (id : Nat) (hid : m.pendingId = some id) (hstatus : m.status ≠ some .sent)
      (hline : m.lineNumber = -1) (hadded : (id, m.author, m.body) ∈ added)

structure Inv (v : View) : Prop where
  fits : ∀ m ∈ v.messages, Fits server v.added m
  apart : v.messages.Pairwise Apart
  added : ∀ e ∈ v.added, ∀ n ∈ server.own e.1,
    e.2.1 = (server.message n).author ∧ e.2.2 = (server.message n).body
  delivered : ∀ n ∈ v.delivered, 0 < n ∧ ∃ m ∈ v.messages, m.lineNumber = n
  failed : ∀ id ∈ v.failed, server.own id = none ∧
    ∃ m ∈ v.messages, m.pendingId = some id ∧ m.status = some .failed

variable {server} {added : List (Nat × Text × Text)} {v : View} {m : Message}

theorem fits_message {n : Nat} (hn : 0 < n) : Fits server added (server.message n) :=
  .stored n rfl hn rfl ⟨rfl, rfl⟩

theorem Fits.mono {added' : List (Nat × Text × Text)} (h : Fits server added m)
    (hsub : ∀ e ∈ added, e ∈ added') : Fits server added' m := by
  cases h with
  | stored n hid hpos hline htext => exact .stored n hid hpos hline htext
  | sent id n hid hstatus hown hline htext hadded =>
    exact .sent id n hid hstatus hown hline htext (hsub _ hadded)
  | unsent id hid hstatus hline hadded => exact .unsent id hid hstatus hline (hsub _ hadded)

/-- A pending message that is not known to be stored has no line. -/
theorem Fits.line_of_unsent {id : Nat} (h : Fits server added m) (hid : m.pendingId = some id)
    (hstatus : m.status ≠ some .sent) : m.lineNumber = -1 := by
  cases h with
  | stored n hid' =>
    rw [hid'] at hid
    cases hid
  | sent id' n hid' hsent => exact absurd hsent hstatus
  | unsent id' hid' hstatus' hline => exact hline

theorem Fits.overlay {x : Message} {lines : List Nat} (h : Fits server added m)
    (hx : x ∈ batch server lines) (hline : x.lineNumber = m.lineNumber) (hpos : 0 < m.lineNumber) :
    Fits server added (overlay m x) := by
  obtain ⟨n, -, rfl⟩ := (mem_batch server).mp hx
  have hn : m.lineNumber = n := hline.symm
  cases h with
  | stored n' hid hpos' hline' htext => exact .stored n hid (by omega) rfl ⟨rfl, rfl⟩
  | sent id n' hid hstatus hown hline' htext hadded =>
    have hsame : n' = n := by omega
    subst hsame
    refine .sent id n' hid ?_ hown rfl ⟨rfl, rfl⟩ ?_
    · simp only [ChatMessages.overlay, hid, Option.isSome_some, if_true]
      exact hstatus
    have hauthor : m.author = (server.message n').author := htext.1
    have hbody : m.body = (server.message n').body := htext.2
    rw [hauthor, hbody] at hadded
    exact hadded
  | unsent id hid hstatus hline' hadded => omega

theorem Fits.mem_added {id : Nat} (h : Fits server added m) (hid : m.pendingId = some id) :
    (id, m.author, m.body) ∈ added := by
  cases h with
  | stored n hid' =>
    rw [hid'] at hid
    cases hid
  | sent id' n hid' hstatus hown hline htext hadded =>
    rw [hid'] at hid
    cases hid
    exact hadded
  | unsent id' hid' hstatus hline hadded =>
    rw [hid'] at hid
    cases hid
    exact hadded

/-- What a failed send is dropped for. -/
theorem mem_dropFailed {existing incoming : List Message}
    (h : m ∈ existing) : m ∈ dropFailedPendingsMatching existing incoming ∨
      m.status = some .failed ∧ m.pendingId.isSome = true ∧
        ∃ x ∈ incoming, x.pendingId = none ∧ key x = key m := by
  by_cases hdrop : m.status = some .failed ∧ m.pendingId.isSome = true ∧
      key m ∈ (incoming.filter fun x => x.pendingId = none).map key
  · obtain ⟨hstatus, hid, hkey⟩ := hdrop
    obtain ⟨x, hx, heq⟩ := List.mem_map.mp hkey
    obtain ⟨hmem, hreal⟩ := List.mem_filter.mp hx
    exact .inr ⟨hstatus, hid, x, hmem, of_decide_eq_true hreal, heq⟩
  · exact .inl (List.mem_filter.mpr ⟨h, decide_eq_true hdrop⟩)

theorem mem_of_mem_dropFailed {existing incoming : List Message}
    (h : m ∈ dropFailedPendingsMatching existing incoming) : m ∈ existing :=
  List.mem_of_mem_filter h

/-- A message on a positive line is not dropped. -/
theorem Inv.keeps_line {incoming : List Message} (h : Inv server v) (hm : m ∈ v.messages)
    (hpos : 0 < m.lineNumber) : m ∈ dropFailedPendingsMatching v.messages incoming := by
  rcases mem_dropFailed hm with hkept | ⟨hstatus, hid, -⟩
  · exact hkept
  · obtain ⟨id, hid⟩ := Option.isSome_iff_exists.mp hid
    have hline := (h.fits m hm).line_of_unsent hid (by rw [hstatus]; exact (fun hno => by cases hno))
    omega

/-- A failed send that was never stored is not dropped for a batch that is unlike it. -/
theorem Inv.keeps_failed {lines : List Nat} {id : Nat} (hunlike : Unlike server v lines)
    (hm : m ∈ v.messages) (hid : m.pendingId = some id) (hstatus : m.status = some .failed)
    (hown : server.own id = none) :
    m ∈ dropFailedPendingsMatching v.messages (batch server lines) := by
  rcases mem_dropFailed hm with hkept | ⟨-, -, x, hx, -, hkey⟩
  · exact hkept
  · obtain ⟨n, hn, rfl⟩ := (mem_batch server).mp hx
    exact absurd hkey.symm (hunlike m hm hstatus id hid hown n hn)

theorem mergeIncomingByLine_fst (existing incoming : List Message) :
    (mergeIncomingByLine existing incoming).1 = existing.map (mergedOne incoming) := rfl

end Invariant

section Steps
variable {server : Server} {v w : View}

theorem inv_addPendingMessage {id pointTo : Nat} {author timestamp body : Text} (h : Inv server v)
    (hkeeps : ∀ n ∈ server.own id,
      author = (server.message n).author ∧ body = (server.message n).body)
    (hfresh : id ∉ v.added.map Prod.fst) :
    Inv server { v with
      messages := addPendingMessage v.messages (pendingMessage id pointTo author timestamp body)
      added := (id, author, body) :: v.added } := by
  have hsub : ∀ e ∈ v.added, e ∈ (id, author, body) :: v.added :=
    fun e he => List.mem_cons_of_mem _ he
  refine ⟨?_, ?_, ?_, ?_, ?_⟩
  · intro m hm
    rcases List.mem_append.mp hm with hold | hnew
    · exact (h.fits m hold).mono hsub
    · rw [List.mem_singleton.mp hnew]
      exact .unsent id rfl (fun hno => by cases hno) rfl List.mem_cons_self
  · refine List.pairwise_append.mpr ⟨h.apart, List.pairwise_singleton _ _, ?_⟩
    intro a ha b hb
    rw [List.mem_singleton.mp hb]
    refine ⟨fun hpos heq => ?_, fun p hp heq => ?_⟩
    · have hneg : a.lineNumber = -1 := heq
      omega
    · have hsame : id = p := Option.some.inj heq
      subst hsame
      exact hfresh (List.mem_map.mpr ⟨_, (h.fits a ha).mem_added hp, rfl⟩)
  · intro e he
    rcases List.mem_cons.mp he with rfl | he
    · exact hkeeps
    · exact h.added e he
  · intro n hn
    obtain ⟨hpos, m, hm, hline⟩ := h.delivered n hn
    exact ⟨hpos, m, List.mem_append_left _ hm, hline⟩
  · intro p hp
    obtain ⟨hown, m, hm, hid⟩ := h.failed p hp
    exact ⟨hown, m, List.mem_append_left _ hm, hid⟩

/-- Dropping messages that nobody waits for. -/
theorem inv_filter {keep : Message → Bool} {failed : List Nat} (h : Inv server v)
    (hdelivered : ∀ n ∈ v.delivered, ∃ m ∈ v.messages, m.lineNumber = n ∧ keep m = true)
    (hfailed : ∀ p ∈ failed, p ∈ v.failed ∧ ∀ m ∈ v.messages, m.pendingId = some p → keep m = true) :
    Inv server { v with messages := v.messages.filter keep, failed := failed } := by
  refine ⟨fun m hm => h.fits m (List.mem_of_mem_filter hm), h.apart.filter keep, h.added, ?_, ?_⟩
  · intro n hn
    obtain ⟨m, hm, hline, hkeep⟩ := hdelivered n hn
    exact ⟨(h.delivered n hn).1, m, List.mem_filter.mpr ⟨hm, hkeep⟩, hline⟩
  · intro p hp
    obtain ⟨hold, hkeep⟩ := hfailed p hp
    obtain ⟨hown, m, hm, hid, hstatus⟩ := h.failed p hold
    exact ⟨hown, m, List.mem_filter.mpr ⟨hm, hkeep m hm hid⟩, hid, hstatus⟩

theorem inv_markPendingSent {id n : Nat} (h : Inv server v) (hown : server.own id = some n) :
    Inv server { v with messages := markPendingSent v.messages id n } := by
  have hnot : ∀ p ∈ v.failed, p ≠ id := by
    rintro p hp rfl
    rw [(h.failed p hp).1] at hown
    cases hown
  -- a message of this send has no line yet, or its own
  have hmine : ∀ m ∈ v.messages, m.pendingId = some id → m.lineNumber = n ∨ m.lineNumber = -1 := by
    intro m hm hid
    cases h.fits m hm with
    | stored n' hid' =>
      rw [hid'] at hid
      cases hid
    | sent id' n' hid' hstatus hown' hline =>
      rw [hid'] at hid
      cases hid
      rw [hown] at hown'
      cases hown'
      exact .inl hline
    | unsent id' hid' hstatus hline => exact .inr hline
  rw [markPendingSent]
  split
  · rename_i harrived
    obtain ⟨real, hreal, hfields⟩ := List.any_eq_true.mp harrived
    obtain ⟨hrealId, hrealLine⟩ := of_decide_eq_true hfields
    refine inv_filter h (fun k hk => ?_) fun p hp => ⟨hp, fun m _ hid => ?_⟩
    · obtain ⟨hpos, m, hm, hline⟩ := h.delivered k hk
      by_cases hid : m.pendingId = some id
      · rcases hmine m hm hid with hsame | hneg
        · refine ⟨real, hreal, hrealLine.trans (hsame.symm.trans hline), ?_⟩
          rw [hrealId]
          rfl
        · omega
      · exact ⟨m, hm, hline, decide_eq_true hid⟩
    · rw [hid]
      exact decide_eq_true fun heq => hnot p hp (Option.some.inj heq)
  · rename_i harrived
    have hreal : ∀ m ∈ v.messages, m.pendingId = none → m.lineNumber ≠ n := by
      intro m hm hid hline
      exact harrived (List.any_eq_true.mpr ⟨m, hm, decide_eq_true ⟨hid, hline⟩⟩)
    have hother : ∀ m ∈ v.messages, m.pendingId ≠ some id → m.lineNumber ≠ n := by
      intro m hm hid hline
      cases h.fits m hm with
      | stored n' hid' => exact hreal m hm hid' hline
      | sent id' n' hid' hstatus hown' hline' =>
        have hsame : n' = n := by omega
        subst hsame
        exact hid (hid'.trans (congrArg some (server.own_inj id' id n' hown' hown)))
      | unsent id' hid' hstatus hline' => omega
    refine ⟨?_, ?_, h.added, ?_, ?_⟩
    · intro m' hm'
      obtain ⟨m, hm, rfl⟩ := List.mem_map.mp hm'
      split
      · rename_i hid
        have hadded := (h.fits m hm).mem_added hid
        exact .sent id n hid rfl hown rfl (h.added _ hadded n hown) hadded
      · exact h.fits m hm
    · rw [List.pairwise_map]
      refine h.apart.imp_of_mem fun {a b} ha hb hab => ?_
      split
      · rename_i hida
        have hidb := hab.id id hida
        rw [if_neg hidb]
        refine ⟨fun _ heq => hother b hb hidb heq.symm, fun p hp => hab.id p hp⟩
      · rename_i hida
        split
        · rename_i hidb
          exact ⟨fun _ heq => hother a ha hida heq, fun p hp => hab.id p hp⟩
        · exact hab
    · intro k hk
      obtain ⟨hpos, m, hm, hline⟩ := h.delivered k hk
      refine ⟨hpos, _, List.mem_map_of_mem hm, ?_⟩
      split
      · rename_i hid
        rcases hmine m hm hid with hsame | hneg
        · exact hsame.symm.trans hline
        · omega
      · exact hline
    · intro p hp
      obtain ⟨hown', m, hm, hid, hstatus⟩ := h.failed p hp
      refine ⟨hown', _, List.mem_map_of_mem hm, ?_⟩
      rw [if_neg]
      · exact ⟨hid, hstatus⟩
      · rw [hid]
        exact fun heq => hnot p hp (Option.some.inj heq)

theorem inv_removePendingMessage {id : Nat} (h : Inv server v)
    (hkeeps : ∀ m ∈ v.messages, m.pendingId = some id → m.status ≠ some .sent) :
    Inv server { v with
      messages := removePendingMessage v.messages id
      failed := v.failed.filter fun p => p ≠ id } := by
  refine inv_filter h (fun n hn => ?_) fun p hp => ?_
  · obtain ⟨hpos, m, hm, hline⟩ := h.delivered n hn
    refine ⟨m, hm, hline, decide_eq_true fun hid => ?_⟩
    have hneg := (h.fits m hm).line_of_unsent hid (hkeeps m hm hid)
    omega
  · obtain ⟨hold, hne⟩ := List.mem_filter.mp hp
    refine ⟨hold, fun m _ hid => ?_⟩
    rw [hid]
    exact decide_eq_true fun heq => of_decide_eq_true hne (Option.some.inj heq)

/-- A send that fails, with an equal in view only if it was stored. -/
theorem inv_markPendingFailed {id : Nat} (h : Inv server v)
    (hkeeps : ∀ m ∈ v.messages, m.pendingId = some id → m.status ≠ some .sent ∧
      (server.own id = none → realArrived v.messages m = false)) :
    Inv server { v with
      messages := markPendingFailed v.messages id none
      failed := if server.own id = none ∧ v.messages.any (fun m => m.pendingId = some id) = true then
        id :: v.failed else v.failed } := by
  rw [markPendingFailed]
  split
  · rename_i harrived
    obtain ⟨m, hfind, hreal⟩ := (Option.any_eq_true _ _).mp harrived
    have hm : m ∈ v.messages := List.mem_of_find?_eq_some hfind
    have hid : m.pendingId = some id := by simpa using List.find?_some hfind
    have hown : server.own id ≠ none := by
      intro hnone
      rw [(hkeeps m hm hid).2 hnone] at hreal
      cases hreal
    rw [if_neg fun hnone => hown hnone.1]
    refine inv_filter h (fun n hn => ?_) fun p hp => ⟨hp, fun m' _ hid' => ?_⟩
    · obtain ⟨hpos, m', hm', hline⟩ := h.delivered n hn
      refine ⟨m', hm', hline, decide_eq_true fun hid' => ?_⟩
      have hneg := (h.fits m' hm').line_of_unsent hid' (hkeeps m' hm' hid').1
      omega
    · rw [hid']
      refine decide_eq_true fun heq => ?_
      cases heq
      exact hown (h.failed id hp).1
  · refine ⟨?_, ?_, h.added, ?_, ?_⟩
    · intro m' hm'
      obtain ⟨m, hm, rfl⟩ := List.mem_map.mp hm'
      by_cases hid : m.pendingId = some id
      · rw [if_pos hid]
        refine .unsent id hid (fun hno => by cases hno) ?_ ((h.fits m hm).mem_added hid)
        exact (h.fits m hm).line_of_unsent hid (hkeeps m hm hid).1
      · rw [if_neg hid]
        exact h.fits m hm
    · apply pairwise_map_same h.apart
      · intro m
        split <;> rfl
      · intro m
        split <;> rfl
    · intro n hn
      obtain ⟨hpos, m, hm, hline⟩ := h.delivered n hn
      refine ⟨hpos, _, List.mem_map_of_mem hm, ?_⟩
      split <;> exact hline
    · intro p hp
      -- the message of a send, failed now or before
      have hmark : ∀ m ∈ v.messages, m.pendingId = some p → (p = id ∨ m.status = some .failed) →
          ∃ m' ∈ v.messages.map fun m => if m.pendingId = some id then
            { m with status := some .failed, lineNumber := (none : Option Int).getD m.lineNumber }
            else m, m'.pendingId = some p ∧ m'.status = some .failed := by
        intro m hm hid hwhy
        refine ⟨_, List.mem_map_of_mem hm, ?_⟩
        split
        · exact ⟨hid, rfl⟩
        · rename_i hne
          refine ⟨hid, hwhy.resolve_left fun heq => ?_⟩
          rw [heq] at hid
          exact hne hid
      split at hp
      · rename_i hnew
        rcases List.mem_cons.mp hp with rfl | hp
        · obtain ⟨m, hm, hid⟩ := List.any_eq_true.mp hnew.2
          exact ⟨hnew.1, hmark m hm (of_decide_eq_true hid) (.inl rfl)⟩
        · obtain ⟨hown, m, hm, hid, hstatus⟩ := h.failed p hp
          exact ⟨hown, hmark m hm hid (.inr hstatus)⟩
      · obtain ⟨hown, m, hm, hid, hstatus⟩ := h.failed p hp
        exact ⟨hown, hmark m hm hid (.inr hstatus)⟩

end Steps

section Batches
variable {server : Server} {v : View} {lines : List Nat}

theorem pos_of_mem {n : Nat} (hpos : 0 ∉ lines) (hn : n ∈ lines) : 0 < n := by
  apply Nat.pos_of_ne_zero
  rintro rfl
  exact hpos hn

/-- The messages of a batch whose lines are not in view. -/
def newOf (messages : List Message) (server : Server) (lines : List Nat) : List Message :=
  (batch server lines).filter fun m => hasLine messages m.lineNumber = false

theorem mem_newOf {messages : List Message} {m : Message} (h : m ∈ newOf messages server lines) :
    ∃ n ∈ lines, m = server.message n ∧ ∀ m' ∈ messages, m'.lineNumber ≠ n := by
  obtain ⟨hmem, hnew⟩ := List.mem_filter.mp h
  obtain ⟨n, hn, rfl⟩ := (mem_batch server).mp hmem
  exact ⟨n, hn, rfl, hasLine_eq_false.mp (of_decide_eq_true hnew)⟩

/-- A line of the batch is in view, or new. -/
theorem line_or_newOf (server : Server) (messages : List Message) {n : Nat} (hn : n ∈ lines) :
    (∃ m ∈ messages, m.lineNumber = n) ∨ server.message n ∈ newOf messages server lines := by
  cases hline : hasLine messages n with
  | true =>
    obtain ⟨m, hm, heq⟩ := List.any_eq_true.mp hline
    exact .inl ⟨m, hm, of_decide_eq_true heq⟩
  | false =>
    refine .inr (List.mem_filter.mpr ⟨(mem_batch server).mpr ⟨n, hn, rfl⟩, ?_⟩)
    exact decide_eq_true hline

/-- Old messages, perhaps renewed, and the new ones of a batch, in some order. -/
theorem inv_beside (old : List Message) {messages : List Message} (h : Inv server v)
    (hnodup : lines.Nodup) (hpos : 0 ∉ lines)
    (hfits : ∀ m ∈ old, Fits server v.added m) (hapart : old.Pairwise Apart)
    (hlines : ∀ m ∈ v.messages, 0 < m.lineNumber → ∃ m' ∈ old, m'.lineNumber = m.lineNumber)
    (hfailed : ∀ m ∈ v.messages, ∀ id, m.pendingId = some id → m.status = some .failed →
      server.own id = none → ∃ m' ∈ old, m'.pendingId = some id ∧ m'.status = some .failed)
    (hperm : messages.Perm (old ++ newOf old server lines)) :
    Inv server { v with messages := messages, delivered := lines ++ v.delivered } := by
  have hline : ∀ m ∈ batch server lines, decide (hasLine old m.lineNumber = false) = true →
      ∀ m' ∈ old, m'.lineNumber ≠ m.lineNumber :=
    fun m _ hkeep => hasLine_eq_false.mp (of_decide_eq_true hkeep)
  obtain ⟨hnewApart, hbeside⟩ := pairwise_beside server hnodup hline
  have hmem : ∀ m, m ∈ messages ↔ m ∈ old ∨ m ∈ newOf old server lines := by
    intro m
    rw [hperm.mem_iff, List.mem_append]
  refine ⟨?_, ?_, h.added, ?_, ?_⟩
  · intro m hm
    rcases (hmem m).mp hm with hold | hadd
    · exact hfits m hold
    · obtain ⟨n, hn, rfl, -⟩ := mem_newOf hadd
      exact fits_message (pos_of_mem hpos hn)
  · refine (hperm.pairwise_iff fun {a b} hab => Apart.symm hab).mpr ?_
    exact List.pairwise_append.mpr ⟨hapart, hnewApart, hbeside⟩
  · intro n hn
    rcases List.mem_append.mp hn with hn | hn
    · refine ⟨pos_of_mem hpos hn, ?_⟩
      rcases line_or_newOf server old hn with ⟨m, hm, hline⟩ | hadd
      · exact ⟨m, (hmem m).mpr (.inl hm), hline⟩
      · exact ⟨_, (hmem _).mpr (.inr hadd), rfl⟩
    · obtain ⟨hn0, m, hm, hline⟩ := h.delivered n hn
      obtain ⟨m', hm', hline'⟩ := hlines m hm (by omega)
      exact ⟨hn0, m', (hmem m').mpr (.inl hm'), hline'.trans hline⟩
  · intro p hp
    obtain ⟨hown, m, hm, hid, hstatus⟩ := h.failed p hp
    obtain ⟨m', hm', hid', hstatus'⟩ := hfailed m hm p hid hstatus hown
    exact ⟨hown, m', (hmem m').mpr (.inl hm'), hid', hstatus'⟩

theorem inv_prependMessages (h : Inv server v) (hnodup : lines.Nodup) (hpos : 0 ∉ lines) :
    Inv server { v with
      messages := prependMessages v.messages (batch server lines)
      delivered := lines ++ v.delivered } := by
  refine inv_beside v.messages h hnodup hpos h.fits h.apart (fun m hm _ => ⟨m, hm, rfl⟩)
    (fun m hm id hid hstatus _ => ⟨m, hm, hid, hstatus⟩) ?_
  rw [prependMessages]
  split
  · rename_i hnone
    have hnew : newOf v.messages server lines = [] := hnone
    rw [hnew, List.append_nil]
  · exact ((List.mergeSort_perm _ _).append_right _).trans List.perm_append_comm

/-- What a batch leaves of the messages in view: the kept ones, renewed. -/
theorem inv_addMessages (h : Inv server v) (hnodup : lines.Nodup) (hpos : 0 ∉ lines)
    (hunlike : Unlike server v lines) :
    Inv server { v with
      messages := addMessages v.messages (batch server lines)
      delivered := lines ++ v.delivered } := by
  rw [addMessages]
  split
  · rename_i hnone
    -- nothing is new, so every line of the batch is in view
    have hnew : newOf v.messages server lines = [] := by
      rw [List.eq_nil_iff_forall_not_mem]
      intro m hm
      obtain ⟨n, hn, rfl, hlines⟩ := mem_newOf hm
      rcases line_or_newOf server ((dropFailedPendingsMatching v.messages (batch server lines)).map
        (mergedOne (batch server lines))) hn with ⟨m', hm', hline⟩ | hadd
      · obtain ⟨m, hm, rfl⟩ := List.mem_map.mp hm'
        exact hlines m (mem_of_mem_dropFailed hm) ((mergedOne_line m).symm.trans hline)
      · have hnil : server.message n ∈ ([] : List Message) := by
          rw [← hnone.1]
          exact hadd
        exact (List.not_mem_nil hnil).elim
    refine inv_beside v.messages h hnodup hpos h.fits h.apart (fun m hm _ => ⟨m, hm, rfl⟩)
      (fun m hm id hid hstatus _ => ⟨m, hm, hid, hstatus⟩) ?_
    rw [hnew, List.append_nil]
  · refine inv_beside _ h hnodup hpos ?_ ?_ ?_ ?_ (.refl _)
    all_goals rw [mergeIncomingByLine_fst]
    · intro m' hm'
      obtain ⟨m, hm, rfl⟩ := List.mem_map.mp hm'
      have hfits := h.fits m (mem_of_mem_dropFailed hm)
      rcases mergedOne_cases (batch server lines) m with hsame | ⟨x, hx, hline, h0, heq⟩
      · rw [hsame]
        exact hfits
      · rw [heq]
        exact hfits.overlay hx hline h0
    · exact pairwise_map_same (h.apart.filter _) mergedOne_line mergedOne_id
    · intro m hm h0
      exact ⟨_, List.mem_map_of_mem (h.keeps_line hm h0), mergedOne_line m⟩
    · intro m hm id hid hstatus hown
      refine ⟨_, List.mem_map_of_mem (Inv.keeps_failed hunlike hm hid hstatus hown), ?_⟩
      rw [mergedOne_id]
      refine ⟨hid, ?_⟩
      have hline := (h.fits m hm).line_of_unsent hid (by rw [hstatus]; exact (fun hno => by cases hno))
      rcases mergedOne_cases (batch server lines) m with hsame | ⟨x, hx, hl, h0, heq⟩
      · rw [hsame]
        exact hstatus
      · omega

theorem inv_setMessages (h : Inv server v) (hnodup : lines.Nodup) (hpos : 0 ∉ lines)
    (hne : lines ≠ []) (hunlike : Unlike server v lines) :
    Inv server { v with
      messages := setMessages v.messages (batch server lines), delivered := lines } := by
  have hbatch : batch server lines ≠ [] := fun hnil => hne (List.map_eq_nil_iff.mp hnil)
  rw [setMessages, if_neg hbatch]
  refine ⟨?_, ?_, h.added, ?_, ?_⟩
  · intro m hm
    rcases List.mem_append.mp hm with hnew | hkept
    · obtain ⟨n, hn, rfl⟩ := (mem_batch server).mp hnew
      exact fits_message (pos_of_mem hpos hn)
    · exact h.fits m (mem_of_mem_dropFailed (List.mem_of_mem_filter hkept))
  · refine List.pairwise_append.mpr ⟨pairwise_batch server hnodup, (h.apart.filter _).filter _, ?_⟩
    intro a ha b hb
    obtain ⟨-, hkeep⟩ := List.mem_filter.mp hb
    obtain ⟨n, hn, rfl⟩ := (mem_batch server).mp ha
    refine ⟨fun _ => ?_, fun p hp => (by cases hp)⟩
    exact hasLine_eq_false.mp (of_decide_eq_true hkeep).2 _ ha
  · intro n hn
    exact ⟨pos_of_mem hpos hn, server.message n,
      List.mem_append_left _ ((mem_batch server).mpr ⟨n, hn, rfl⟩), rfl⟩
  · intro p hp
    obtain ⟨hown, m, hm, hid, hstatus⟩ := h.failed p hp
    refine ⟨hown, m, List.mem_append_right _ (List.mem_filter.mpr ⟨?_, ?_⟩), hid, hstatus⟩
    · exact Inv.keeps_failed hunlike hm hid hstatus hown
    · refine decide_eq_true ⟨by rw [hid]; rfl, hasLine_eq_false.mpr ?_⟩
      intro x hx
      obtain ⟨n, hn, rfl⟩ := (mem_batch server).mp hx
      have hline := (h.fits m hm).line_of_unsent hid (by rw [hstatus]; exact (fun hno => by cases hno))
      have hx : (server.message n).lineNumber = n := rfl
      omega

end Batches

section Views
variable {server : Server} {v w : View} {a : Action}

theorem inv_step (h : Inv server v) (hkeeps : Keeps server v a) (hstep : step server v a = some w) :
    Inv server w := by
  cases a with
  | addPendingMessage id pointTo author timestamp body =>
    simp only [step] at hstep
    split at hstep
    · cases hstep
    · rename_i hfresh
      cases hstep
      exact inv_addPendingMessage h hkeeps hfresh
  | markPendingSent id lineNumber =>
    cases hstep
    obtain ⟨n, hown, rfl⟩ := hkeeps
    exact inv_markPendingSent h hown
  | markPendingFailed id lineNumber =>
    cases hstep
    obtain ⟨rfl, hequal⟩ := hkeeps
    exact inv_markPendingFailed h hequal
  | addMessages lines =>
    simp only [step] at hstep
    split at hstep
    · cases hstep
    · rename_i hpos
      cases hstep
      exact inv_addMessages h hkeeps.1 hpos hkeeps.2
  | prependMessages lines =>
    simp only [step] at hstep
    split at hstep
    · cases hstep
    · rename_i hpos
      cases hstep
      exact inv_prependMessages h hkeeps hpos
  | setMessages lines =>
    simp only [step] at hstep
    split at hstep
    · cases hstep
    · rename_i hpos
      cases hstep
      exact inv_setMessages h hkeeps.1 (fun h0 => hpos (.inl h0)) (fun hnil => hpos (.inr hnil))
        hkeeps.2
  | removePendingMessage id =>
    cases hstep
    exact inv_removePendingMessage h hkeeps

def ownSend : Action := .addPendingMessage 0 0 "ben".toList "t".toList "yes".toList

/-- Batches that overlap, a send that is stored and one that is lost. -/
def overlapping : List Action :=
  [.setMessages [1], ownSend, .addPendingMessage 1 0 "ben".toList "t".toList "lost".toList,
    .markPendingFailed 1 none, .addMessages [1, 2], .markPendingSent 0 2, .prependMessages [2, 1],
    .setMessages [1, 2]]

end Views

end ChatMessages
