import GitIM.FileTree
import GitIM.TextScan
import Mathlib.Data.List.Sort

/-!
# Card reminders among the messages

The client shows reminders of changed cards between the messages of a channel. A reminder with an
anchor follows the first message of that line; one without an anchor goes by the time at which it was
first received. Messages that are still being sent stay at the bottom.
-/

namespace CardReminders

open TextLines TextScan FileTree

section Records

inductive MessageStatus where
  | sending
  | sent
  | failed
  deriving DecidableEq

structure CardChangeMeta where
  cardId : Text
  cardChannel : Text
  anchorLine : Int
  firstTargetLine : Option Int
  targetLine : Option Int
  cardTitle : Option Text
  authors : List Text
  count : Int
  deriving DecidableEq

/-- The payload of an event; that of other events is left as text. -/
inductive EventMeta where
  | cardChange (info : CardChangeMeta)
  | other (json : Text)
  deriving DecidableEq

structure Message where
  type : Option Text
  lineNumber : Int
  pointTo : Int
  author : Text
  timestamp : Text
  body : Text
  recipients : Option (List Text)
  eventType : Option Text
  info : Option EventMeta
  status : Option MessageStatus
  pendingId : Option Text
  ephemeralId : Option Text
  deriving DecidableEq

structure CardChangeEvent where
  id : Text
  cardId : Text
  cardChannel : Text
  anchorLine : Int
  firstReceivedAt : Option Int
  firstTargetLine : Option Int
  targetLine : Option Int
  cardTitle : Option Text
  authors : List Text
  count : Int
  receivedAt : Int
  deriving DecidableEq

end Records

section Times

/-- The number of the first day of a month since 1970; months are counted from zero. -/
def firstDay (year month : Int) : Int :=
  let y := year + month / 12
  let m := month % 12 + 1
  let y := if m ≤ 2 then y - 1 else y
  let era := y / 400
  let yearOfEra := y - era * 400
  let dayOfYear := (153 * (if m > 2 then m - 3 else m + 9) + 2) / 5
  era * 146097 + (yearOfEra * 365 + yearOfEra / 4 - yearOfEra / 100 + dayOfYear) - 719468

/-- `Date.UTC`; the years up to 99 are those of the twentieth century. -/
def dateUtc (year month day hour minute second : Int) : Int :=
  let year := if 0 ≤ year ∧ year ≤ 99 then 1900 + year else year
  ((firstDay year month + (day - 1)) * 86400 + hour * 3600 + minute * 60 + second) * 1000

def digitsValue (t : Text) : Int := (Nat.ofDigitChars 10 t 0 : Nat)

/-- The timestamp forms of the daemon, whose fields are separated or not. -/
def stampTime (separator t : Text) : Option Int := do
  let (year, t) ← scanExact Char.isDigit 4 t
  let t ← stripPrefix separator t
  let (month, t) ← scanExact Char.isDigit 2 t
  let t ← stripPrefix separator t
  let (day, t) ← scanExact Char.isDigit 2 t
  let t ← stripPrefix ['T'] t
  let (hour, t) ← scanExact Char.isDigit 2 t
  let t ← stripPrefix separator t
  let (minute, t) ← scanExact Char.isDigit 2 t
  let t ← stripPrefix separator t
  let (second, t) ← scanExact Char.isDigit 2 t
  if t = ['Z'] then
    some (dateUtc (digitsValue year) (digitsValue month - 1) (digitsValue day) (digitsValue hour)
      (digitsValue minute) (digitsValue second))
  else none

/-- The time of a timestamp; other forms are left to the `Date` constructor. -/
def parseUtcTimestamp (dateParse : Text → Option Int) (t : Text) : Option Int :=
  ((stampTime [] t).or (stampTime ['-'] t)).or (dateParse t)

/-- The largest time of a `Date`. -/
def maxTime : Int := 8640000000000000

/-- `new Date(t).toISOString()`, which throws when the time is out of range. -/
def toISOString (isoFormat : Int → Text) (t : Int) : Option Text :=
  if -maxTime ≤ t ∧ t ≤ maxTime then some (isoFormat t) else none

end Times

section Merge
variable (dateParse : Text → Option Int) (isoFormat : Int → Text)

def cardChangeEventToMessage (event : CardChangeEvent) : Option Message :=
  (toISOString isoFormat event.receivedAt).map fun timestamp =>
    { type := some "event".toList
      eventType := some "card_change".toList
      lineNumber := event.anchorLine
      pointTo := 0
      author := []
      timestamp := timestamp
      body := []
      recipients := none
      info := some (.cardChange ⟨event.cardId, event.cardChannel, event.anchorLine,
        event.firstTargetLine, event.targetLine, event.cardTitle, event.authors, event.count⟩)
      status := none
      pendingId := none
      ephemeralId := some event.id }

def placementTime (event : CardChangeEvent) : Int := event.firstReceivedAt.getD event.receivedAt

/-- A message that is stored or sent; an empty pending id counts as none. -/
def isReal (m : Message) : Bool :=
  !(decide (m.lineNumber ≤ 0) ||
    ((m.pendingId.any fun id => decide (id ≠ [])) && decide (m.status ≠ some .sent)))

/-- A place of the merged list: a message, or a reminder before it is turned into one. -/
abbrev Placed := Message ⊕ CardChangeEvent

def addAnchored (byAnchor : List (Int × List CardChangeEvent)) (e : CardChangeEvent) :
    List (Int × List CardChangeEvent) :=
  upsert (fun list => list.getD [] ++ [e]) e.anchorLine byAnchor

def anchoredBy (events : List CardChangeEvent) : List (Int × List CardChangeEvent) :=
  (events.filter fun e => decide (0 < e.anchorLine)).foldl addAnchored []

def unanchoredOf (events : List CardChangeEvent) : List CardChangeEvent :=
  (events.filter fun e => decide (e.anchorLine ≤ 0)).insertionSort fun a b =>
    placementTime a ≤ placementTime b

/-- The second of a message, when its timestamp can be read. -/
def messageSecond (m : Message) : Option Int :=
  (parseUtcTimestamp dateParse m.timestamp).map fun t => t / 1000

/-- Whether a reminder goes in front of a message. -/
def isDue (m : Message) (e : CardChangeEvent) : Bool :=
  (messageSecond dateParse m).any fun second => decide (placementTime e / 1000 ≤ second)

/-- The loop over the stored messages and the two flushes behind it. -/
def place : List Message → List CardChangeEvent → List (Int × List CardChangeEvent) → List Placed
  | [], left, byAnchor =>
    ((byAnchor.insertionSort fun a b => a.1 ≤ b.1).flatMap Prod.snd).map .inr ++ left.map .inr
  | m :: real, left, byAnchor =>
    (left.takeWhile (isDue dateParse m)).map .inr ++ .inl m ::
      (((byAnchor.lookup m.lineNumber).getD []).map .inr ++
        place real (left.dropWhile (isDue dateParse m))
          (byAnchor.filter fun p => decide (p.1 ≠ m.lineNumber)))

def placeAll (messages : List Message) (events : List CardChangeEvent) : List Placed :=
  place dateParse (messages.filter isReal) (unanchoredOf events) (anchoredBy events) ++
    (messages.filter fun m => !isReal m).map .inl

def shown : Placed → Option Message
  | .inl m => some m
  | .inr e => cardChangeEventToMessage isoFormat e

/-- The merged list; there is none when a reminder cannot be turned into a message. -/
def mergeCardChangeEvents (messages : List Message) (events : List CardChangeEvent) :
    Option (List Message) :=
  if events = [] then some messages
  else (placeAll dateParse messages events).mapM (shown isoFormat)

end Merge

section Anchors
variable {events : List CardChangeEvent} {byAnchor : List (Int × List CardChangeEvent)}

def eventsAt (events : List CardChangeEvent) (line : Int) : List CardChangeEvent :=
  events.filter fun e => decide (e.anchorLine = line)

/-- The reminders of a map, anchor after anchor. -/
def entries (byAnchor : List (Int × List CardChangeEvent)) : List CardChangeEvent :=
  byAnchor.flatMap Prod.snd

theorem addAnchored_nodup (h : (byAnchor.map Prod.fst).Nodup) (e : CardChangeEvent) :
    ((addAnchored byAnchor e).map Prod.fst).Nodup := by
  rw [addAnchored]
  by_cases hmem : e.anchorLine ∈ byAnchor.map Prod.fst
  · rw [keys_upsert hmem]
    exact h
  · rw [upsert_of_not_mem hmem, List.map_append]
    refine List.nodup_append.mpr ⟨h, List.nodup_singleton _, ?_⟩
    intro k hk k' hk' heq
    rw [List.map_singleton, List.mem_singleton] at hk'
    have hkey : k = e.anchorLine := heq.trans hk'
    exact hmem (hkey ▸ hk)

theorem anchored_nodup (more : List CardChangeEvent) (h : (byAnchor.map Prod.fst).Nodup) :
    ((more.foldl addAnchored byAnchor).map Prod.fst).Nodup := by
  induction more generalizing byAnchor with
  | nil => exact h
  | cons e more ih => exact ih (addAnchored_nodup h e)

/-- The reminders of one anchor are kept in the order in which they come. -/
theorem lookup_anchored (more : List CardChangeEvent) (line : Int) :
    ((more.foldl addAnchored byAnchor).lookup line).getD [] =
      (byAnchor.lookup line).getD [] ++ eventsAt more line := by
  induction more generalizing byAnchor with
  | nil => rw [List.foldl_nil, eventsAt, List.filter_nil, List.append_nil]
  | cons e more ih =>
    rw [List.foldl_cons, ih, addAnchored, lookup_upsert]
    by_cases hline : line = e.anchorLine
    · subst hline
      rw [if_pos rfl, Option.getD_some, eventsAt, eventsAt, List.filter_cons_of_pos (by simp),
        List.append_assoc, List.singleton_append]
    · rw [if_neg hline, eventsAt, eventsAt, List.filter_cons_of_neg (by simpa using Ne.symm hline)]

theorem entries_upsert (e : CardChangeEvent) :
    (entries (addAnchored byAnchor e)).Perm (entries byAnchor ++ [e]) := by
  rw [addAnchored]
  induction byAnchor with
  | nil => exact List.Perm.refl _
  | cons head rest ih =>
    obtain ⟨k, list⟩ := head
    rw [upsert]
    split
    · rw [Option.getD_some, entries, entries, List.flatMap_cons, List.flatMap_cons, List.append_assoc,
        List.append_assoc]
      exact List.Perm.append_left list List.perm_append_comm
    · rw [entries, entries, List.flatMap_cons, List.flatMap_cons, List.append_assoc]
      exact List.Perm.append_left list ih

theorem entries_anchored (more : List CardChangeEvent) :
    (entries (more.foldl addAnchored byAnchor)).Perm (entries byAnchor ++ more) := by
  induction more generalizing byAnchor with
  | nil =>
    rw [List.foldl_nil, List.append_nil]
  | cons e more ih =>
    rw [List.foldl_cons, ← List.singleton_append, ← List.append_assoc]
    exact ih.trans (List.Perm.append_right more (entries_upsert e))

/-- Taking an anchor out of the map takes out its reminders. -/
theorem entries_take (h : (byAnchor.map Prod.fst).Nodup) (line : Int) :
    (entries byAnchor).Perm ((byAnchor.lookup line).getD [] ++
      entries (byAnchor.filter fun p => decide (p.1 ≠ line))) := by
  induction byAnchor with
  | nil => exact List.Perm.refl _
  | cons head rest ih =>
    obtain ⟨k, list⟩ := head
    rw [List.map_cons, List.nodup_cons] at h
    rw [lookup_cons_ite]
    by_cases hk : line = k
    · subst hk
      have hrest : (rest.filter fun p => decide (p.1 ≠ line)) = rest := by
        apply List.filter_eq_self.mpr
        intro p hp
        apply decide_eq_true
        intro heq
        exact h.1 (List.mem_map.mpr ⟨p, hp, heq⟩)
      rw [if_pos rfl, Option.getD_some, List.filter_cons_of_neg (by simp), hrest, entries, entries,
        List.flatMap_cons]
    · rw [if_neg hk, List.filter_cons_of_pos (by simpa using Ne.symm hk), entries, List.flatMap_cons]
      refine (List.Perm.append_left list (ih h.2)).trans ?_
      rw [entries, entries, List.flatMap_cons, ← List.append_assoc, ← List.append_assoc]
      exact List.Perm.append_right _ List.perm_append_comm

theorem lookup_filter_ne {line other : Int} (h : other ≠ line) :
    (byAnchor.filter fun p => decide (p.1 ≠ line)).lookup other = byAnchor.lookup other := by
  induction byAnchor with
  | nil => rfl
  | cons head rest ih =>
    obtain ⟨k, list⟩ := head
    by_cases hk : k = line
    · have hother : other ≠ k := fun heq => h (heq.trans hk)
      rw [List.filter_cons_of_neg (by simpa using hk), ih, lookup_cons_ite, if_neg hother]
    · rw [List.filter_cons_of_pos (by simpa using hk), lookup_cons_ite, lookup_cons_ite, ih]

end Anchors

section Placing
variable {dateParse : Text → Option Int} {real : List Message} {left : List CardChangeEvent}
variable {byAnchor : List (Int × List CardChangeEvent)} {placed : List Placed}

/-- The messages of a merged list. -/
def messagesOf (placed : List Placed) : List Message := placed.filterMap Sum.getLeft?

theorem messagesOf_append (a b : List Placed) :
    messagesOf (a ++ b) = messagesOf a ++ messagesOf b := List.filterMap_append

theorem messagesOf_cons (m : Message) (placed : List Placed) :
    messagesOf (.inl m :: placed) = m :: messagesOf placed := rfl

theorem messagesOf_reminders (events : List CardChangeEvent) :
    messagesOf (events.map .inr) = [] := by
  rw [messagesOf, List.filterMap_map]
  exact List.filterMap_eq_nil_iff.mpr fun _ _ => rfl

theorem messagesOf_messages (messages : List Message) : messagesOf (messages.map .inl) = messages := by
  rw [messagesOf, List.filterMap_map]
  exact List.filterMap_some

/-- The stored messages stay as they are. -/
theorem messagesOf_place : messagesOf (place dateParse real left byAnchor) = real := by
  induction real generalizing left byAnchor with
  | nil => rw [place, messagesOf_append, messagesOf_reminders, messagesOf_reminders, List.append_nil]
  | cons m real ih =>
    rw [place, messagesOf_append, messagesOf_reminders, List.nil_append, messagesOf_cons,
      messagesOf_append, messagesOf_reminders, List.nil_append, ih]

/-- Every message and every reminder has one place. -/
theorem place_perm (h : (byAnchor.map Prod.fst).Nodup) :
    (place dateParse real left byAnchor).Perm
      (real.map .inl ++ (left ++ entries byAnchor).map .inr) := by
  induction real generalizing left byAnchor with
  | nil =>
    rw [place, List.map_nil, List.nil_append, List.map_append]
    refine List.perm_append_comm.trans (List.Perm.append_left _ ?_)
    exact ((List.perm_insertionSort _ byAnchor).flatMap_right Prod.snd).map _
  | cons m real ih =>
    have hkeys : ((byAnchor.filter fun p => decide (p.1 ≠ m.lineNumber)).map Prod.fst).Nodup :=
      h.sublist (List.filter_sublist.map Prod.fst)
    have hrest : (place dateParse real (left.dropWhile (isDue dateParse m))
        (byAnchor.filter fun p => decide (p.1 ≠ m.lineNumber))).Perm _ := ih hkeys
    have htake := entries_take h m.lineNumber
    generalize hinserted : (byAnchor.lookup m.lineNumber).getD [] = inserted at *
    generalize hlater : (byAnchor.filter fun p => decide (p.1 ≠ m.lineNumber)) = later at *
    have hleft : left = left.takeWhile (isDue dateParse m) ++ left.dropWhile (isDue dateParse m) :=
      List.takeWhile_append_dropWhile.symm
    rw [place, hinserted, hlater]
    generalize left.takeWhile (isDue dateParse m) = now at *
    generalize left.dropWhile (isDue dateParse m) = rest at *
    subst hleft
    rw [List.map_cons, List.cons_append]
    refine List.perm_middle.trans (List.Perm.cons _ ?_)
    have hreminders : ((now ++ rest ++ entries byAnchor).map Sum.inr : List Placed).Perm
        (now.map .inr ++ (inserted.map .inr ++ (rest ++ entries later).map .inr)) := by
      rw [← List.map_append, ← List.map_append]
      refine List.Perm.map _ ?_
      rw [List.append_assoc]
      refine List.Perm.append_left now ?_
      refine (List.Perm.append_left rest htake).trans ?_
      rw [← List.append_assoc, ← List.append_assoc]
      exact List.Perm.append_right _ List.perm_append_comm
    refine List.Perm.trans ?_ (List.Perm.append_left _ hreminders.symm)
    refine (List.Perm.append_left _ (List.Perm.append_left _ hrest)).trans ?_
    refine List.Perm.trans (List.Perm.append_left _ ?_) (List.perm_append_comm_assoc _ _ _)
    exact List.perm_append_comm_assoc _ _ _

/-- The reminders of a line follow the first stored message of that line. -/
theorem place_anchored {line : Int} (h : ∃ m ∈ real, m.lineNumber = line) :
    ∃ before m after, place dateParse real left byAnchor =
      before ++ .inl m :: (((byAnchor.lookup line).getD []).map .inr ++ after) ∧
        m.lineNumber = line ∧ ∀ x ∈ messagesOf before, x.lineNumber ≠ line := by
  induction real generalizing left byAnchor with
  | nil =>
    obtain ⟨m, hm, -⟩ := h
    cases hm
  | cons m real ih =>
    rw [place]
    by_cases hline : m.lineNumber = line
    · refine ⟨_, m, _, by rw [← hline], hline, ?_⟩
      rw [messagesOf_reminders]
      intro x hx
      cases hx
    · have hlater : ∃ x ∈ real, x.lineNumber = line := by
        obtain ⟨x, hx, hat⟩ := h
        rcases List.mem_cons.mp hx with rfl | hx
        · exact absurd hat hline
        · exact ⟨x, hx, hat⟩
      have hrest : ∃ before first after, place dateParse real (left.dropWhile (isDue dateParse m))
          (byAnchor.filter fun p => decide (p.1 ≠ m.lineNumber)) = _ ∧ _ := ih hlater
      obtain ⟨before, first, after, hsplit, hat, hbefore⟩ := hrest
      rw [lookup_filter_ne (Ne.symm hline)] at hsplit
      rw [hsplit]
      refine ⟨(left.takeWhile (isDue dateParse m)).map .inr ++ .inl m ::
        (((byAnchor.lookup m.lineNumber).getD []).map .inr ++ before), first, after, ?_, hat, ?_⟩
      · rw [List.append_assoc, List.cons_append, List.append_assoc]
      · rw [messagesOf_append, messagesOf_reminders, List.nil_append, messagesOf_cons,
          messagesOf_append, messagesOf_reminders, List.nil_append]
        intro x hx
        rcases List.mem_cons.mp hx with rfl | hx
        · exact hline
        · exact hbefore x hx

theorem split_append {α : Type} {u v a b : List α} {x : α} (h : u ++ v = a ++ x :: b) :
    (∃ b', u = a ++ x :: b') ∨ ∃ a', a = u ++ a' ∧ v = a' ++ x :: b := by
  rcases List.append_eq_append_iff.mp h with ⟨a', ha, hv⟩ | ⟨c, hu, hc⟩
  · exact .inr ⟨a', ha, hv⟩
  · cases c with
    | nil => exact .inr ⟨[], by rw [hu, List.append_nil, List.append_nil], hc.symm⟩
    | cons y c =>
      obtain ⟨rfl, -⟩ := List.cons.inj hc
      exact .inl ⟨c, hu⟩

theorem messagesOf_split {events : List CardChangeEvent} {before after : List Placed} {e : CardChangeEvent}
    (h : (events.map .inr : List Placed) = before ++ .inr e :: after) :
    messagesOf before = [] ∧ e ∈ events := by
  constructor
  · have hnone := messagesOf_reminders events
    rw [h, messagesOf_append, List.append_eq_nil_iff] at hnone
    exact hnone.1
  · have hmem : (Sum.inr e : Placed) ∈ events.map .inr := by
      rw [h]
      exact List.mem_append_right _ List.mem_cons_self
    obtain ⟨e', he', heq⟩ := List.mem_map.mp hmem
    exact Sum.inr.inj heq ▸ he'

/-- In the order of their times, what comes after a reminder that is not due is not due. -/
theorem not_due_of_mem_dropWhile {m : Message} {e : CardChangeEvent}
    (hsorted : left.Pairwise fun a b => placementTime a ≤ placementTime b)
    (he : e ∈ left.dropWhile (isDue dateParse m)) : isDue dateParse m e = false := by
  have hrest : (left.dropWhile (isDue dateParse m)).Pairwise
      fun a b => placementTime a ≤ placementTime b :=
    hsorted.sublist (List.dropWhile_suffix _).sublist
  have hhead := List.head?_dropWhile_not (isDue dateParse m) left
  cases hdrop : left.dropWhile (isDue dateParse m) with
  | nil =>
    rw [hdrop] at he
    cases he
  | cons d rest =>
    rw [hdrop] at he hrest hhead
    have hd : isDue dateParse m d = false := by simpa using hhead
    rcases List.mem_cons.mp he with rfl | he
    · exact hd
    · have hle := (List.pairwise_cons.mp hrest).1 e he
      rw [isDue] at hd ⊢
      cases hsecond : messageSecond dateParse m with
      | none => rfl
      | some second =>
        rw [hsecond] at hd
        simp only [Option.any_some, decide_eq_false_iff_not] at hd ⊢
        omega

/-- A reminder without anchor comes after the stored messages in front of the first one that was
sent in the same second or later. -/
theorem place_unanchored (h : (byAnchor.map Prod.fst).Nodup)
    (hanchors : ∀ e ∈ entries byAnchor, 0 < e.anchorLine)
    (hsorted : left.Pairwise fun a b => placementTime a ≤ placementTime b)
    {e : CardChangeEvent} (he : e.anchorLine ≤ 0) {before after : List Placed}
    (hsplit : place dateParse real left byAnchor = before ++ .inr e :: after) :
    messagesOf before = real.takeWhile fun m => !isDue dateParse m e := by
  induction real generalizing left byAnchor before with
  | nil =>
    rw [place, ← List.map_append] at hsplit
    exact (messagesOf_split hsplit).1
  | cons m real ih =>
    have hkeys : ((byAnchor.filter fun p => decide (p.1 ≠ m.lineNumber)).map Prod.fst).Nodup :=
      h.sublist (List.filter_sublist.map Prod.fst)
    have htake := entries_take h m.lineNumber
    rw [place] at hsplit
    rcases split_append hsplit with ⟨b', hnow⟩ | ⟨front, rfl, hbehind⟩
    · obtain ⟨hnone, hmem⟩ := messagesOf_split hnow
      have hdue : isDue dateParse m e = true := List.all_eq_true.mp List.all_takeWhile e hmem
      rw [hnone, List.takeWhile_cons_of_neg (by simp [hdue])]
    · cases front with
      | nil => cases hbehind
      | cons first front =>
        obtain ⟨rfl, hremaining⟩ := List.cons.inj hbehind
        rcases split_append hremaining with ⟨b', hinserted⟩ | ⟨front, rfl, hrest⟩
        · have hmem := htake.symm.subset (List.mem_append_left _ (messagesOf_split hinserted).2)
          have hpos := hanchors e hmem
          omega
        · have hlater : ∀ x ∈ entries (byAnchor.filter fun p => decide (p.1 ≠ m.lineNumber)),
              0 < x.anchorLine := fun x hx =>
            hanchors x (htake.symm.subset (List.mem_append_right _ hx))
          have hdropped : (left.dropWhile (isDue dateParse m)).Pairwise
              fun a b => placementTime a ≤ placementTime b :=
            hsorted.sublist (List.dropWhile_suffix _).sublist
          have hfront := ih hkeys hlater hdropped hrest
          have hplace : (Sum.inr e : Placed) ∈ place dateParse real
              (left.dropWhile (isDue dateParse m))
              (byAnchor.filter fun p => decide (p.1 ≠ m.lineNumber)) := by
            rw [hrest]
            exact List.mem_append_right _ List.mem_cons_self
          have hmem : e ∈ left.dropWhile (isDue dateParse m) := by
            rcases List.mem_append.mp ((place_perm hkeys).subset hplace) with hinl | hinr
            · obtain ⟨x, -, hx⟩ := List.mem_map.mp hinl
              cases hx
            · obtain ⟨x, hx, heq⟩ := List.mem_map.mp hinr
              obtain rfl := Sum.inr.inj heq
              rcases List.mem_append.mp hx with hx | hx
              · exact hx
              · have hpos := hlater x hx
                omega
          have hnot := not_due_of_mem_dropWhile hsorted hmem
          rw [messagesOf_append, messagesOf_reminders, List.nil_append, messagesOf_cons,
            messagesOf_append, messagesOf_reminders, List.nil_append, hfront,
            List.takeWhile_cons_of_pos (by simp [hnot])]

end Placing

section Merged
variable {dateParse : Text → Option Int} {isoFormat : Int → Text}
variable {messages : List Message} {events : List CardChangeEvent}

/-- The reminders stand among the messages as the reader expects them. -/
structure Interleaved (dateParse : Text → Option Int) (messages : List Message)
    (events : List CardChangeEvent) (placed : List Placed) : Prop where
  once : placed.Perm (messages.map .inl ++ events.map .inr)
  realOrder : (messagesOf placed).filter isReal = messages.filter isReal
  pendingLast : ∃ front, placed = front ++ (messages.filter fun m => !isReal m).map .inl ∧
    ∀ m ∈ messagesOf front, isReal m = true
  anchored : ∀ line, 0 < line → (∃ m ∈ messages, isReal m = true ∧ m.lineNumber = line) →
    ∃ before m after, placed = before ++ .inl m :: ((eventsAt events line).map .inr ++ after) ∧
      isReal m = true ∧ m.lineNumber = line ∧ ∀ x ∈ messagesOf before, x.lineNumber ≠ line
  unanchored : ∀ e before after, placed = before ++ .inr e :: after → e.anchorLine ≤ 0 →
    messagesOf before = (messages.filter isReal).takeWhile fun m => !isDue dateParse m e

theorem anchoredBy_lookup {line : Int} (h : 0 < line) :
    ((anchoredBy events).lookup line).getD [] = eventsAt events line := by
  have hnone : ([] : List (Int × List CardChangeEvent)).lookup line = none := rfl
  rw [anchoredBy, lookup_anchored, hnone, Option.getD_none, List.nil_append, eventsAt, eventsAt,
    List.filter_filter]
  apply List.filter_congr
  intro e _
  by_cases hline : e.anchorLine = line
  · simp [hline, h]
  · simp [hline]

theorem anchoredBy_positive : ∀ e ∈ entries (anchoredBy events), 0 < e.anchorLine := by
  intro e he
  have hmem := (entries_anchored _).subset he
  exact of_decide_eq_true (List.mem_filter.mp hmem).2

theorem events_perm : (unanchoredOf events ++ entries (anchoredBy events)).Perm events := by
  have hunanchored := List.perm_insertionSort (fun a b => placementTime a ≤ placementTime b)
    (events.filter fun e => decide (e.anchorLine ≤ 0))
  have hanchored : (entries (anchoredBy events)).Perm (events.filter fun e => decide (0 < e.anchorLine)) :=
    entries_anchored _
  refine (hunanchored.append hanchored).trans ?_
  have hsplit := List.filter_append_perm (fun e : CardChangeEvent => decide (e.anchorLine ≤ 0)) events
  have hnot : (events.filter fun e => !decide (e.anchorLine ≤ 0)) =
      events.filter fun e => decide (0 < e.anchorLine) := by
    apply List.filter_congr
    intro e _
    rw [← decide_not]
    exact decide_eq_decide.mpr not_le
  rwa [hnot] at hsplit

theorem placeAll_interleaved (messages : List Message) (events : List CardChangeEvent) :
    Interleaved dateParse messages events (placeAll dateParse messages events) := by
  have hkeys : ((anchoredBy events).map Prod.fst).Nodup := anchored_nodup _ List.nodup_nil
  have hreal : ∀ m ∈ messagesOf (place dateParse (messages.filter isReal) (unanchoredOf events)
      (anchoredBy events)), isReal m = true := by
    rw [messagesOf_place]
    exact fun m hm => (List.mem_filter.mp hm).2
  constructor
  · have hplace : (place dateParse (messages.filter isReal) (unanchoredOf events)
        (anchoredBy events)).Perm ((messages.filter isReal).map .inl ++ events.map .inr) :=
      (place_perm hkeys).trans (List.Perm.append_left _ (events_perm.map _))
    have hmessages : (messages.filter isReal ++ messages.filter fun m => !isReal m).Perm messages :=
      List.filter_append_perm isReal messages
    refine (List.Perm.append_right _ hplace).trans ?_
    rw [List.append_assoc]
    refine (List.Perm.append_left _ List.perm_append_comm).trans ?_
    rw [← List.append_assoc, ← List.map_append]
    exact List.Perm.append_right _ (hmessages.map _)
  · have hpending : (messages.filter fun m => !isReal m).filter isReal = [] := by
      apply List.filter_eq_nil_iff.mpr
      intro m hm
      have hnot := (List.mem_filter.mp hm).2
      simpa using hnot
    have hstored : (messages.filter isReal).filter isReal = messages.filter isReal :=
      List.filter_eq_self.mpr fun m hm => (List.mem_filter.mp hm).2
    rw [placeAll, messagesOf_append, messagesOf_place, messagesOf_messages, List.filter_append,
      hpending, hstored, List.append_nil]
  · exact ⟨_, rfl, hreal⟩
  · rintro line hpos ⟨m, hm, hm', hat⟩
    have hstored : ∃ x ∈ messages.filter isReal, x.lineNumber = line :=
      ⟨m, List.mem_filter.mpr ⟨hm, hm'⟩, hat⟩
    have hanchored : ∃ before first after, place dateParse (messages.filter isReal)
        (unanchoredOf events) (anchoredBy events) = _ ∧ _ := place_anchored hstored
    obtain ⟨before, first, after, hsplit, hline, hbefore⟩ := hanchored
    rw [anchoredBy_lookup hpos] at hsplit
    refine ⟨before, first, after ++ (messages.filter fun m => !isReal m).map .inl, ?_, ?_, hline,
      hbefore⟩
    · rw [placeAll, hsplit, List.append_assoc, List.cons_append, List.append_assoc]
    · apply hreal first
      rw [hsplit, messagesOf_append, messagesOf_cons]
      exact List.mem_append_right _ List.mem_cons_self
  · intro e before after hsplit he
    rw [placeAll] at hsplit
    rcases split_append hsplit with ⟨b', hplace⟩ | ⟨front, rfl, hpending⟩
    · exact place_unanchored hkeys anchoredBy_positive (List.pairwise_insertionSort _ _) he hplace
    · exfalso
      have hmem : (Sum.inr e : Placed) ∈ (messages.filter fun m => !isReal m).map .inl := by
        rw [hpending]
        exact List.mem_append_right _ List.mem_cons_self
      obtain ⟨m, -, hm⟩ := List.mem_map.mp hmem
      cases hm

/-- With reminders whose times are in range, every place of the list can be shown. -/
theorem mapM_shown {placed : List Placed} (h : ∀ e, .inr e ∈ placed →
    -maxTime ≤ e.receivedAt ∧ e.receivedAt ≤ maxTime) :
    ∃ merged, placed.mapM (shown isoFormat) = some merged ∧
      merged.map some = placed.map (shown isoFormat) := by
  induction placed with
  | nil => exact ⟨[], rfl, rfl⟩
  | cons p placed ih =>
    obtain ⟨merged, hmerged, hmap⟩ := ih fun e he => h e (List.mem_cons_of_mem p he)
    have hshown : ∃ m, shown isoFormat p = some m := by
      cases p with
      | inl m => exact ⟨m, rfl⟩
      | inr e =>
        rw [shown, cardChangeEventToMessage, toISOString, if_pos (h e List.mem_cons_self)]
        exact ⟨_, rfl⟩
    obtain ⟨m, hm⟩ := hshown
    refine ⟨m :: merged, ?_, ?_⟩
    · rw [List.mapM_cons, hm, hmerged]
      rfl
    · rw [List.map_cons, List.map_cons, hmap, hm]

/-- Reminders received at times of the calendar are interleaved without loss. -/
theorem cardReminders_interleaved (dateParse : Text → Option Int) (isoFormat : Int → Text)
    (messages : List Message) {events : List CardChangeEvent} (hne : events ≠ [])
    (htimes : ∀ e ∈ events, -maxTime ≤ e.receivedAt ∧ e.receivedAt ≤ maxTime) :
    ∃ placed merged, mergeCardChangeEvents dateParse isoFormat messages events = some merged ∧
      merged.map some = placed.map (shown isoFormat) ∧
      Interleaved dateParse messages events placed := by
  have hplaced : Interleaved dateParse messages events (placeAll dateParse messages events) :=
    placeAll_interleaved messages events
  have hevents : ∀ e, Sum.inr e ∈ placeAll dateParse messages events →
      -maxTime ≤ e.receivedAt ∧ e.receivedAt ≤ maxTime := by
    intro e he
    rcases List.mem_append.mp (hplaced.once.subset he) with hinl | hinr
    · obtain ⟨m, -, hm⟩ := List.mem_map.mp hinl
      cases hm
    · obtain ⟨e', he', heq⟩ := List.mem_map.mp hinr
      exact Sum.inr.inj heq ▸ htimes e' he'
  obtain ⟨merged, hmerged, hmap⟩ := mapM_shown hevents
  exact ⟨_, merged, (if_neg hne).trans hmerged, hmap, hplaced⟩

def storedMessage : Message :=
  ⟨none, 3, 0, "ann".toList, "20260317T120000Z".toList, "done".toList, none, none, none, none, none, none⟩

def reminder (anchorLine receivedAt : Int) : CardChangeEvent :=
  ⟨"r".toList, "20260317-1".toList, "dev".toList, anchorLine, none, none, none, none, ["ann".toList], 1,
    receivedAt⟩

theorem cardReminders_interleaved_sample :
    ∃ placed merged, mergeCardChangeEvents (fun _ => none) (fun _ => []) [storedMessage]
        [reminder 3 1773748860000, reminder 0 1773748700000] = some merged ∧
      merged.map some = placed.map (shown fun _ => []) ∧
      Interleaved (fun _ => none) [storedMessage]
        [reminder 3 1773748860000, reminder 0 1773748700000] placed :=
  cardReminders_interleaved _ _ [storedMessage] (List.cons_ne_nil _ _) (by decide)

/-- A reminder with a time out of range throws and shows nothing. -/
theorem not_cardReminders_interleaved :
    ¬∀ (dateParse : Text → Option Int) (isoFormat : Int → Text) messages events, events ≠ [] →
      ∃ placed merged, mergeCardChangeEvents dateParse isoFormat messages events = some merged ∧
        merged.map some = placed.map (shown isoFormat) ∧
        Interleaved dateParse messages events placed := by
  intro h
  obtain ⟨placed, merged, hmerged, -, -⟩ := h (fun _ => none) (fun _ => []) []
    [reminder 0 8640000000000001] (List.cons_ne_nil _ _)
  have hthrows : mergeCardChangeEvents (fun _ => none) (fun _ => []) []
      [reminder 0 8640000000000001] = none := by decide
  rw [hthrows] at hmerged
  cases hmerged

end Merged

end CardReminders
