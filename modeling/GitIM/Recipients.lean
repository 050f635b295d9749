import GitIM.WebRecipients
import Mathlib.Data.List.Sort

/-!
# The recipients of a channel message

A message goes to the owner of the channel, to the authors and mentions up the chain of messages it
answers, and to those it mentions. The chain follows line numbers that nothing has checked; lines
that were visited end it.
-/

namespace Recipients

open TextLines ThreadFormat ThreadValidation ConflictReplay

section OrderedSets
variable {α : Type} [LinearOrder α]

def insertOrdered (x : α) : List α → List α
  | [] => [x]
  | y :: rest => if x < y then x :: y :: rest else if x = y then y :: rest else y :: insertOrdered x rest

theorem mem_insertOrdered {x y : α} {l : List α} : y ∈ insertOrdered x l ↔ y = x ∨ y ∈ l := by
  induction l with
  | nil => rw [insertOrdered, List.mem_singleton, or_iff_left List.not_mem_nil]
  | cons z rest ih =>
    rw [insertOrdered]
    split
    · rw [List.mem_cons]
    · split
      · rename_i hxz
        rw [hxz, List.mem_cons]
        constructor
        · exact Or.inr
        · rintro (hy | hy)
          · exact .inl hy
          · exact hy
      · rw [List.mem_cons, ih, List.mem_cons]
        exact or_left_comm

theorem insertOrdered_increasing (x : α) {l : List α} (h : l.Pairwise (· < ·)) :
    (insertOrdered x l).Pairwise (· < ·) := by
  induction l with
  | nil => exact List.pairwise_singleton _ x
  | cons y rest ih =>
    obtain ⟨hfirst, hrest⟩ := List.pairwise_cons.mp h
    rw [insertOrdered]
    split
    · rename_i hxy
      refine List.pairwise_cons.mpr ⟨fun z hz => ?_, h⟩
      rcases List.mem_cons.mp hz with rfl | hz
      · exact hxy
      · exact lt_trans hxy (hfirst z hz)
    · rename_i hle
      split
      · exact h
      · rename_i hne
        refine List.pairwise_cons.mpr ⟨fun z hz => ?_, ih hrest⟩
        rcases mem_insertOrdered.mp hz with rfl | hz
        · exact lt_of_le_of_ne (not_lt.mp hle) (Ne.symm hne)
        · exact hfirst z hz

/-- A set that is kept as a strictly increasing list. -/
structure OrderedSet (α : Type) [LinearOrder α] where
  elems : List α
  increasing : elems.Pairwise (· < ·)

namespace OrderedSet

def empty : OrderedSet α := ⟨[], List.Pairwise.nil⟩

def insert (s : OrderedSet α) (x : α) : OrderedSet α :=
  ⟨insertOrdered x s.elems, insertOrdered_increasing x s.increasing⟩

def insertAll (s : OrderedSet α) (xs : List α) : OrderedSet α := xs.foldl insert s

theorem mem_insert {s : OrderedSet α} {x y : α} : y ∈ (s.insert x).elems ↔ y = x ∨ y ∈ s.elems :=
  mem_insertOrdered

theorem mem_insertAll {s : OrderedSet α} {xs : List α} {y : α} :
    y ∈ (s.insertAll xs).elems ↔ y ∈ xs ∨ y ∈ s.elems := by
  induction xs generalizing s with
  | nil => exact (or_iff_right List.not_mem_nil).symm
  | cons x xs ih =>
    rw [insertAll, List.foldl_cons, ← insertAll, ih, mem_insert, List.mem_cons, or_left_comm,
      or_assoc]

theorem not_mem_empty {y : α} : y ∉ (empty : OrderedSet α).elems := List.not_mem_nil

end OrderedSet

end OrderedSets

section Walk

/-- What the computation reads of a message. -/
structure Message where
  lineNumber : Nat
  pointTo : Nat
  author : Handler
  mentions : List Handler
  deriving DecidableEq

variable (messages : List Message)

/-- The first message with a line number. -/
def messageAt (line : Nat) : Option Message := messages.find? (·.lineNumber = line)

def unvisited (visited : List Nat) : List Message :=
  messages.filter fun m => decide (m.lineNumber ∉ visited)

variable {messages} in
theorem length_unvisited_lt {visited : List Nat} {cursor : Nat} {ancestor : Message}
    (hcursor : ¬(cursor = 0 ∨ cursor ∈ visited)) (h : messageAt messages cursor = some ancestor) :
    (unvisited messages (cursor :: visited)).length < (unvisited messages visited).length := by
  have hline : ancestor.lineNumber = cursor := by simpa using List.find?_some h
  have hmem : ancestor ∈ unvisited messages visited := by
    apply List.mem_filter.mpr
    refine ⟨List.mem_of_find?_eq_some h, decide_eq_true ?_⟩
    rw [hline]
    exact fun hv => hcursor (.inr hv)
  have hsub : unvisited messages (cursor :: visited) =
      (unvisited messages visited).filter fun m => decide (m.lineNumber ≠ cursor) := by
    rw [unvisited, unvisited, List.filter_filter]
    apply List.filter_congr
    intro m _
    rw [← Bool.decide_and]
    apply decide_eq_decide.mpr
    rw [List.mem_cons, not_or]
  rw [hsub]
  exact List.length_filter_lt_length_iff_exists.mpr ⟨ancestor, hmem, by simp [hline]⟩

def names (handlers : List Handler) : List Text := handlers.map Handler.name

def walk (visited : List Nat) (cursor : Nat) (recipients : OrderedSet Text) : OrderedSet Text :=
  if _hstop : cursor = 0 ∨ cursor ∈ visited then recipients
  else
    match _hfound : messageAt messages cursor with
    | none => recipients
    | some ancestor =>
      walk (cursor :: visited) ancestor.pointTo
        ((recipients.insert ancestor.author.name).insertAll (names ancestor.mentions))
termination_by (unvisited messages visited).length
decreasing_by exact length_unvisited_lt _hstop _hfound

def computeRecipients (message : Message) (channelMeta : ChannelMeta) : List Text :=
  let recipients := OrderedSet.empty
  let recipients :=
    if channelMeta.createdBy = [] then recipients else recipients.insert channelMeta.createdBy
  let recipients := walk messages [] message.pointTo recipients
  (recipients.insertAll (names message.mentions)).elems

/-- The messages reached from a line number by following the lines they answer. -/
inductive Reached (start : Nat) : Message → Prop
  | first {m : Message} (hstart : start ≠ 0) (hfound : messageAt messages start = some m) :
      Reached start m
  | next {m ancestor : Message} (hreached : Reached start m) (hline : m.pointTo ≠ 0)
      (hfound : messageAt messages m.pointTo = some ancestor) : Reached start ancestor

end Walk

section Chain
variable {messages : List Message} {visited : List Nat} {cursor : Nat}
variable {recipients : OrderedSet Text} {name : Text}

/-- A message brings its author and its mentions. -/
def Brings (m : Message) (name : Text) : Prop := name = m.author.name ∨ name ∈ names m.mentions

theorem mem_ancestor {m : Message} :
    name ∈ ((recipients.insert m.author.name).insertAll (names m.mentions)).elems ↔
      Brings m name ∨ name ∈ recipients.elems := by
  rw [OrderedSet.mem_insertAll, OrderedSet.mem_insert, Brings, or_left_comm, or_assoc]

theorem Reached.lift {m ancestor : Message} (hfrom : Reached messages cursor m)
    (h : Reached messages m.pointTo ancestor) : Reached messages cursor ancestor := by
  induction h with
  | first hstart hfound => exact hfrom.next hstart hfound
  | next _ hline hfound ih => exact ih.next hline hfound

/-- What a message reached from a line is: the first message there, or reached from what that one
answers. -/
theorem Reached.split {m ancestor : Message} (hfound : messageAt messages cursor = some m)
    (h : Reached messages cursor ancestor) :
    ancestor = m ∨ Reached messages m.pointTo ancestor := by
  induction h with
  | first _ hfound' => exact .inl (Option.some.inj (hfound'.symm.trans hfound))
  | next _ hline hnext ih =>
    rcases ih with rfl | hreached
    · exact .inr (.first hline hnext)
    · exact .inr (hreached.next hline hnext)

theorem not_reached_zero {m : Message} : ¬Reached messages 0 m := by
  intro h
  induction h with
  | first hstart => exact hstart rfl
  | next _ _ _ ih => exact ih

theorem not_reached_missing {m : Message} (hmissing : messageAt messages cursor = none) :
    ¬Reached messages cursor m := by
  intro h
  induction h with
  | first _ hfound =>
    rw [hmissing] at hfound
    cases hfound
  | next _ _ _ ih => exact ih

theorem walk_stop (h : cursor = 0 ∨ cursor ∈ visited) :
    walk messages visited cursor recipients = recipients := by
  rw [walk, dif_pos h]

theorem walk_missing (h : messageAt messages cursor = none) :
    walk messages visited cursor recipients = recipients := by
  unfold walk
  split
  · rfl
  · split
    · rfl
    · rename_i hfound
      rw [h] at hfound
      cases hfound

theorem walk_found {ancestor : Message} (hstop : ¬(cursor = 0 ∨ cursor ∈ visited))
    (h : messageAt messages cursor = some ancestor) :
    walk messages visited cursor recipients = walk messages (cursor :: visited) ancestor.pointTo
      ((recipients.insert ancestor.author.name).insertAll (names ancestor.mentions)) := by
  rw [walk, dif_neg hstop]
  split
  · rename_i hmissing
    rw [h] at hmissing
    cases hmissing
  · rename_i other hfound
    rw [Option.some.inj (h.symm.trans hfound)]

/-- The walk keeps the recipients it starts with. -/
theorem mem_walk_of_mem (h : name ∈ recipients.elems) :
    name ∈ (walk messages visited cursor recipients).elems := by
  induction visited, cursor, recipients using walk.induct messages with
  | case1 visited cursor recipients hstop =>
    rw [walk_stop hstop]
    exact h
  | case2 visited cursor recipients hstop hmissing =>
    rw [walk_missing hmissing]
    exact h
  | case3 visited cursor recipients hstop ancestor hfound ih =>
    rw [walk_found hstop hfound]
    exact ih (mem_ancestor.mpr (.inr h))

/-- Everything the walk adds was brought by a message of the chain. -/
theorem reached_of_mem_walk (h : name ∈ (walk messages visited cursor recipients).elems) :
    name ∈ recipients.elems ∨ ∃ m, Reached messages cursor m ∧ Brings m name := by
  induction visited, cursor, recipients using walk.induct messages with
  | case1 visited cursor recipients hstop =>
    rw [walk_stop hstop] at h
    exact .inl h
  | case2 visited cursor recipients hstop hmissing =>
    rw [walk_missing hmissing] at h
    exact .inl h
  | case3 visited cursor recipients hstop ancestor hfound ih =>
    rw [walk_found hstop hfound] at h
    have hhere : Reached messages cursor ancestor := .first (fun h0 => hstop (.inl h0)) hfound
    rcases ih h with hold | ⟨m, hm, hbrings⟩
    · rcases mem_ancestor.mp hold with hbrings | hname
      · exact .inr ⟨ancestor, hhere, hbrings⟩
      · exact .inl hname
    · exact .inr ⟨m, hhere.lift hm, hbrings⟩

/-- The messages at the visited lines are among the recipients, and what they answer is visited or
comes next. -/
structure Collected (messages : List Message) (visited : List Nat) (cursor : Nat)
    (recipients : OrderedSet Text) : Prop where
  brought : ∀ line ∈ visited, ∀ m, messageAt messages line = some m →
    ∀ name, Brings m name → name ∈ recipients.elems
  closed : ∀ line ∈ visited, ∀ m, messageAt messages line = some m →
    m.pointTo = 0 ∨ m.pointTo ∈ visited ∨ m.pointTo = cursor

theorem Collected.reached_visited (h : Collected messages visited cursor recipients)
    (hcursor : cursor ∈ visited) {m : Message} (hm : Reached messages cursor m) :
    ∃ line ∈ visited, messageAt messages line = some m := by
  induction hm with
  | first _ hfound => exact ⟨cursor, hcursor, hfound⟩
  | @next m ancestor _ hline hfound ih =>
    obtain ⟨line, hvisited, hm⟩ := ih
    rcases h.closed line hvisited m hm with hzero | hmem | hcur
    · exact absurd hzero hline
    · exact ⟨m.pointTo, hmem, hfound⟩
    · exact ⟨m.pointTo, hcur ▸ hcursor, hfound⟩

theorem Collected.step (h : Collected messages visited cursor recipients) {ancestor : Message}
    (hfound : messageAt messages cursor = some ancestor) :
    Collected messages (cursor :: visited) ancestor.pointTo
      ((recipients.insert ancestor.author.name).insertAll (names ancestor.mentions)) := by
  constructor
  · intro line hline m hm name hbrings
    apply mem_ancestor.mpr
    rcases List.mem_cons.mp hline with rfl | hline
    · obtain rfl : ancestor = m := Option.some.inj (hfound.symm.trans hm)
      exact .inl hbrings
    · exact .inr (h.brought line hline m hm name hbrings)
  · intro line hline m hm
    rcases List.mem_cons.mp hline with rfl | hline
    · obtain rfl : ancestor = m := Option.some.inj (hfound.symm.trans hm)
      exact .inr (.inr rfl)
    · rcases h.closed line hline m hm with hzero | hmem | hcur
      · exact .inl hzero
      · exact .inr (.inl (List.mem_cons_of_mem cursor hmem))
      · exact .inr (.inl (hcur ▸ List.mem_cons_self))

/-- The walk ends only when everything reached has been collected. -/
theorem mem_walk_of_reached (h : Collected messages visited cursor recipients) {m : Message}
    (hm : Reached messages cursor m) (hbrings : Brings m name) :
    name ∈ (walk messages visited cursor recipients).elems := by
  induction visited, cursor, recipients using walk.induct messages with
  | case1 visited cursor recipients hstop =>
    rw [walk_stop hstop]
    rcases hstop with rfl | hvisited
    · exact absurd hm not_reached_zero
    · obtain ⟨line, hline, hat⟩ := h.reached_visited hvisited hm
      exact h.brought line hline m hat name hbrings
  | case2 visited cursor recipients hstop hmissing =>
    exact absurd hm (not_reached_missing hmissing)
  | case3 visited cursor recipients hstop ancestor hfound ih =>
    rw [walk_found hstop hfound]
    rcases hm.split hfound with rfl | hlater
    · exact mem_walk_of_mem (mem_ancestor.mpr (.inl hbrings))
    · exact ih (h.step hfound) hlater

end Chain

section Result
variable (message : Message) (channelMeta : ChannelMeta) (messages : List Message)

/-- The recipients are the owner, the authors and mentions of every message up the chain, whatever
its shape, and those the message mentions, as a strictly increasing list. -/
theorem computeRecipients_exact :
    (computeRecipients messages message channelMeta).Pairwise (· < ·) ∧
      ∀ name, name ∈ computeRecipients messages message channelMeta ↔
        (name = channelMeta.createdBy ∧ name ≠ []) ∨
          (∃ m, Reached messages message.pointTo m ∧ Brings m name) ∨
          name ∈ names message.mentions := by
  have howner : ∀ name, name ∈ (if channelMeta.createdBy = [] then OrderedSet.empty
      else OrderedSet.empty.insert channelMeta.createdBy).elems ↔
      name = channelMeta.createdBy ∧ name ≠ [] := by
    intro name
    split
    · rename_i hempty
      refine iff_of_false OrderedSet.not_mem_empty ?_
      rintro ⟨hname, hne⟩
      exact hne (hname.trans hempty)
    · rename_i hne
      rw [OrderedSet.mem_insert, or_iff_left OrderedSet.not_mem_empty]
      constructor
      · rintro rfl
        exact ⟨rfl, hne⟩
      · exact And.left
  have hstart : ∀ recipients, Collected messages [] message.pointTo recipients := by
    intro recipients
    constructor <;> intro line hline <;> cases hline
  constructor
  · exact OrderedSet.increasing _
  · intro name
    rw [computeRecipients, OrderedSet.mem_insertAll]
    constructor
    · rintro (hmention | hwalk)
      · exact .inr (.inr hmention)
      · rcases reached_of_mem_walk hwalk with hname | hchain
        · exact .inl ((howner name).mp hname)
        · exact .inr (.inl hchain)
    · rintro (hname | ⟨m, hm, hbrings⟩ | hmention)
      · exact .inr (mem_walk_of_mem ((howner name).mpr hname))
      · exact .inr (mem_walk_of_reached (hstart _) hm hbrings)
      · exact .inl hmention

end Result

section ParsedThreads
open WebRecipients (Ancestor namesOf computeRecipients_sorted mem_extractMentions)

variable (messages : List ThreadFormat.Message) {cursor : Nat}

/-- A message of a parsed thread; its mentions are those of its body. -/
def view (m : ThreadFormat.Message) : Message :=
  ⟨m.lineNumber, m.pointTo, m.author, (extractMentions m.body).attach.map fun name =>
    ⟨name.1, .inl (mem_extractMentions.mp name.2).2⟩⟩

theorem names_view (m : ThreadFormat.Message) : names (view m).mentions = extractMentions m.body := by
  rw [names, view, List.map_map]
  exact List.attach_map_subtype_val _

theorem messageAt_view (line : Nat) : messageAt (messages.map view) line =
    (messages.find? (·.lineNumber = line)).map view := by
  rw [messageAt, List.find?_map]
  rfl

theorem brings_view (m : ThreadFormat.Message) (name : Text) :
    Brings (view m) name ↔ name ∈ namesOf m := by
  rw [Brings, names_view, namesOf, List.mem_cons]
  rfl

theorem reached_view_iff (m : Message) :
    Reached (messages.map view) cursor m ↔ ∃ a, Ancestor messages cursor a ∧ view a = m := by
  constructor
  · intro h
    induction h with
    | first hstart hfound =>
      rw [messageAt_view, Option.map_eq_some_iff] at hfound
      obtain ⟨a, ha, rfl⟩ := hfound
      exact ⟨a, ⟨cursor, .refl, hstart, ha⟩, rfl⟩
    | next _ hline hfound ih =>
      obtain ⟨a, ⟨line, hpath, hzero, ha⟩, rfl⟩ := ih
      rw [messageAt_view, Option.map_eq_some_iff] at hfound
      obtain ⟨b, hb, rfl⟩ := hfound
      exact ⟨b, ⟨_, hpath.tail ⟨hzero, a, ha, rfl⟩, hline, hb⟩, rfl⟩
  · rintro ⟨a, ⟨line, hpath, hzero, ha⟩, rfl⟩
    have hat : messageAt (messages.map view) line = some (view a) := by
      rw [messageAt_view, ha, Option.map_some]
    induction hpath generalizing a with
    | refl => exact .first hzero hat
    | @tail previous _ _ hparent ih =>
      obtain ⟨hnonzero, b, hb, rfl⟩ := hparent
      have hbat : messageAt (messages.map view) previous = some (view b) := by
        rw [messageAt_view, hb, Option.map_some]
      exact (ih b hnonzero hb hbat).next hzero hat

/-- On parsed threads the recipients are those that the poll answers with. -/
theorem computeRecipients_view (message : ThreadFormat.Message) (channelMeta : ChannelMeta) :
    computeRecipients (messages.map view) (view message) channelMeta =
      Poll.computeRecipients message channelMeta messages := by
  obtain ⟨hincreasing, hmem⟩ :=
    computeRecipients_exact (view message) channelMeta (messages.map view)
  obtain ⟨hsorted, hnodup⟩ := computeRecipients_sorted message channelMeta messages
  refine List.Perm.eq_of_pairwise' (r := (· ≤ ·)) (hincreasing.imp le_of_lt) hsorted ?_
  rw [List.perm_ext_iff_of_nodup (hincreasing.imp ne_of_lt) hnodup]
  intro name
  rw [hmem, WebRecipients.mem_computeRecipients, and_comm, names_view]
  refine or_congr Iff.rfl (or_congr ?_ Iff.rfl)
  constructor
  · rintro ⟨m, hm, hbrings⟩
    obtain ⟨a, ha, rfl⟩ := (reached_view_iff messages m).mp hm
    exact ⟨a, ha, (brings_view a name).mp hbrings⟩
  · rintro ⟨a, ha, hname⟩
    exact ⟨view a, (reached_view_iff messages _).mpr ⟨a, ha, rfl⟩, (brings_view a name).mpr hname⟩

end ParsedThreads

end Recipients
