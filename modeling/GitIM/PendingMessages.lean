import GitIM.ThreadMerge
import Mathlib.Data.List.Perm.Basic

/-!
# Renumbering of pending messages

The daemon keeps the locally committed messages that are not yet pushed. After a
conflict resolution the sync loop calls `on_renumbered` once per mapping, and every
call rewrites the matching entries in place. Commit ids are an opaque type.
-/

namespace PendingMessages

open TextLines TextScan FileTree ThreadMerge

/-- Path components; empty parts and `.` are skipped. -/
def components (path : Path) : List Text :=
  (path.splitOn '/').filter fun c => c ≠ [] ∧ c ≠ ['.']

def fileName (path : Path) : Option Text :=
  (components path).getLast?.filter fun c => c ≠ "..".toList

/-- The file name up to its last dot; a name with no other than a leading dot is kept. -/
def fileStem (path : Path) : Option Text :=
  (fileName path).map fun name =>
    let parts := name.splitOn '.'
    let stem := ['.'].intercalate parts.dropLast
    if stem = [] then name else stem

def pendingChannelForThreadPath (path : Path) : Text :=
  let parts := components path
  let sessionId := do
    let index ← parts.idxOf? "quick-sessions".toList
    let id ← parts[index + 1]?
    if fileName path = some "discussion.thread".toList then some id else none
  match sessionId with
  | some id => "quick_session:".toList ++ id
  | none => (fileStem path).getD []

structure PendingMessage (Id : Type) where
  channel : Text
  lineNumber : Nat
  commitId : Id
  deriving DecidableEq

structure MessageRenumbered where
  channel : Text
  oldLine : Nat
  newLine : Nat
  deriving DecidableEq

structure RenumberState (Id : Type) where
  pending : List (PendingMessage Id)
  events : List MessageRenumbered
  deriving DecidableEq

section Callback
variable {Id : Type}

/-- The test of `on_renumbered`: the channel of the file and the line as it stands now. -/
def Hits (m : RenumberMapping) (msg : PendingMessage Id) : Prop :=
  msg.channel = pendingChannelForThreadPath m.file ∧ msg.lineNumber = m.oldLine

instance (m : RenumberMapping) (msg : PendingMessage Id) : Decidable (Hits m msg) :=
  inferInstanceAs (Decidable (_ ∧ _))

def moveMessage (m : RenumberMapping) (msg : PendingMessage Id) : PendingMessage Id :=
  if Hits m msg then { msg with lineNumber := m.newLine } else msg

def renumberedEvent (m : RenumberMapping) (msg : PendingMessage Id) : MessageRenumbered :=
  ⟨msg.channel, m.oldLine, m.newLine⟩

/-- One call of the callback, over all pending messages in their order. -/
def onRenumbered (st : RenumberState Id) (m : RenumberMapping) : RenumberState Id where
  pending := st.pending.map (moveMessage m)
  events := st.events ++ (st.pending.filter (Hits m ·)).map (renumberedEvent m)

/-- The loop of `sync_with_push` over the mappings of one resolution. -/
def renumberAll (ms : List RenumberMapping) (st : RenumberState Id) : RenumberState Id :=
  ms.foldl onRenumbered st

end Callback

section Specification
variable {Id : Type}

/-- The directories and the name of a thread file, without the archive in front of them. -/
def activeParts (path : Path) : List Text :=
  let parts := path.splitOn '/'
  if parts.head? = some "archive".toList then parts.tail else parts

/-- The key under which the messages of a thread are sent: the channel or the pair of a direct
message, the directory of a card, or a quick session. -/
def senderKey (path : Path) : Option Text :=
  match activeParts path with
  | [dir, file] =>
    if dir = "channels".toList ∨ dir = "dm".toList then stripSuffix ".thread".toList file else none
  | [dir, id, file] =>
    if dir = "quick-sessions".toList ∧ file = "discussion.thread".toList then
      some ("quick_session:".toList ++ id)
    else none
  | [dir, channel, sub, id, file] =>
    if dir = "channels".toList ∧ sub = "cards".toList ∧ file = "discussion.thread".toList then
      some ("channels/".toList ++ (channel ++ ("/cards/".toList ++ id)))
    else none
  | _ => none

/-- The mapping is of the thread that the message is in, and of its line. -/
def Concerns (m : RenumberMapping) (msg : PendingMessage Id) : Prop :=
  senderKey m.file = some msg.channel ∧ msg.lineNumber = m.oldLine

instance (m : RenumberMapping) (msg : PendingMessage Id) : Decidable (Concerns m msg) :=
  inferInstanceAs (Decidable (_ ∧ _))

/-- What should become of one message: the line of its mapping, or nothing changes. -/
structure MovedOnce (ms : List RenumberMapping) (msg msg' : PendingMessage Id) : Prop where
  channel : msg'.channel = msg.channel
  commitId : msg'.commitId = msg.commitId
  mapped : ∀ m ∈ ms, Concerns m msg → msg'.lineNumber = m.newLine
  other : (∀ m ∈ ms, ¬ Concerns m msg) → msg'.lineNumber = msg.lineNumber

/-- The one event of a message whose line is mapped. -/
def expectedEvent (ms : List RenumberMapping) (msg : PendingMessage Id) :
    Option MessageRenumbered :=
  (ms.find? (Concerns · msg)).map fun m => renumberedEvent m msg

/-- All messages move at once and each moved message is announced once. -/
def RenumbersOnce (ms : List RenumberMapping) (st : RenumberState Id) : Prop :=
  List.Forall₂ (MovedOnce ms) st.pending (renumberAll ms st).pending ∧
  ∃ emitted, (renumberAll ms st).events = st.events ++ emitted ∧
    emitted.Perm (st.pending.filterMap (expectedEvent ms))

/-- The callbacks match a message exactly if it is concerned; the first one that does has the right
line, and the channel has no mapping from that line behind it. -/
structure MatchedOnce (ms : List RenumberMapping) (msg : PendingMessage Id) : Prop where
  concerned : (∃ m ∈ ms, Hits m msg) ↔ ∃ m ∈ ms, Concerns m msg
  first : ∀ before m after, ms = before ++ m :: after → (∀ k ∈ before, ¬ Hits k msg) → Hits m msg →
    (∀ k ∈ after, pendingChannelForThreadPath k.file = msg.channel → k.oldLine ≠ m.newLine) ∧
      ∀ k ∈ ms, Concerns k msg → k.newLine = m.newLine

def NoRematch (ms : List RenumberMapping) (pending : List (PendingMessage Id)) : Prop :=
  ∀ msg ∈ pending, MatchedOnce ms msg

end Specification

section OneMessage
variable {Id : Type}

def moveAll (ms : List RenumberMapping) (msg : PendingMessage Id) : PendingMessage Id :=
  ms.foldl (fun msg m => moveMessage m msg) msg

/-- The events of one message over a run of callbacks. -/
def trace : List RenumberMapping → PendingMessage Id → List MessageRenumbered
  | [], _ => []
  | m :: ms, msg =>
    (if Hits m msg then [renumberedEvent m msg] else []) ++ trace ms (moveMessage m msg)

theorem moveMessage_of_hits {m : RenumberMapping} {msg : PendingMessage Id} (h : Hits m msg) :
    moveMessage m msg = { msg with lineNumber := m.newLine } :=
  if_pos h

theorem moveMessage_of_not_hits {m : RenumberMapping} {msg : PendingMessage Id}
    (h : ¬ Hits m msg) : moveMessage m msg = msg :=
  if_neg h

theorem moveMessage_kept (m : RenumberMapping) (msg : PendingMessage Id) :
    (moveMessage m msg).channel = msg.channel ∧ (moveMessage m msg).commitId = msg.commitId := by
  rw [moveMessage]
  split
  · exact ⟨rfl, rfl⟩
  · exact ⟨rfl, rfl⟩

theorem moveAll_kept (ms : List RenumberMapping) (msg : PendingMessage Id) :
    (moveAll ms msg).channel = msg.channel ∧ (moveAll ms msg).commitId = msg.commitId := by
  induction ms generalizing msg with
  | nil => exact ⟨rfl, rfl⟩
  | cons m ms ih =>
    have hstep := moveMessage_kept m msg
    have hrest := ih (moveMessage m msg)
    exact ⟨hrest.1.trans hstep.1, hrest.2.trans hstep.2⟩

/-- Without a match nothing happens to a message. -/
theorem moveAll_of_no_hits {ms : List RenumberMapping} {msg : PendingMessage Id}
    (h : ∀ m ∈ ms, ¬ Hits m msg) : moveAll ms msg = msg ∧ trace ms msg = [] := by
  induction ms with
  | nil => exact ⟨rfl, rfl⟩
  | cons m ms ih =>
    have hm := h m List.mem_cons_self
    obtain ⟨hmove, htrace⟩ := ih fun k hk => h k (List.mem_cons_of_mem m hk)
    rw [trace, if_neg hm, moveMessage_of_not_hits hm, htrace]
    refine ⟨?_, rfl⟩
    have hfirst : moveAll (m :: ms) msg = moveAll ms (moveMessage m msg) := rfl
    rw [hfirst, moveMessage_of_not_hits hm, hmove]

/-- The first match decides, if the new line is not matched behind it. -/
theorem moveAll_of_first_hit {before after : List RenumberMapping} {m : RenumberMapping}
    {msg : PendingMessage Id} (hbefore : ∀ k ∈ before, ¬ Hits k msg) (hm : Hits m msg)
    (hafter : ∀ k ∈ after, pendingChannelForThreadPath k.file = msg.channel →
      k.oldLine ≠ m.newLine) :
    moveAll (before ++ m :: after) msg = { msg with lineNumber := m.newLine } ∧
      trace (before ++ m :: after) msg = [renumberedEvent m msg] := by
  induction before with
  | nil =>
    have hrest : ∀ k ∈ after, ¬ Hits k ({ msg with lineNumber := m.newLine }) := by
      rintro k hk ⟨hchannel, hline⟩
      exact hafter k hk hchannel.symm hline.symm
    obtain ⟨hmove, htrace⟩ := moveAll_of_no_hits hrest
    rw [List.nil_append, trace, if_pos hm, moveMessage_of_hits hm, htrace]
    refine ⟨?_, rfl⟩
    have hfirst : moveAll (m :: after) msg = moveAll after (moveMessage m msg) := rfl
    rw [hfirst, moveMessage_of_hits hm, hmove]
  | cons k before ih =>
    have hk := hbefore k List.mem_cons_self
    obtain ⟨hmove, htrace⟩ := ih fun j hj => hbefore j (List.mem_cons_of_mem k hj)
    rw [List.cons_append, trace, if_neg hk, moveMessage_of_not_hits hk, htrace]
    refine ⟨?_, rfl⟩
    have hfirst : moveAll (k :: (before ++ m :: after)) msg =
        moveAll (before ++ m :: after) (moveMessage k msg) := rfl
    rw [hfirst, moveMessage_of_not_hits hk, hmove]

/-- Lines only grow, and a match makes them grow. -/
theorem le_moveAll {ms : List RenumberMapping} (grows : ∀ m ∈ ms, m.oldLine < m.newLine)
    (msg : PendingMessage Id) : msg.lineNumber ≤ (moveAll ms msg).lineNumber := by
  induction ms generalizing msg with
  | nil => exact Nat.le_refl _
  | cons m ms ih =>
    have hrest := ih (fun k hk => grows k (List.mem_cons_of_mem m hk)) (moveMessage m msg)
    have hstep : msg.lineNumber ≤ (moveMessage m msg).lineNumber := by
      by_cases hm : Hits m msg
      · have hg := grows m List.mem_cons_self
        have hl := hm.2
        rw [moveMessage_of_hits hm]
        change msg.lineNumber ≤ m.newLine
        omega
      · rw [moveMessage_of_not_hits hm]
    exact Nat.le_trans hstep hrest

/-- A message that is matched at all ends at least at the lowest line its matches allow. -/
theorem le_moveAll_of_hits {ms : List RenumberMapping} {msg : PendingMessage Id} {n : Nat}
    (grows : ∀ m ∈ ms, m.oldLine < m.newLine) (bound : ∀ k ∈ ms, Hits k msg → n ≤ k.newLine)
    {m : RenumberMapping} (hm : m ∈ ms) (hit : Hits m msg) :
    n ≤ (moveAll ms msg).lineNumber := by
  induction ms with
  | nil => simp at hm
  | cons k ms ih =>
    have hgrows : ∀ m ∈ ms, m.oldLine < m.newLine := fun j hj =>
      grows j (List.mem_cons_of_mem k hj)
    have hfirst : moveAll (k :: ms) msg = moveAll ms (moveMessage k msg) := rfl
    by_cases hk : Hits k msg
    · have hrest := le_moveAll hgrows (moveMessage k msg)
      have hline : (moveMessage k msg).lineNumber = k.newLine := by rw [moveMessage_of_hits hk]
      have hb := bound k List.mem_cons_self hk
      rw [hfirst]
      omega
    · have hmem : m ∈ ms := by
        rcases List.mem_cons.mp hm with rfl | hm
        · exact absurd hit hk
        · exact hm
      rw [hfirst, moveMessage_of_not_hits hk]
      exact ih hgrows (fun j hj => bound j (List.mem_cons_of_mem k hj)) hmem

theorem moveAll_append (a b : List RenumberMapping) (msg : PendingMessage Id) :
    moveAll (a ++ b) msg = moveAll b (moveAll a msg) :=
  List.foldl_append

end OneMessage

section AllMessages
variable {Id : Type}

theorem renumberAll_pending (ms : List RenumberMapping) (st : RenumberState Id) :
    (renumberAll ms st).pending = st.pending.map (moveAll ms) := by
  induction ms generalizing st with
  | nil => exact (List.map_id st.pending).symm
  | cons m ms ih =>
    have hfirst : renumberAll (m :: ms) st = renumberAll ms (onRenumbered st m) := rfl
    rw [hfirst, ih, onRenumbered, List.map_map]
    rfl

/-- The callbacks run mapping by mapping; regrouped by message they are the traces. -/
theorem renumberAll_events (ms : List RenumberMapping) (st : RenumberState Id) :
    ∃ emitted, (renumberAll ms st).events = st.events ++ emitted ∧
      emitted.Perm (st.pending.flatMap (trace ms)) := by
  induction ms generalizing st with
  | nil => exact ⟨[], (List.append_nil _).symm, by simp [trace]⟩
  | cons m ms ih =>
    obtain ⟨later, hevents, hperm⟩ := ih (onRenumbered st m)
    refine ⟨(st.pending.filter (Hits m ·)).map (renumberedEvent m) ++ later, ?_, ?_⟩
    · rw [← List.append_assoc]
      exact hevents
    · have hnow : (st.pending.filter (Hits m ·)).map (renumberedEvent m) =
          st.pending.flatMap fun msg => if Hits m msg then [renumberedEvent m msg] else [] := by
        induction st.pending with
        | nil => rfl
        | cons msg rest ihp =>
          rw [List.flatMap_cons, ← ihp]
          by_cases hm : Hits m msg
          · rw [List.filter_cons_of_pos (by simpa using hm), if_pos hm]
            rfl
          · rw [List.filter_cons_of_neg (by simpa using hm), if_neg hm]
            rfl
      have hlater : (onRenumbered st m).pending.flatMap (trace ms) =
          st.pending.flatMap fun msg => trace ms (moveMessage m msg) :=
        List.flatMap_map ..
      rw [hlater] at hperm
      rw [hnow]
      exact (hperm.append_left _).trans (List.flatMap_append_perm _ _ _)

/-- A message that is matched as it is concerned moves as it should. -/
theorem movedOnce_of_matchedOnce {ms : List RenumberMapping} {msg : PendingMessage Id}
    (h : MatchedOnce ms msg) :
    MovedOnce ms msg (moveAll ms msg) ∧ trace ms msg = (expectedEvent ms msg).toList := by
  have hkept := moveAll_kept ms msg
  cases hfind : ms.find? (Hits · msg) with
  | none =>
    have hnone : ∀ m ∈ ms, ¬ Hits m msg := by
      intro m hm
      simpa using List.find?_eq_none.mp hfind m hm
    have hfree : ∀ m ∈ ms, ¬ Concerns m msg := by
      intro m hm hconcerns
      obtain ⟨k, hk, hkit⟩ := h.concerned.mpr ⟨m, hm, hconcerns⟩
      exact hnone k hk hkit
    have hexpected : ms.find? (Concerns · msg) = none :=
      List.find?_eq_none.mpr fun m hm => by simpa using hfree m hm
    obtain ⟨hmove, htrace⟩ := moveAll_of_no_hits hnone
    refine ⟨⟨hkept.1, hkept.2, fun m hm hit => absurd hit (hfree m hm), fun _ => ?_⟩, ?_⟩
    · rw [hmove]
    · rw [htrace, expectedEvent, hexpected]
      rfl
  | some m =>
    obtain ⟨hm, before, after, hms, hbefore⟩ := List.find?_eq_some_iff_append.mp hfind
    have hit : Hits m msg := by simpa using hm
    have hfirst : ∀ k ∈ before, ¬ Hits k msg := by
      intro k hk
      simpa using hbefore k hk
    obtain ⟨hafter, hagree⟩ := h.first before m after hms hfirst hit
    obtain ⟨hmove, htrace⟩ := moveAll_of_first_hit hfirst hit hafter
    rw [← hms] at hmove htrace
    have hmem : m ∈ ms := hms ▸ List.mem_append_right _ List.mem_cons_self
    obtain ⟨j, hj, hconcerns⟩ := h.concerned.mp ⟨m, hmem, hit⟩
    refine ⟨⟨hkept.1, hkept.2, fun k hk hkit => ?_, fun hnone => ?_⟩, ?_⟩
    · rw [hmove]
      exact (hagree k hk hkit).symm
    · exact absurd hconcerns (hnone j hj)
    · cases hexpected : ms.find? (Concerns · msg) with
      | none => exact absurd hconcerns (by simpa using List.find?_eq_none.mp hexpected j hj)
      | some k =>
        have hkit : Concerns k msg := by simpa using List.find?_some hexpected
        rw [htrace, expectedEvent, hexpected, Option.map_some, Option.toList_some, renumberedEvent,
          renumberedEvent, hagree k (List.mem_of_find?_eq_some hexpected) hkit, ← hkit.2, hit.2]

/-- The first match of a message is announced. -/
theorem mem_trace_of_first_hit {before after : List RenumberMapping} {m : RenumberMapping}
    {msg : PendingMessage Id} (hbefore : ∀ k ∈ before, ¬ Hits k msg) (hm : Hits m msg) :
    renumberedEvent m msg ∈ trace (before ++ m :: after) msg := by
  induction before with
  | nil =>
    rw [List.nil_append, trace, if_pos hm]
    exact List.mem_append_left _ List.mem_cons_self
  | cons k before ih =>
    rw [List.cons_append, trace, moveMessage_of_not_hits (hbefore k List.mem_cons_self)]
    exact List.mem_append_right _ (ih fun j hj => hbefore j (List.mem_cons_of_mem k hj))

/-- A match and no concern, or the other way round, leaves a message on a wrong line. -/
theorem concerned_of_movedOnce {ms : List RenumberMapping} {msg : PendingMessage Id}
    (grows : ∀ m ∈ ms, m.oldLine < m.newLine) (h : MovedOnce ms msg (moveAll ms msg)) :
    (∃ m ∈ ms, Hits m msg) ↔ ∃ m ∈ ms, Concerns m msg := by
  constructor
  · rintro ⟨m, hm, hit⟩
    by_contra hnone
    have hline := h.other fun k hk hkit => hnone ⟨k, hk, hkit⟩
    have hmoved : msg.lineNumber + 1 ≤ (moveAll ms msg).lineNumber := by
      refine le_moveAll_of_hits grows (fun k hk hkit => ?_) hm hit
      rw [hkit.2]
      exact grows k hk
    omega
  · rintro ⟨m, hm, hconcerns⟩
    by_contra hnone
    have hstays := (moveAll_of_no_hits fun k hk hkit => hnone ⟨k, hk, hkit⟩).1
    have hline := h.mapped m hm hconcerns
    have hold := hconcerns.2
    have hg := grows m hm
    rw [hstays] at hline
    omega

/-- A message that is matched again ends beyond the line of its first match. -/
theorem no_rematch_of_line {before after : List RenumberMapping} {m : RenumberMapping}
    {msg : PendingMessage Id} (grows : ∀ k ∈ after, k.oldLine < k.newLine)
    (hbefore : ∀ k ∈ before, ¬ Hits k msg) (hit : Hits m msg)
    (hline : (moveAll (before ++ m :: after) msg).lineNumber = m.newLine) :
    ∀ k ∈ after, pendingChannelForThreadPath k.file = msg.channel → k.oldLine ≠ m.newLine := by
  intro k hk hchannel hold
  have hmoved : moveAll (before ++ m :: after) msg =
      moveAll after { msg with lineNumber := m.newLine } := by
    have hstep : moveAll (m :: after) msg = moveAll after (moveMessage m msg) := rfl
    rw [moveAll_append, (moveAll_of_no_hits hbefore).1, hstep, moveMessage_of_hits hit]
  have hkit : Hits k ({ msg with lineNumber := m.newLine }) := ⟨hchannel.symm, hold.symm⟩
  have hbeyond : m.newLine + 1 ≤ (moveAll after { msg with lineNumber := m.newLine }).lineNumber := by
    refine le_moveAll_of_hits grows (fun j hj hjit => ?_) hk hkit
    have hg := grows j hj
    have hj := hjit.2
    simp only at hj
    omega
  rw [hmoved] at hline
  omega

/-- Conversely, a message that moves as it should, among others that do, is matched once. -/
theorem matchedOnce_of_renumbersOnce {ms : List RenumberMapping}
    (grows : ∀ m ∈ ms, m.oldLine < m.newLine) {st : RenumberState Id} (h : RenumbersOnce ms st)
    {msg : PendingMessage Id} (hmsg : msg ∈ st.pending) : MatchedOnce ms msg := by
  obtain ⟨hall, emitted, hevents, hexpected⟩ := h
  rw [renumberAll_pending, List.forall₂_map_right_iff, List.forall₂_same] at hall
  have hmoved := hall msg hmsg
  refine ⟨concerned_of_movedOnce grows hmoved, fun before m after hms hbefore hit => ?_⟩
  obtain ⟨traced, htraced, hperm⟩ := renumberAll_events ms st
  cases List.append_cancel_left (htraced.symm.trans hevents)
  -- the event of the first match is expected of some message of the channel on this line
  have hevent : renumberedEvent m msg ∈ st.pending.filterMap (expectedEvent ms) :=
    hexpected.mem_iff.mp (hperm.mem_iff.mpr
      (List.mem_flatMap.mpr ⟨msg, hmsg, hms ▸ mem_trace_of_first_hit hbefore hit⟩))
  obtain ⟨other, -, hother⟩ := List.mem_filterMap.mp hevent
  obtain ⟨k, hk, heq⟩ := Option.map_eq_some_iff.mp hother
  have hconcerns : Concerns k other := by simpa using List.find?_some hk
  obtain ⟨hchannel, hold, hnew⟩ := MessageRenumbered.mk.inj heq
  have hown : Concerns k msg :=
    ⟨hchannel ▸ hconcerns.1, hit.2.trans hold.symm⟩
  have hline := hmoved.mapped k (List.mem_of_find?_eq_some hk) hown
  refine ⟨?_, fun j hj hjit => ?_⟩
  · refine no_rematch_of_line (fun j hj => grows j ?_) hbefore hit ?_
    · exact hms ▸ List.mem_append_right _ (List.mem_cons_of_mem m hj)
    · rw [← hms, hline, hnew]
  · exact ((hmoved.mapped j hj hjit).symm.trans hline).trans hnew

/-- The callbacks renumber the pending messages as one simultaneous move exactly when they match
each message as the mappings concern it and none again at its new line. -/
theorem renumberAll_once_iff (ms : List RenumberMapping)
    (grows : ∀ m ∈ ms, m.oldLine < m.newLine) (st : RenumberState Id) :
    RenumbersOnce ms st ↔ NoRematch ms st.pending := by
  constructor
  · exact fun h msg hmsg => matchedOnce_of_renumbersOnce grows h hmsg
  · intro h
    rw [RenumbersOnce, renumberAll_pending, List.forall₂_map_right_iff, List.forall₂_same]
    refine ⟨fun msg hmsg => (movedOnce_of_matchedOnce (h msg hmsg)).1, ?_⟩
    obtain ⟨emitted, hevents, hperm⟩ := renumberAll_events ms st
    refine ⟨emitted, hevents, ?_⟩
    rw [List.filterMap_eq_flatMap_toList]
    have htraces : st.pending.flatMap (trace ms) =
        st.pending.flatMap fun msg => (expectedEvent ms msg).toList :=
      List.flatMap_congr fun msg hmsg => (movedOnce_of_matchedOnce (h msg hmsg)).2
    rwa [htraces] at hperm

/-- Mappings of files that the callback knows, whose new lines are no old lines, match every message
once. -/
theorem noRematch_of_disjoint {ms : List RenumberMapping} (pending : List (PendingMessage Id))
    (known : ∀ m ∈ ms, senderKey m.file = some (pendingChannelForThreadPath m.file))
    (fresh : ∀ k ∈ ms, ∀ m ∈ ms, k.oldLine ≠ m.newLine)
    (functional : ∀ k ∈ ms, ∀ m ∈ ms, k.oldLine = m.oldLine → k.newLine = m.newLine) :
    NoRematch ms pending := by
  intro msg _
  have hsame : ∀ m ∈ ms, (Hits m msg ↔ Concerns m msg) := by
    intro m hm
    rw [Hits, Concerns, known m hm, Option.some.injEq, eq_comm]
  refine ⟨exists_congr fun m => and_congr_right (hsame m), fun before m after hms _ hit => ?_⟩
  have hm : m ∈ ms := hms ▸ List.mem_append_right _ List.mem_cons_self
  constructor
  · intro k hk _
    exact fresh k (hms ▸ List.mem_append_right _ (List.mem_cons_of_mem m hk)) m hm
  · intro k hk hkit
    exact functional k hk m hm (hkit.2.symm.trans hit.2)

/-- Two pending messages of one channel move by three lines; other entries stay. -/
theorem renumberAll_once_shift :
    RenumbersOnce [⟨generalThread, 5, 8⟩, ⟨generalThread, 6, 9⟩]
      ⟨[⟨"general".toList, 5, 0⟩, ⟨"general".toList, 6, 1⟩, ⟨"random".toList, 5, 2⟩], []⟩ :=
  (renumberAll_once_iff _ (by decide) _).mpr
    (noRematch_of_disjoint _ (by decide) (by decide) (by decide))

def cardThread : Path := "channels/general/cards/c1/discussion.thread".toList

/-- A shift by one line: the first message is matched again by the second mapping. The mapping of a
card leaves the message of the card where it is and moves that of a channel called discussion. -/
theorem renumberAll_rematches :
    (∀ m ∈ [RenumberMapping.mk generalThread 5 6, ⟨generalThread, 6, 7⟩],
      m.oldLine < m.newLine) ∧
    ([RenumberMapping.mk generalThread 5 6, ⟨generalThread, 6, 7⟩].map
      RenumberMapping.oldLine).Pairwise (· < ·) ∧
    ¬ RenumbersOnce [⟨generalThread, 5, 6⟩, ⟨generalThread, 6, 7⟩]
      ⟨[⟨"general".toList, 5, 0⟩, ⟨"general".toList, 6, 1⟩], []⟩ ∧
    ¬ RenumbersOnce [⟨cardThread, 2, 3⟩] ⟨[⟨"channels/general/cards/c1".toList, 2, 0⟩], []⟩ ∧
    ¬ RenumbersOnce [⟨cardThread, 2, 3⟩] ⟨[⟨"discussion".toList, 2, 0⟩], []⟩ := by
  refine ⟨by decide, by decide, ?_, ?_, ?_⟩
  · rintro ⟨hmoved, -⟩
    have hpending : (renumberAll [⟨generalThread, 5, 6⟩, ⟨generalThread, 6, 7⟩]
        ⟨[⟨"general".toList, 5, 0⟩, ⟨"general".toList, 6, 1⟩], []⟩).pending =
        [⟨"general".toList, 7, 0⟩, ⟨"general".toList, 7, 1⟩] := by decide
    rw [hpending] at hmoved
    cases hmoved with
    | cons hfirst _ =>
      have hline := hfirst.mapped ⟨generalThread, 5, 6⟩ List.mem_cons_self (by decide)
      exact absurd hline (by decide)
  · rintro ⟨hmoved, -⟩
    have hpending : (renumberAll [⟨cardThread, 2, 3⟩]
        ⟨[⟨"channels/general/cards/c1".toList, 2, 0⟩], []⟩).pending =
        [⟨"channels/general/cards/c1".toList, 2, 0⟩] := by decide
    rw [hpending] at hmoved
    cases hmoved with
    | cons hfirst _ =>
      have hline := hfirst.mapped ⟨cardThread, 2, 3⟩ List.mem_cons_self (by decide)
      exact absurd hline (by decide)
  · rintro ⟨hmoved, -⟩
    have hpending : (renumberAll [⟨cardThread, 2, 3⟩] ⟨[⟨"discussion".toList, 2, 0⟩], []⟩).pending =
        [⟨"discussion".toList, 3, 0⟩] := by decide
    rw [hpending] at hmoved
    cases hmoved with
    | cons hfirst _ =>
      have hline := hfirst.other (by decide)
      exact absurd hline (by decide)

end AllMessages

end PendingMessages
