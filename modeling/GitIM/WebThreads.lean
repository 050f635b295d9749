import GitIM.ProtocolLinks
import GitIM.ThreadViews

/-!
# Threads of the web client

The web client reads the threads of a repository itself. Its parser is the daemon's, and what it
hands over are JavaScript numbers. Its `thread` collects the replies of the line that was clicked,
by a recursion that remembers nothing: it returns unless the line lies on a cycle, and the
daemon's view is what it returns only for a line that starts a thread.
-/

namespace WebThreads

open Relation FunctionalGraphs PercentEncoding ProtocolLinks ThreadFormat Reading ThreadViews

section Client
variable {Json : Type} (codec : PercentCodec) (isAlphanumeric : Char → Bool)
  (integers : Json → List Int)

def maxSafeInteger : Nat := 2 ^ 53 - 1

/-- The line numbers of the entries, and the ones they point to, are exact as JavaScript numbers. -/
def SafeNumbers (entries : List (ThreadEntry Json)) : Prop :=
  ∀ e ∈ entries, e.lineNumber ≤ maxSafeInteger ∧ e.pointTo ≤ maxSafeInteger

/-- The numbers in a link. -/
def linkNumbers : LinkKind → List Nat
  | .message _ lineNumber => [lineNumber]
  | .card _ _ lineNumber _ => lineNumber.toList
  | .quickSession _ lineNumber => lineNumber.toList
  | .asset asset => [asset.size.toNat]
  | .channel _ | .userProfile _ | .softlink _ _ => []

/-- The numbers that are handed over with an entry: its own, and those of the links in its body or
the `integers` of its payload. -/
def entryNumbers : ThreadEntry Json → List Int
  | .message m => (m.lineNumber :: m.pointTo :: (extractLinks codec isAlphanumeric m.body).flatMap
      fun link => linkNumbers link.kind).map Int.ofNat
  | .event e => e.lineNumber :: e.pointTo :: integers e.info

/-- All numbers of the entries are exact as JavaScript numbers. -/
def ExactNumbers (entries : List (ThreadEntry Json)) : Prop :=
  ∀ e ∈ entries, ∀ n ∈ entryNumbers codec isAlphanumeric integers e, n.natAbs ≤ maxSafeInteger

instance (entries : List (ThreadEntry Json)) :
    Decidable (ExactNumbers codec isAlphanumeric integers entries) :=
  inferInstanceAs (Decidable (∀ e ∈ entries, ∀ n ∈ entryNumbers codec isAlphanumeric integers e, _))

theorem safeNumbers_of_exactNumbers {entries : List (ThreadEntry Json)}
    (h : ExactNumbers codec isAlphanumeric integers entries) : SafeNumbers entries := by
  intro e he
  have exact := h e he
  cases e with
  | message m =>
    exact ⟨exact _ (List.mem_map_of_mem List.mem_cons_self),
      exact _ (List.mem_map_of_mem (List.mem_cons_of_mem _ List.mem_cons_self))⟩
  | event e => exact ⟨exact _ List.mem_cons_self, exact _ (List.mem_cons_of_mem _ List.mem_cons_self)⟩

inductive ThreadAnswer (Json : Type) where
  | error
  | noMessages
  | entries (threadMessages : List (ThreadEntry Json))
  deriving DecidableEq

/-- The loop over the entries, with a recursive call for each reply. -/
def repliesIn (collectReplies : Nat → Option (List (ThreadEntry Json))) (parentLine : Nat) :
    List (ThreadEntry Json) → Option (List (ThreadEntry Json))
  | [] => some []
  | e :: rest =>
    if e.pointTo = parentLine then do
      let below ← collectReplies e.lineNumber
      let others ← repliesIn collectReplies parentLine rest
      some (e :: below ++ others)
    else repliesIn collectReplies parentLine rest

/-- The replies below a line, when the calls are not nested deeper than `depth`. -/
def collectReplies (entries : List (ThreadEntry Json)) :
    Nat → Nat → Option (List (ThreadEntry Json))
  | 0, _ => none
  | depth + 1, parentLine => repliesIn (collectReplies entries depth) parentLine entries

/-- The answer to a click on a line, of the entries that the parser found; `toValue` hands them
over. -/
def thread (toValue : List (ThreadEntry Json) → Option (List (ThreadEntry Json))) (depth : Nat)
    (parsed : List (ThreadEntry Json)) (line : Nat) : Option (ThreadAnswer Json) :=
  match toValue parsed with
  | none => some .error
  | some entries =>
    match entries.find? (fun e => e.lineNumber = line) with
    | none => some .noMessages
    | some root => (collectReplies entries depth line).map fun replies => .entries (root :: replies)

end Client

section Replies
variable {Json : Type} {entries : List (ThreadEntry Json)}

theorem repliesIn_returns {collect : Nat → Option (List (ThreadEntry Json))} {parentLine : Nat}
    {l : List (ThreadEntry Json)}
    (all : ∀ e ∈ l, e.pointTo = parentLine → ∃ below, collect e.lineNumber = some below) :
    ∃ replies, repliesIn collect parentLine l = some replies := by
  induction l with
  | nil => exact ⟨[], rfl⟩
  | cons x rest ih =>
    obtain ⟨others, hothers⟩ := ih fun e he => all e (List.mem_cons_of_mem x he)
    rw [repliesIn]
    split
    · rename_i reply
      obtain ⟨below, hbelow⟩ := all x List.mem_cons_self reply
      rw [hbelow, hothers]
      exact ⟨_, rfl⟩
    · exact ⟨others, hothers⟩

/-- What was collected below a reply. -/
def below (collect : Nat → Option (List (ThreadEntry Json))) (e : ThreadEntry Json) :
    List (ThreadEntry Json) := (collect e.lineNumber).getD []

theorem repliesIn_eq {collect : Nat → Option (List (ThreadEntry Json))} {parentLine : Nat}
    {l replies : List (ThreadEntry Json)} (h : repliesIn collect parentLine l = some replies) :
    (∀ e ∈ l, e.pointTo = parentLine → collect e.lineNumber = some (below collect e)) ∧
      replies = (l.filter fun e => e.pointTo = parentLine).flatMap fun e => e :: below collect e := by
  induction l generalizing replies with
  | nil =>
    cases h
    refine ⟨?_, rfl⟩
    intro e he
    cases he
  | cons x rest ih =>
    rw [repliesIn] at h
    by_cases reply : x.pointTo = parentLine
    · rw [if_pos reply] at h
      obtain ⟨deeper, hdeeper, h⟩ := Option.bind_eq_some_iff.mp h
      obtain ⟨others, hothers, h⟩ := Option.bind_eq_some_iff.mp h
      obtain ⟨all, rfl⟩ := ih hothers
      have hbelow : below collect x = deeper := by rw [below, hdeeper, Option.getD_some]
      constructor
      · intro e he points
        rcases List.mem_cons.mp he with rfl | later
        · rw [hdeeper, hbelow]
        · exact all e later points
      · rw [List.filter_cons_of_pos (by simpa using reply), List.flatMap_cons, hbelow]
        exact (Option.some.inj h).symm
    · rw [if_neg reply] at h
      obtain ⟨all, rfl⟩ := ih h
      constructor
      · intro e he points
        rcases List.mem_cons.mp he with rfl | later
        · exact absurd points reply
        · exact all e later points
      · rw [List.filter_cons_of_neg (by simpa using reply)]

theorem mem_replies_iff (distinct : (lines entries).Nodup) (depth line : Nat)
    {replies : List (ThreadEntry Json)} (h : collectReplies entries depth line = some replies)
    (e : ThreadEntry Json) :
    e ∈ replies ↔ e ∈ entries ∧ TransGen (PointsTo entries) e.lineNumber line := by
  induction depth generalizing line replies with
  | zero => cases h
  | succ depth ih =>
    obtain ⟨all, rfl⟩ := repliesIn_eq h
    rw [List.mem_flatMap]
    constructor
    · rintro ⟨reply, hreply, he⟩
      obtain ⟨member, points⟩ := List.mem_filter.mp hreply
      have points : reply.pointTo = line := of_decide_eq_true points
      have move : PointsTo entries reply.lineNumber line := ⟨reply, member, rfl, points⟩
      rcases List.mem_cons.mp he with rfl | deeper
      · exact ⟨member, .single move⟩
      · obtain ⟨there, path⟩ := (ih _ (all reply member points)).mp deeper
        exact ⟨there, path.tail move⟩
    · rintro ⟨there, path⟩
      obtain ⟨middle, path, reply, member, rfl, points⟩ := TransGen.tail'_iff.mp path
      refine ⟨reply, List.mem_filter.mpr ⟨member, decide_eq_true points⟩, ?_⟩
      rcases reflTransGen_iff_eq_or_transGen.mp path with same | moved
      · rw [eq_of_lineNumber distinct member there same]
        exact List.mem_cons_self
      · exact List.mem_cons_of_mem reply ((ih _ (all reply member points)).mpr ⟨there, moved⟩)

/-- Below a line of a cycle there is always another reply. -/
theorem collectReplies_onCycle (unique : Relator.RightUnique (PointsTo entries)) (depth line : Nat)
    (cycle : TransGen (PointsTo entries) line line) : collectReplies entries depth line = none := by
  induction depth generalizing line with
  | zero => rfl
  | succ depth ih =>
    obtain ⟨middle, path, reply, member, rfl, points⟩ := TransGen.tail'_iff.mp cycle
    have again : TransGen (PointsTo entries) reply.lineNumber reply.lineNumber :=
      onCycle_of_reaches unique cycle path
    cases h : collectReplies entries (depth + 1) line with
    | none => rfl
    | some replies =>
      have found := (repliesIn_eq h).1 reply member points
      rw [ih _ again] at found
      cases found

theorem free_of_pointsTo {a b : Nat} (unique : Relator.RightUnique (PointsTo entries))
    (free : ¬ TransGen (PointsTo entries) b b) (move : PointsTo entries a b) :
    ¬ TransGen (PointsTo entries) a a :=
  fun cycle => free (onCycle_step unique cycle move)

/-- Each call stands for a line with fewer lines above it than the line of the call around it. -/
theorem collectReplies_returns (unique : Relator.RightUnique (PointsTo entries)) (depth line : Nat)
    (free : ¬ TransGen (PointsTo entries) line line)
    (enough : (origins (PointsTo entries) (lines entries).toFinset line).card < depth) :
    ∃ replies, collectReplies entries depth line = some replies := by
  induction depth generalizing line with
  | zero => omega
  | succ depth ih =>
    apply repliesIn_returns
    intro reply member points
    have move : PointsTo entries reply.lineNumber line := ⟨reply, member, rfl, points⟩
    have freeReply := free_of_pointsTo unique free move
    apply ih reply.lineNumber freeReply
    have fewer : (origins (PointsTo entries) (lines entries).toFinset reply.lineNumber).card <
        (origins (PointsTo entries) (lines entries).toFinset line).card :=
      origins_lt (List.mem_toFinset.mpr (line_of_pointsTo move)) freeReply move
    omega

theorem replies_nodup (distinct : (lines entries).Nodup) (depth line : Nat)
    {replies : List (ThreadEntry Json)} (h : collectReplies entries depth line = some replies)
    (free : ¬ TransGen (PointsTo entries) line line) : replies.Nodup := by
  induction depth generalizing line replies with
  | zero => cases h
  | succ depth ih =>
    have unique := pointsTo_unique distinct
    obtain ⟨all, rfl⟩ := repliesIn_eq h
    have isReply : ∀ e ∈ entries.filter (fun e => e.pointTo = line),
        e ∈ entries ∧ e.pointTo = line := by
      intro e he
      obtain ⟨member, points⟩ := List.mem_filter.mp he
      exact ⟨member, of_decide_eq_true points⟩
    apply List.nodup_flatMap.mpr
    constructor
    · intro reply hreply
      obtain ⟨member, points⟩ := isReply reply hreply
      have freeReply := free_of_pointsTo unique free ⟨reply, member, rfl, points⟩
      have hbelow := all reply member points
      refine List.nodup_cons.mpr ⟨?_, ih _ hbelow freeReply⟩
      intro again
      exact freeReply ((mem_replies_iff distinct depth _ hbelow reply).mp again).2
    · have fewer : (entries.filter fun e => e.pointTo = line).Nodup :=
        distinct.of_map.filter _
      refine List.Pairwise.imp_of_mem ?_ fewer
      intro a b ha hb ne
      obtain ⟨memberA, pointsA⟩ := isReply a ha
      obtain ⟨memberB, pointsB⟩ := isReply b hb
      have reaches : ∀ {r e : ThreadEntry Json}, r ∈ entries → r.pointTo = line →
          e ∈ r :: below (collectReplies entries depth) r →
            ReflTransGen (PointsTo entries) e.lineNumber r.lineNumber := by
        intro r e member points he
        rcases List.mem_cons.mp he with rfl | deeper
        · exact .refl
        · exact ((mem_replies_iff distinct depth _ (all r member points) e).mp deeper).2.to_reflTransGen
      intro e inA inB
      have same : a.lineNumber = b.lineNumber :=
        predecessor_unique unique free ⟨a, memberA, rfl, pointsA⟩ ⟨b, memberB, rfl, pointsB⟩
          (reaches memberA pointsA inA) (reaches memberB pointsB inB)
      exact ne (eq_of_lineNumber distinct memberA memberB same)

end Replies

section Agreement
variable {Json : Type} {entries : List (ThreadEntry Json)}

/-- A click on the line is answered, with each line of the daemon's view once. -/
def ShowsThread (toValue : List (ThreadEntry Json) → Option (List (ThreadEntry Json)))
    (parsed : List (ThreadEntry Json)) (line : Nat) : Prop :=
  ∃ depth shown, thread toValue depth parsed line = some (.entries shown) ∧
    (lines shown).Nodup ∧ ∀ n, n ∈ lines shown ↔ n ∈ lines (threadView parsed line).shown

/-- The line has no parent, or one that does not exist, and lies on no cycle. -/
def StartsThread (entries : List (ThreadEntry Json)) (line : Nat) : Prop :=
  (∀ e ∈ entries, e.lineNumber = line → e.pointTo = 0 ∨ e.pointTo ∉ lines entries) ∧
    ¬ TransGen (PointsTo entries) line line

theorem mem_lines_threadView (distinct : (lines entries).Nodup) (line n : Nat) :
    n ∈ lines (threadView entries line).shown ↔
      n ∈ lines entries ∧ ReflTransGen (PointsTo entries) n (threadView entries line).root := by
  constructor
  · intro h
    obtain ⟨e, he, rfl⟩ := List.mem_map.mp h
    obtain ⟨member, path⟩ := (mem_threadOf_iff distinct _ e).mp he
    exact ⟨List.mem_map_of_mem member, path⟩
  · rintro ⟨there, path⟩
    obtain ⟨e, member, rfl⟩ := List.mem_map.mp there
    exact List.mem_map_of_mem ((mem_threadOf_iff distinct _ e).mpr ⟨member, path⟩)

theorem find?_line {line : Nat} (there : line ∈ lines entries) :
    ∃ root, entries.find? (fun e => e.lineNumber = line) = some root ∧ root ∈ entries ∧
      root.lineNumber = line := by
  obtain ⟨e, member, hline⟩ := List.mem_map.mp there
  cases found : entries.find? (fun e => e.lineNumber = line) with
  | none => exact absurd (decide_eq_true hline) (List.find?_eq_none.mp found e member)
  | some root =>
    exact ⟨root, rfl, List.mem_of_find?_eq_some found, by simpa using List.find?_some found⟩

/-- What a click shows: the line and all that leads to it. -/
theorem mem_shown_iff (distinct : (lines entries).Nodup) {depth line : Nat}
    {root : ThreadEntry Json} {replies : List (ThreadEntry Json)} (member : root ∈ entries)
    (hline : root.lineNumber = line) (h : collectReplies entries depth line = some replies) (n : Nat) :
    n ∈ lines (root :: replies) ↔
      n ∈ lines entries ∧ ReflTransGen (PointsTo entries) n line := by
  have hmem := mem_replies_iff distinct depth line h
  constructor
  · intro hn
    obtain ⟨e, he, rfl⟩ := List.mem_map.mp hn
    rcases List.mem_cons.mp he with rfl | reply
    · exact ⟨List.mem_map_of_mem member, hline ▸ .refl⟩
    · obtain ⟨there, path⟩ := (hmem e).mp reply
      exact ⟨List.mem_map_of_mem there, path.to_reflTransGen⟩
  · rintro ⟨there, path⟩
    obtain ⟨e, he, rfl⟩ := List.mem_map.mp there
    rcases reflTransGen_iff_eq_or_transGen.mp path with same | moved
    · rw [eq_of_lineNumber distinct he member (same.symm.trans hline.symm)]
      exact List.mem_cons_self
    · exact List.mem_map_of_mem (List.mem_cons_of_mem root ((hmem e).mpr ⟨he, moved⟩))

theorem terminal_of_startsThread {line : Nat} (starts : StartsThread entries line) :
    Terminal (Climbs entries) line := by
  rintro b ⟨⟨⟨e, he, hline, rfl⟩, there⟩, nonzero⟩
  exact (starts.1 e he hline).elim nonzero fun missing => missing there

theorem showsThread_of_startsThread (distinct : (lines entries).Nodup) {line : Nat}
    (there : line ∈ lines entries) {toValue : List (ThreadEntry Json) → Option (List (ThreadEntry Json))}
    (handed : toValue entries = some entries) (starts : StartsThread entries line) :
    ShowsThread toValue entries line := by
  have unique := pointsTo_unique distinct
  obtain ⟨root, found, member, hline⟩ := find?_line there
  obtain ⟨replies, hreplies⟩ :=
    collectReplies_returns unique _ line starts.2 (Nat.lt_succ_self _)
  have hmem := mem_replies_iff distinct _ line hreplies
  refine ⟨(origins (PointsTo entries) (lines entries).toFinset line).card + 1, root :: replies,
    ?_, ?_, ?_⟩
  · rw [thread, handed]
    simp only [found, hreplies]
    rfl
  · have once : (root :: replies).Nodup := by
      refine List.nodup_cons.mpr ⟨?_, replies_nodup distinct _ line hreplies starts.2⟩
      intro again
      have path := ((hmem root).mp again).2
      rw [hline] at path
      exact starts.2 path
    refine List.Nodup.map_on ?_ once
    intro a ha b hb same
    have inEntries : ∀ e ∈ root :: replies, e ∈ entries := by
      intro e he
      rcases List.mem_cons.mp he with rfl | reply
      · exact member
      · exact ((hmem e).mp reply).1
    exact eq_of_lineNumber distinct (inEntries a ha) (inEntries b hb) same
  · intro n
    have root' : (threadView entries line).root = line :=
      rootLine_of_topmost distinct there ⟨.refl, terminal_of_startsThread starts⟩
    rw [mem_shown_iff distinct member hline hreplies n, mem_lines_threadView distinct line n, root']

theorem startsThread_of_showsThread (distinct : (lines entries).Nodup) {line : Nat}
    (there : line ∈ lines entries) {toValue : List (ThreadEntry Json) → Option (List (ThreadEntry Json))}
    (handed : toValue entries = some entries) (shows : ShowsThread toValue entries line) :
    StartsThread entries line := by
  have unique := pointsTo_unique distinct
  obtain ⟨root, found, member, hline⟩ := find?_line there
  obtain ⟨depth, shown, answered, -, same⟩ := shows
  rw [thread, handed] at answered
  simp only [found] at answered
  obtain ⟨replies, hreplies, hshown⟩ := Option.map_eq_some_iff.mp answered
  obtain rfl : root :: replies = shown := ThreadAnswer.entries.inj hshown
  have free : ¬ TransGen (PointsTo entries) line line := by
    intro cycle
    rw [collectReplies_onCycle unique depth line cycle] at hreplies
    cases hreplies
  refine ⟨?_, free⟩
  intro e he eLine
  by_contra climbs
  -- otherwise the daemon's root is another line, which the clicked one leads to
  have move : Climbs entries line e.pointTo := eLine ▸ climbs_of_go he climbs
  obtain ⟨path, stop⟩ := rootLine_spec distinct there
  have up : ∀ {a b}, ReflTransGen (Climbs entries) a b → ReflTransGen (PointsTo entries) a b :=
    fun path => path.lift id fun _ _ move => move.1.1
  have rootShown : (threadView entries line).root ∈ lines (root :: replies) := by
    apply (same _).mpr
    exact (mem_lines_threadView distinct line _).mpr ⟨line_of_climbs path there, .refl⟩
  have back := ((mem_shown_iff distinct member hline hreplies _).mp rootShown).2
  rcases reflTransGen_iff_eq_or_transGen.mp (up path) with atRoot | moved
  · rw [atRoot] at stop
    rcases stop with last | cycle
    · exact last e.pointTo move
    · exact free (cycle.lift id fun _ _ move => move.1.1)
  · exact free (moved.trans_left back)

/-- A click shows the daemon's view exactly for the lines that start a thread, when the numbers of
all entries, their links and their payloads are exact. -/
theorem showsThread_iff (codec : PercentCodec) (isAlphanumeric : Char → Bool)
    (integers : Json → List Int) (entries : List (ThreadEntry Json))
    (distinct : (lines entries).Nodup) (line : Nat) (there : line ∈ lines entries)
    (toValue : List (ThreadEntry Json) → Option (List (ThreadEntry Json)))
    (exact_or_refused : ∀ parsed, toValue parsed =
      if ExactNumbers codec isAlphanumeric integers parsed then some parsed else none) :
    ShowsThread toValue entries line ↔
      ExactNumbers codec isAlphanumeric integers entries ∧ StartsThread entries line := by
  by_cases safe : ExactNumbers codec isAlphanumeric integers entries
  · have handed : toValue entries = some entries := by rw [exact_or_refused, if_pos safe]
    constructor
    · intro shows
      exact ⟨safe, startsThread_of_showsThread distinct there handed shows⟩
    · rintro ⟨-, starts⟩
      exact showsThread_of_startsThread distinct there handed starts
  · constructor
    · rintro ⟨depth, shown, answered, -⟩
      rw [thread, exact_or_refused, if_neg safe] at answered
      cases answered
    · rintro ⟨safe', -⟩
      exact absurd safe' safe

/-- The conversion, for a payload with the given numbers. -/
def handOver (integers : Json → List Int) (parsed : List (ThreadEntry Json)) :
    Option (List (ThreadEntry Json)) :=
  if ExactNumbers byteCodec Char.isAlphanum integers parsed then some parsed else none

theorem handOver_eq_some {integers : Json → List Int} {parsed entries : List (ThreadEntry Json)}
    (h : handOver integers parsed = some entries) : entries = parsed ∧ SafeNumbers parsed := by
  rw [handOver] at h
  split at h
  · rename_i exact
    exact ⟨(Option.some.inj h).symm, safeNumbers_of_exactNumbers _ _ _ exact⟩
  · cases h

def noIntegers : Unit → List Int := fun _ => []

theorem mixedThread_startsThread : StartsThread mixedThread 1 := by
  constructor
  · decide
  · intro cycle
    obtain ⟨b, ⟨e, he, hline, rfl⟩, rest⟩ := TransGen.head'_iff.mp cycle
    have first : ∀ e ∈ mixedThread, e.lineNumber = 1 → e.pointTo = 0 := by decide
    rw [first e he hline] at rest
    rcases ReflTransGen.cases_head rest with same | ⟨next, move, -⟩
    · cases same
    · have missing : 0 ∉ lines mixedThread := by decide
      exact missing (line_of_pointsTo move)

theorem showsThread_iff_mixed : ShowsThread (handOver noIntegers) mixedThread 1 :=
  (showsThread_iff byteCodec Char.isAlphanum noIntegers mixedThread (by decide) 1 (by decide)
    (handOver noIntegers) fun _ => rfl).mpr ⟨by decide, mixedThread_startsThread⟩

theorem ann_valid : handlerError "ann".toList = none ∨ "ann".toList = systemName :=
  .inl (by decide)

/-- A thread of one line, with a link to a line beyond the exact numbers. -/
def linkedThread : List (ThreadEntry Unit) :=
  [.message ⟨1, 0, ⟨"ann".toList, ann_valid⟩, [], "see <#general:L9007199254740993>".toList⟩]

/-- A click on the reply in the middle of three lines hides the line that it answers, a click on a
line of a cycle is never answered, and one link makes a click on any line of its thread an error. -/
theorem not_showsThread_reply :
    (lines mixedThread).Nodup ∧ 2 ∈ lines mixedThread ∧ 5 ∈ lines mixedThread ∧
      ¬ ShowsThread (handOver noIntegers) mixedThread 2 ∧
      (∀ depth, thread (handOver noIntegers) depth mixedThread 5 = none) ∧
      ∀ depth, thread (handOver noIntegers) depth linkedThread 1 = some .error := by
  have distinct : (lines mixedThread).Nodup := by decide
  refine ⟨distinct, by decide, by decide, ?_, ?_, ?_⟩
  · intro shows
    have starts := startsThread_of_showsThread distinct (by decide) (by decide) shows
    exact absurd (starts.1 (remark 2 1) (by decide) rfl) (by decide)
  · intro depth
    have cycle : TransGen (PointsTo mixedThread) 5 5 :=
      .tail (.single ⟨remark 5 6, by decide, rfl, rfl⟩) ⟨remark 6 5, by decide, rfl, rfl⟩
    have unanswered := collectReplies_onCycle (pointsTo_unique distinct) depth 5 cycle
    have handed : handOver noIntegers mixedThread = some mixedThread := by decide
    have found : mixedThread.find? (fun e => e.lineNumber = 5) = some (remark 5 6) := by decide
    rw [thread, handed]
    simp only [found, unanswered, Option.map_none]
  · intro depth
    have refused : handOver noIntegers linkedThread = none := by decide +kernel
    rw [thread, refused]

end Agreement

end WebThreads
