import GitIM.FunctionalGraphs
import GitIM.Reading

/-!
# The view of a thread

What `handle_get_thread` shows of a channel: its upward walk stops at a root, and the search down
from there finds every entry whose `point_to` leads to the root. The web client has a view of its
own, which starts at the line that was clicked.
-/

namespace ThreadViews

open Relation FunctionalGraphs ThreadFormat Channels Poll Reading

section Graph
variable {Json : Type} (entries : List (ThreadEntry Json))

def lines : List Nat := entries.map ThreadEntry.lineNumber

def PointsTo (a b : Nat) : Prop := ∃ e ∈ entries, e.lineNumber = a ∧ e.pointTo = b

/-- Following `point_to` while the target exists. -/
def Follows (a b : Nat) : Prop := PointsTo entries a b ∧ b ∈ lines entries

/-- A step of the upward walk, which takes the target 0 for none. -/
def Climbs (a b : Nat) : Prop := Follows entries a b ∧ b ≠ 0

structure View (Json : Type) where
  root : Nat
  shown : List (ThreadEntry Json)
  deriving DecidableEq

def threadView (l : Nat) : View Json :=
  let root := rootLine entries entries l
  ⟨root, threadOf entries root⟩

variable {entries}

theorem handleGetThread_view (readers : Readers Json) (tree : FileTree.FileMap) (channel : TextLines.Text)
    (l : Nat) (ok : checkChannelName channel = .ok ()) :
    handleGetThread readers tree channel l =
      answerFrom readers tree (.channel channel) fun _ enrich entries =>
        .thread channel (threadView entries l).root ((threadView entries l).shown.map enrich) := by
  rw [handleGetThread, ok]
  rfl

theorem eq_of_lineNumber (distinct : (lines entries).Nodup) {e e' : ThreadEntry Json}
    (he : e ∈ entries) (he' : e' ∈ entries) (same : e.lineNumber = e'.lineNumber) : e = e' :=
  List.inj_on_of_nodup_map distinct he he' same

theorem pointsTo_iff (distinct : (lines entries).Nodup) {e : ThreadEntry Json} (he : e ∈ entries)
    (b : Nat) : PointsTo entries e.lineNumber b ↔ e.pointTo = b := by
  constructor
  · rintro ⟨e', he', same, points⟩
    rw [← eq_of_lineNumber distinct he' he same]
    exact points
  · intro points
    exact ⟨e, he, rfl, points⟩

theorem pointsTo_unique (distinct : (lines entries).Nodup) :
    Relator.RightUnique (PointsTo entries) := by
  rintro a b c ⟨e, he, rfl, hb⟩ hc
  exact hb.symm.trans ((pointsTo_iff distinct he c).mp hc)

theorem climbs_unique (distinct : (lines entries).Nodup) : Relator.RightUnique (Climbs entries) :=
  fun _ _ _ first second => pointsTo_unique distinct first.1.1 second.1.1

theorem climbs_eq_follows (positive : ∀ e ∈ entries, 0 < e.lineNumber) :
    Climbs entries = Follows entries := by
  funext a b
  apply propext
  constructor
  · exact And.left
  · intro move
    refine ⟨move, ?_⟩
    obtain ⟨e, he, rfl⟩ := List.mem_map.mp move.2
    exact Nat.pos_iff_ne_zero.mp (positive e he)

theorem line_of_pointsTo {a b : Nat} (h : PointsTo entries a b) : a ∈ lines entries := by
  obtain ⟨e, he, rfl, -⟩ := h
  exact List.mem_map_of_mem he

theorem line_of_climbs {a b : Nat} (h : ReflTransGen (Climbs entries) a b)
    (ha : a ∈ lines entries) : b ∈ lines entries := by
  cases h with
  | refl => exact ha
  | tail _ move => exact move.1.2

end Graph

section Root
variable {Json : Type} {all : List (ThreadEntry Json)}

/-- The lines that the walk has left behind lead to the line where it is. -/
def Behind (all unseen : List (ThreadEntry Json)) (line : Nat) : Prop :=
  ∀ e ∈ all, e ∉ unseen → TransGen (Climbs all) e.lineNumber line

theorem behind_step {unseen : List (ThreadEntry Json)} {line b : Nat}
    (behind : Behind all unseen line) (move : Climbs all line b) :
    Behind all (dropEntries unseen line) b := by
  intro e he dropped
  by_cases here : e.lineNumber = line
  · rw [here]
    exact .single move
  · apply TransGen.tail (behind e he ?_) move
    intro unseenStill
    exact dropped (List.mem_filter.mpr ⟨unseenStill, by simpa using here⟩)

theorem found_entry {unseen : List (ThreadEntry Json)} {line : Nat} {e : ThreadEntry Json}
    (found : unseen.reverse.find? (fun e => e.lineNumber = line) = some e) :
    e ∈ unseen ∧ e.lineNumber = line :=
  ⟨List.mem_reverse.mp (List.mem_of_find?_eq_some found), by simpa using List.find?_some found⟩

/-- A line whose entry has no parent, or a parent that does not exist. -/
theorem terminal_of_stop (distinct : (lines all).Nodup) {e : ThreadEntry Json} (he : e ∈ all)
    (stop : e.pointTo = 0 ∨ e.pointTo ∉ all.map ThreadEntry.lineNumber) :
    Terminal (Climbs all) e.lineNumber := by
  rintro b ⟨⟨points, exists'⟩, nonzero⟩
  rw [← (pointsTo_iff distinct he b).mp points] at nonzero exists'
  exact stop.elim nonzero fun missing => missing exists'

theorem climbs_of_go {e : ThreadEntry Json} (he : e ∈ all)
    (go : ¬ (e.pointTo = 0 ∨ e.pointTo ∉ all.map ThreadEntry.lineNumber)) :
    Climbs all e.lineNumber e.pointTo := by
  rw [not_or, not_not] at go
  exact ⟨⟨⟨e, he, rfl, rfl⟩, go.2⟩, go.1⟩

theorem rootLine_unfound {unseen : List (ThreadEntry Json)} {line : Nat}
    (unfound : unseen.reverse.find? (fun e => e.lineNumber = line) = none) :
    rootLine all unseen line = line := by
  unfold rootLine
  split
  · rfl
  · rename_i found
    rw [unfound] at found
    cases found

theorem rootLine_found {unseen : List (ThreadEntry Json)} {line : Nat} {e : ThreadEntry Json}
    (found : unseen.reverse.find? (fun e => e.lineNumber = line) = some e) :
    rootLine all unseen line =
      if e.pointTo = 0 ∨ e.pointTo ∉ all.map ThreadEntry.lineNumber then line
      else rootLine all (dropEntries unseen line) e.pointTo := by
  conv_lhs => unfold rootLine
  split
  · rename_i unfound
    rw [found] at unfound
    cases unfound
  · rename_i e' found'
    obtain rfl : e = e' := Option.some.inj (found.symm.trans found')
    rfl

theorem rootLine_stops (distinct : (lines all).Nodup) (count : Nat)
    (unseen : List (ThreadEntry Json)) (line : Nat) (small : unseen.length ≤ count)
    (part : ∀ e ∈ unseen, e ∈ all) (behind : Behind all unseen line) (there : line ∈ lines all) :
    ReflTransGen (Climbs all) line (rootLine all unseen line) ∧
      (Terminal (Climbs all) (rootLine all unseen line) ∨
        TransGen (Climbs all) (rootLine all unseen line) (rootLine all unseen line)) := by
  induction count generalizing unseen line with
  | zero =>
    have empty : unseen = [] := List.length_eq_zero_iff.mp (Nat.le_zero.mp small)
    subst empty
    rw [rootLine_unfound rfl]
    obtain ⟨e, he, rfl⟩ := List.mem_map.mp there
    exact ⟨.refl, .inr (behind e he List.not_mem_nil)⟩
  | succ count ih =>
    cases found : unseen.reverse.find? (fun e => e.lineNumber = line) with
    | none =>
      -- an existing line without an entry left has been passed before
      rw [rootLine_unfound found]
      obtain ⟨e, he, rfl⟩ := List.mem_map.mp there
      refine ⟨.refl, .inr (behind e he ?_)⟩
      intro still
      exact List.find?_eq_none.mp found e (List.mem_reverse.mpr still) (decide_eq_true rfl)
    | some e =>
      obtain ⟨he, rfl⟩ := found_entry found
      rw [rootLine_found found]
      split
      · rename_i stop
        exact ⟨.refl, .inl (terminal_of_stop distinct (part e he) stop)⟩
      · rename_i go
        have move : Climbs all e.lineNumber e.pointTo := climbs_of_go (part e he) go
        have fewer : (dropEntries unseen e.lineNumber).length ≤ count := by
          have dropped := length_dropEntries_lt found
          omega
        obtain ⟨path, stop⟩ := ih (dropEntries unseen e.lineNumber) e.pointTo fewer
          (fun x hx => part x (List.mem_of_mem_filter hx)) (behind_step behind move) move.1.2
        exact ⟨path.head move, stop⟩

theorem rootLine_spec (distinct : (lines all).Nodup) {l : Nat} (there : l ∈ lines all) :
    ReflTransGen (Climbs all) l (rootLine all all l) ∧
      (Terminal (Climbs all) (rootLine all all l) ∨
        TransGen (Climbs all) (rootLine all all l) (rootLine all all l)) :=
  rootLine_stops distinct all.length all l (Nat.le_refl _) (fun _ h => h)
    (fun _ he gone => absurd he gone) there

theorem rootLine_topmost (distinct : (lines all).Nodup) {l : Nat} (there : l ∈ lines all)
    (free : NoCycleAbove (Climbs all) l) : Topmost (Climbs all) l (rootLine all all l) := by
  obtain ⟨path, stop⟩ := rootLine_spec distinct there
  exact ⟨path, stop.resolve_right (free _ path)⟩

theorem rootLine_of_topmost (distinct : (lines all).Nodup) {l t : Nat} (there : l ∈ lines all)
    (top : Topmost (Climbs all) l t) : rootLine all all l = t := by
  have free : NoCycleAbove (Climbs all) l := top.noCycleAbove (climbs_unique distinct)
  exact topmost_unique (climbs_unique distinct) (rootLine_topmost distinct there free) top

end Root

section Collection
variable {Json : Type} {entries : List (ThreadEntry Json)}

/-- The entries that a line of the stack brings into the view, and the lines among them that the
search goes on with. -/
def matching (entries : List (ThreadEntry Json)) (target : Nat) : List (ThreadEntry Json) :=
  entries.filter fun e => e.lineNumber = target ∨ e.pointTo = target

def replyLines (entries : List (ThreadEntry Json)) (target : Nat) : List Nat :=
  (((matching entries target).map ThreadEntry.lineNumber).filter fun line => line ≠ target).reverse

theorem mem_matching {e : ThreadEntry Json} {target : Nat} :
    e ∈ matching entries target ↔ e ∈ entries ∧ (e.lineNumber = target ∨ e.pointTo = target) := by
  simp [matching]

theorem collect_eq_explore (unvisited stack : List Nat) :
    collect entries unvisited stack =
      (explore (replyLines entries) unvisited stack).flatMap (matching entries) := by
  induction unvisited, stack using explore.induct (replyLines entries) with
  | case1 unvisited =>
    rw [collect, explore]
    rfl
  | case2 unvisited target stack fresh ih =>
    rw [collect, dif_pos fresh, explore, dif_pos fresh, List.flatMap_cons, ← ih]
    rfl
  | case3 unvisited target stack seen ih =>
    rw [collect, dif_neg seen, explore, dif_neg seen, ih]

theorem leadsTo_iff {a b : Nat} :
    LeadsTo (replyLines entries) a b ↔ PointsTo entries a b ∧ a ≠ b := by
  constructor
  · intro h
    obtain ⟨inMatching, ne⟩ := List.mem_filter.mp (List.mem_reverse.mp h)
    obtain ⟨e, he, rfl⟩ := List.mem_map.mp inMatching
    have ne : e.lineNumber ≠ b := of_decide_eq_true ne
    obtain ⟨member, place⟩ := mem_matching.mp he
    exact ⟨⟨e, member, rfl, place.resolve_left ne⟩, ne⟩
  · rintro ⟨⟨e, he, rfl, points⟩, ne⟩
    apply List.mem_reverse.mpr
    have matched : e ∈ matching entries b := mem_matching.mpr ⟨he, .inr points⟩
    exact List.mem_filter.mpr ⟨List.mem_map_of_mem matched, decide_eq_true ne⟩

/-- An entry that points to itself adds nothing to what leads to a line. -/
theorem reaches_leadsTo_iff {a b : Nat} :
    ReflTransGen (LeadsTo (replyLines entries)) a b ↔ ReflTransGen (PointsTo entries) a b := by
  constructor
  · intro path
    apply path.lift id
    intro x y move
    exact (leadsTo_iff.mp move).1
  · intro path
    induction path with
    | refl => exact .refl
    | @tail b c _ move ih =>
      by_cases same : b = c
      · exact same ▸ ih
      · exact ih.tail (leadsTo_iff.mpr ⟨move, same⟩)

theorem mem_collect_iff (root : Nat) (e : ThreadEntry Json) :
    e ∈ collect entries (root :: entries.map ThreadEntry.lineNumber).dedup [root] ↔
      e ∈ entries ∧ ReflTransGen (PointsTo entries) e.lineNumber root := by
  have rootThere : root ∈ (root :: entries.map ThreadEntry.lineNumber).dedup :=
    List.mem_dedup.mpr List.mem_cons_self
  have closed : ∀ a b, LeadsTo (replyLines entries) a b →
      a ∈ (root :: entries.map ThreadEntry.lineNumber).dedup := by
    intro a b move
    apply List.mem_dedup.mpr
    exact List.mem_cons_of_mem root (line_of_pointsTo (leadsTo_iff.mp move).1)
  rw [collect_eq_explore, List.mem_flatMap]
  constructor
  · rintro ⟨target, explored, matched⟩
    have path : ReflTransGen (PointsTo entries) target root :=
      reaches_leadsTo_iff.mp ((mem_explore_iff rootThere closed).mp explored)
    obtain ⟨he, place⟩ := mem_matching.mp matched
    rcases place with rfl | points
    · exact ⟨he, path⟩
    · exact ⟨he, path.head ⟨e, he, rfl, points⟩⟩
  · rintro ⟨he, path⟩
    refine ⟨e.lineNumber, ?_, mem_matching.mpr ⟨he, .inl rfl⟩⟩
    exact (mem_explore_iff rootThere closed).mpr (reaches_leadsTo_iff.mpr path)

end Collection

section Sorted
variable {Json : Type}

theorem mem_of_dedupFrom (last : Option Nat) (l : List (ThreadEntry Json)) {e : ThreadEntry Json}
    (h : e ∈ dedupFrom last l) : e ∈ l := by
  induction l generalizing last with
  | nil => exact h
  | cons x rest ih =>
    rw [dedupFrom] at h
    split at h
    · exact List.mem_cons_of_mem x (ih last h)
    · rcases List.mem_cons.mp h with rfl | later
      · exact List.mem_cons_self
      · exact List.mem_cons_of_mem x (ih (some x.lineNumber) later)

theorem lineNumber_mem_dedupFrom (last : Option Nat) (l : List (ThreadEntry Json))
    {e : ThreadEntry Json} (h : e ∈ l) (new : some e.lineNumber ≠ last) :
    e.lineNumber ∈ (dedupFrom last l).map ThreadEntry.lineNumber := by
  induction l generalizing last with
  | nil => cases h
  | cons x rest ih =>
    rw [dedupFrom]
    split
    · rename_i repeated
      rcases List.mem_cons.mp h with rfl | later
      · exact absurd repeated new
      · exact ih last later new
    · by_cases same : e.lineNumber = x.lineNumber
      · rw [same]
        exact List.mem_cons_self
      · rcases List.mem_cons.mp h with rfl | later
        · exact absurd rfl same
        · exact List.mem_cons_of_mem _ (ih (some x.lineNumber) later fun h => same (Option.some.inj h))

/-- What is left of a sorted list has strictly increasing lines, behind the last one. -/
theorem dedupFrom_increasing (last : Nat) (l : List (ThreadEntry Json))
    (sorted : l.Pairwise fun a b => a.lineNumber ≤ b.lineNumber)
    (behind : ∀ e ∈ l, last ≤ e.lineNumber) :
    (dedupFrom (some last) l).Pairwise (fun a b => a.lineNumber < b.lineNumber) ∧
      ∀ e ∈ dedupFrom (some last) l, last < e.lineNumber := by
  induction l generalizing last with
  | nil => exact ⟨.nil, fun _ h => by cases h⟩
  | cons x rest ih =>
    obtain ⟨below, sortedRest⟩ := List.pairwise_cons.mp sorted
    have xBehind : last ≤ x.lineNumber := behind x List.mem_cons_self
    rw [dedupFrom]
    split
    · exact ih last sortedRest fun e he => behind e (List.mem_cons_of_mem x he)
    · rename_i new
      have later : last < x.lineNumber := by
        have ne : x.lineNumber ≠ last := fun same => new (congrArg some same)
        omega
      obtain ⟨increasing, above⟩ := ih x.lineNumber sortedRest below
      refine ⟨List.pairwise_cons.mpr ⟨above, increasing⟩, ?_⟩
      intro e he
      rcases List.mem_cons.mp he with rfl | tail
      · exact later
      · exact Nat.lt_trans later (above e tail)

theorem dedupFrom_none_increasing (l : List (ThreadEntry Json))
    (sorted : l.Pairwise fun a b => a.lineNumber ≤ b.lineNumber) :
    (dedupFrom none l).Pairwise fun a b => a.lineNumber < b.lineNumber := by
  cases l with
  | nil => exact .nil
  | cons x rest =>
    obtain ⟨below, sortedRest⟩ := List.pairwise_cons.mp sorted
    obtain ⟨increasing, above⟩ := dedupFrom_increasing x.lineNumber rest sortedRest below
    rw [dedupFrom, if_neg (by simp)]
    exact List.pairwise_cons.mpr ⟨above, increasing⟩

variable {entries : List (ThreadEntry Json)}

theorem threadOf_increasing (root : Nat) :
    (threadOf entries root).Pairwise fun a b => a.lineNumber < b.lineNumber := by
  have total : Std.Total (fun a b : ThreadEntry Json => a.lineNumber ≤ b.lineNumber) :=
    ⟨fun a b => Nat.le_total a.lineNumber b.lineNumber⟩
  have trans : IsTrans (ThreadEntry Json) (fun a b => a.lineNumber ≤ b.lineNumber) :=
    ⟨fun _ _ _ => Nat.le_trans⟩
  exact dedupFrom_none_increasing _ (List.pairwise_insertionSort _ _)

theorem mem_threadOf_iff (distinct : (lines entries).Nodup) (root : Nat) (e : ThreadEntry Json) :
    e ∈ threadOf entries root ↔
      e ∈ entries ∧ ReflTransGen (PointsTo entries) e.lineNumber root := by
  rw [← mem_collect_iff root e]
  constructor
  · intro h
    exact (List.perm_insertionSort _ _).mem_iff.mp (mem_of_dedupFrom none _ h)
  · intro h
    have sortedMem := (List.perm_insertionSort (fun a b : ThreadEntry Json =>
      a.lineNumber ≤ b.lineNumber) _).mem_iff.mpr h
    obtain ⟨e', he', same⟩ := List.mem_map.mp (lineNumber_mem_dedupFrom none _ sortedMem nofun)
    have fromEntries : e' ∈ entries :=
      ((mem_collect_iff root e').mp
        ((List.perm_insertionSort _ _).mem_iff.mp (mem_of_dedupFrom none _ he'))).1
    have here : e ∈ entries := ((mem_collect_iff root e).mp h).1
    exact eq_of_lineNumber distinct fromEntries here same ▸ he'

end Sorted

section Whole
variable {Json : Type}

theorem threadView_whole (entries : List (ThreadEntry Json)) (distinct : (lines entries).Nodup)
    (positive : ∀ e ∈ entries, 0 < e.lineNumber) (l : Nat) (there : l ∈ lines entries) :
    let view := threadView entries l
    ReflTransGen (Follows entries) l view.root ∧
      (Terminal (Follows entries) view.root ∨ TransGen (Follows entries) view.root view.root) ∧
      view.shown.Pairwise (fun a b => a.lineNumber < b.lineNumber) ∧
      view.root ∈ lines view.shown ∧
      (∀ e, e ∈ view.shown ↔
        e ∈ entries ∧ ReflTransGen (PointsTo entries) e.lineNumber view.root) ∧
      (NoCycleAbove (Follows entries) l → Topmost (Follows entries) l view.root ∧
        ∀ l' ∈ lines entries, ∀ t, Topmost (Follows entries) l t → Topmost (Follows entries) l' t →
          threadView entries l' = view) := by
  have same := climbs_eq_follows positive
  obtain ⟨path, stop⟩ := rootLine_spec distinct there
  rw [← same]
  refine ⟨path, stop, threadOf_increasing _, ?_, mem_threadOf_iff distinct _, ?_⟩
  · obtain ⟨e, he, hline⟩ := List.mem_map.mp (line_of_climbs path there)
    have shown : e ∈ threadOf entries (rootLine entries entries l) :=
      (mem_threadOf_iff distinct _ e).mpr ⟨he, hline ▸ .refl⟩
    exact List.mem_map.mpr ⟨e, shown, hline⟩
  · intro free
    refine ⟨rootLine_topmost distinct there free, ?_⟩
    intro l' there' t top top'
    simp only [threadView, rootLine_of_topmost distinct there' top',
      rootLine_of_topmost distinct there top]

def remark (line parent : Nat) : ThreadEntry Unit :=
  .message ⟨line, parent, ⟨"ann".toList, .inl (by decide)⟩, [], []⟩

/-- Two replies in a row, an answer to a missing line and a cycle of two. -/
def mixedThread : List (ThreadEntry Unit) :=
  [remark 1 0, remark 2 1, remark 3 2, remark 4 9, remark 5 6, remark 6 5]

theorem mixedThread_follows {a b : Nat} (h : (a, b) ∈ [(2, 1), (3, 2)]) :
    Follows mixedThread a b := by
  refine ⟨⟨remark a b, ?_, rfl, rfl⟩, ?_⟩
  · rcases List.mem_cons.mp h with h | h
    · cases h
      decide
    · cases List.mem_singleton.mp h
      decide
  · rcases List.mem_cons.mp h with h | h
    · cases h
      decide
    · cases List.mem_singleton.mp h
      decide

theorem mixedThread_terminal : Terminal (Follows mixedThread) 1 := by
  rintro b ⟨⟨e, he, hline, rfl⟩, there⟩
  revert e
  decide

theorem threadView_whole_mixed :
    Topmost (Follows mixedThread) 3 (threadView mixedThread 3).root ∧
      threadView mixedThread 2 = threadView mixedThread 3 := by
  have two : Topmost (Follows mixedThread) 2 1 :=
    ⟨.single (mixedThread_follows (by decide)), mixedThread_terminal⟩
  have three : Topmost (Follows mixedThread) 3 1 :=
    ⟨two.1.head (mixedThread_follows (by decide)), mixedThread_terminal⟩
  have distinct : (lines mixedThread).Nodup := by decide
  have positive : ∀ e ∈ mixedThread, 0 < e.lineNumber := by decide
  have free : NoCycleAbove (Follows mixedThread) 3 := by
    rw [← climbs_eq_follows positive] at three ⊢
    exact three.noCycleAbove (climbs_unique distinct)
  have whole := (threadView_whole mixedThread distinct positive 3 (by decide)).2.2.2.2.2 free
  exact ⟨whole.1, whole.2 2 (by decide) 1 three two⟩

end Whole

end ThreadViews
