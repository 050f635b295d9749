import Mathlib.Data.Finset.Card
import Mathlib.Logic.Relation

/-!
# Functional graphs and searches

Graphs in which every node has at most one successor: their ends, their cycles and the nodes that
lead to a node. A search with a stack and a set of unvisited nodes finds in any graph what leads
to the nodes of the stack.
-/

namespace FunctionalGraphs

open Relation

section Successors
variable {α : Type} {step : α → α → Prop} {a b c t : α}

def Terminal (step : α → α → Prop) (a : α) : Prop := ∀ b, ¬ step a b

def Topmost (step : α → α → Prop) (a t : α) : Prop := ReflTransGen step a t ∧ Terminal step t

/-- No node that can be reached from here lies on a cycle. -/
def NoCycleAbove (step : α → α → Prop) (a : α) : Prop :=
  ∀ b, ReflTransGen step a b → ¬ TransGen step b b

theorem reaches_of_terminal (unique : Relator.RightUnique step) (last : Terminal step t)
    (toTerminal : ReflTransGen step a t) (toOther : ReflTransGen step a b) :
    ReflTransGen step b t := by
  rcases ReflTransGen.total_of_right_unique unique toTerminal toOther with back | onward
  · rcases reflTransGen_iff_eq_or_transGen.mp back with rfl | moved
    · exact .refl
    · obtain ⟨next, first, -⟩ := TransGen.head'_iff.mp moved
      exact absurd first (last next)
  · exact onward

theorem topmost_unique (unique : Relator.RightUnique step) (top : Topmost step a t)
    (top' : Topmost step a c) : t = c := by
  have onward : ReflTransGen step c t := reaches_of_terminal unique top.2 top.1 top'.1
  rcases reflTransGen_iff_eq_or_transGen.mp onward with same | moved
  · exact same
  · obtain ⟨next, first, -⟩ := TransGen.head'_iff.mp moved
    exact absurd first (top'.2 next)

/-- A cycle is closed under steps: what follows a node of a cycle lies on one. -/
theorem onCycle_step (unique : Relator.RightUnique step) (cycle : TransGen step a a)
    (move : step a b) : TransGen step b b := by
  obtain ⟨next, first, rest⟩ := TransGen.head'_iff.mp cycle
  have same : next = b := unique first move
  subst same
  exact TransGen.tail' rest move

theorem onCycle_of_reaches (unique : Relator.RightUnique step) (cycle : TransGen step a a)
    (path : ReflTransGen step a b) : TransGen step b b := by
  induction path with
  | refl => exact cycle
  | tail _ move ih => exact onCycle_step unique ih move

theorem Topmost.noCycleAbove (unique : Relator.RightUnique step) (top : Topmost step a t) :
    NoCycleAbove step a := by
  intro b toB cycle
  have onward : ReflTransGen step b t := reaches_of_terminal unique top.2 top.1 toB
  obtain ⟨next, first, -⟩ := TransGen.head'_iff.mp (onCycle_of_reaches unique cycle onward)
  exact top.2 next first

/-- Two different predecessors of a node that lies on no cycle have no common origin. -/
theorem predecessor_unique (unique : Relator.RightUnique step) (free : ¬ TransGen step t t)
    (moveA : step a t) (moveB : step b t) (toA : ReflTransGen step c a)
    (toB : ReflTransGen step c b) : a = b := by
  have later : ∀ {x y : α}, step x t → step y t → ReflTransGen step x y → x = y := by
    intro x y moveX moveY path
    rcases reflTransGen_iff_eq_or_transGen.mp path with same | moved
    · exact same.symm
    · obtain ⟨next, first, rest⟩ := TransGen.head'_iff.mp moved
      have same : next = t := unique first moveX
      subst same
      exact absurd (TransGen.tail' rest moveY) free
  rcases ReflTransGen.total_of_right_unique unique toA toB with path | path
  · exact later moveA moveB path
  · exact (later moveB moveA path).symm

end Successors

section Search
variable {α : Type} [DecidableEq α] (next : α → List α)

/-- The nodes that a search expands; the stack is a list with its top in front. -/
def explore (unvisited : List α) : List α → List α
  | [] => []
  | target :: stack =>
    if _h : target ∈ unvisited then
      target :: explore (unvisited.erase target) (next target ++ stack)
    else explore unvisited stack
termination_by stack => (unvisited.length, stack.length)
decreasing_by
  · apply Prod.Lex.left
    rw [List.length_erase_of_mem _h]
    have positive : 0 < unvisited.length := List.length_pos_of_mem _h
    omega
  · apply Prod.Lex.right
    exact Nat.lt_succ_self _

/-- A node leads to the one that brings it onto the stack. -/
def LeadsTo (a b : α) : Prop := a ∈ next b

variable {next}

theorem reaches_of_explore (unvisited stack : List α) {x : α} (h : x ∈ explore next unvisited stack) :
    ∃ s ∈ stack, ReflTransGen (LeadsTo next) x s := by
  induction unvisited, stack using explore.induct next with
  | case1 unvisited => simp [explore] at h
  | case2 unvisited target stack fresh ih =>
    rw [explore, dif_pos fresh] at h
    rcases List.mem_cons.mp h with rfl | later
    · exact ⟨x, List.mem_cons_self, .refl⟩
    obtain ⟨s, hs, path⟩ := ih later
    rcases List.mem_append.mp hs with below | old
    · exact ⟨target, List.mem_cons_self, path.tail below⟩
    · exact ⟨s, List.mem_cons_of_mem target old, path⟩
  | case3 unvisited target stack seen ih =>
    rw [explore, dif_neg seen] at h
    obtain ⟨s, hs, path⟩ := ih h
    exact ⟨s, List.mem_cons_of_mem target hs, path⟩

/-- A path of nodes that have not been expanded. -/
def FreshPath (next : α → List α) (unvisited : List α) (a s : α) : Prop :=
  a ∈ unvisited ∧ ReflTransGen (fun x y => LeadsTo next x y ∧ y ∈ unvisited) a s

omit [DecidableEq α] in
theorem FreshPath.end_mem {unvisited : List α} {a s : α} (path : FreshPath next unvisited a s) :
    s ∈ unvisited := by
  cases path.2 with
  | refl => exact path.1
  | tail _ move => exact move.2

/-- Once a node is expanded, a path starts there, or avoids it up to its old end or to a node that
leads to the expanded one. -/
theorem FreshPath.erase {unvisited : List α} {a s t : α} (path : FreshPath next unvisited a s) :
    a = t ∨ ∃ y, y ≠ t ∧ (y = s ∨ LeadsTo next y t) ∧ FreshPath next (unvisited.erase t) a y := by
  obtain ⟨start, moves⟩ := path
  revert start
  induction moves using ReflTransGen.head_induction_on with
  | refl =>
    intro start
    by_cases same : s = t
    · exact .inl same
    · exact .inr ⟨s, same, .inl rfl, (List.mem_erase_of_ne same).mpr start, .refl⟩
  | @head x y move _ ih =>
    intro start
    by_cases same : x = t
    · exact .inl same
    have kept : x ∈ unvisited.erase t := (List.mem_erase_of_ne same).mpr start
    rcases ih move.2 with rfl | ⟨z, ne, stop, first, rest⟩
    · exact .inr ⟨x, same, .inr move.1, kept, .refl⟩
    · exact .inr ⟨z, ne, stop, kept, .head ⟨move.1, first⟩ rest⟩

theorem explore_of_freshPath (unvisited stack : List α) {x : α}
    (h : ∃ s ∈ stack, FreshPath next unvisited x s) : x ∈ explore next unvisited stack := by
  induction unvisited, stack using explore.induct next with
  | case1 unvisited =>
    obtain ⟨s, hs, -⟩ := h
    cases hs
  | case2 unvisited target stack fresh ih =>
    rw [explore, dif_pos fresh]
    obtain ⟨s, hs, path⟩ := h
    rcases path.erase (t := target) with rfl | ⟨y, ne, stop, rest⟩
    · exact List.mem_cons_self
    apply List.mem_cons_of_mem
    apply ih
    refine ⟨y, ?_, rest⟩
    rcases stop with rfl | below
    · exact List.mem_append_right _ ((List.mem_cons.mp hs).resolve_left ne)
    · exact List.mem_append_left _ below
  | case3 unvisited target stack seen ih =>
    rw [explore, dif_neg seen]
    apply ih
    obtain ⟨s, hs, path⟩ := h
    rcases List.mem_cons.mp hs with rfl | old
    · exact absurd path.end_mem seen
    · exact ⟨s, old, path⟩

/-- From one node, with all nodes unvisited, a search finds exactly what leads to the node. -/
theorem mem_explore_iff {unvisited : List α} {root : α} (rootThere : root ∈ unvisited)
    (closed : ∀ a b, LeadsTo next a b → a ∈ unvisited) {x : α} :
    x ∈ explore next unvisited [root] ↔ ReflTransGen (LeadsTo next) x root := by
  constructor
  · intro h
    obtain ⟨s, hs, path⟩ := reaches_of_explore unvisited [root] h
    exact List.mem_singleton.mp hs ▸ path
  · intro path
    apply explore_of_freshPath unvisited [root]
    refine ⟨root, List.mem_singleton.mpr rfl, ?_⟩
    induction path using ReflTransGen.head_induction_on with
    | refl => exact ⟨rootThere, .refl⟩
    | head move _ ih => exact ⟨closed _ _ move, .head ⟨move, ih.1⟩ ih.2⟩

end Search

section Origins
variable {α : Type} (step : α → α → Prop) (nodes : Finset α)

open Classical in
/-- The nodes from which a node is reached in one or more steps. -/
noncomputable def origins (a : α) : Finset α := nodes.filter fun b => TransGen step b a

variable {step nodes}

theorem origins_lt {a b : α} (member : b ∈ nodes) (free : ¬ TransGen step b b) (move : step b a) :
    (origins step nodes b).card < (origins step nodes a).card := by
  classical
  apply Finset.card_lt_card
  constructor
  · intro x hx
    obtain ⟨inside, path⟩ := Finset.mem_filter.mp hx
    exact Finset.mem_filter.mpr ⟨inside, path.tail move⟩
  · intro all
    have here : b ∈ origins step nodes a := Finset.mem_filter.mpr ⟨member, .single move⟩
    exact free (Finset.mem_filter.mp (all here)).2

end Origins

end FunctionalGraphs
