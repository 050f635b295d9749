import GitIM.FunctionalGraphs
import Mathlib.Data.Finset.Card

/-!
# Depth-first search with three colours

A search marks a node gray while its successors are visited and black behind them, and ends where it
meets a gray node. Started from every node it meets one exactly if the graph has a cycle. The bound
on its depth does not matter where it exceeds the number of white nodes.
-/

namespace DepthFirst

open Relation FunctionalGraphs

inductive Colour where
  | white
  | gray
  | black
  deriving DecidableEq

variable {α : Type}

section Search
variable (next : α → List α)

/-- The nodes one after the other, up to the first that ends the search. -/
def visitAll (visit : α → (α → Colour) → Bool × (α → Colour)) :
    List α → (α → Colour) → Bool × (α → Colour)
  | [], m => (false, m)
  | a :: rest, m =>
    match visit a m with
    | (true, m) => (true, m)
    | (false, m) => visitAll visit rest m

def dfs [DecidableEq α] : Nat → α → (α → Colour) → Bool × (α → Colour)
  | 0, _, m => (false, m)
  | fuel + 1, a, m =>
    match m a with
    | .gray => (true, m)
    | .black => (false, m)
    | .white =>
      match visitAll (dfs fuel) (next a) (Function.update m a .gray) with
      | (true, m) => (true, m)
      | (false, m) => (false, Function.update m a .black)

def Edge (a b : α) : Prop := b ∈ next a

def Cyclic : Prop := ∃ a, TransGen (Edge next) a a

/-- Nothing leads from a black node to one that is not black, and nothing black to a cycle. -/
structure Settled (m : α → Colour) : Prop where
  closed : ∀ a, m a = .black → ∀ b ∈ next a, m b = .black
  acyclic : ∀ a, m a = .black → NoCycleAbove (Edge next) a

/-- The gray nodes are the same, and what was black still is. -/
structure Extends (m m' : α → Colour) : Prop where
  gray : ∀ a, m' a = .gray ↔ m a = .gray
  black : ∀ a, m a = .black → m' a = .black

def whites (nodes : Finset α) (m : α → Colour) : Nat := (nodes.filter fun a => m a = .white).card

end Search

section Marks
variable {next : α → List α} {nodes : Finset α} {m m' m'' : α → Colour} {a : α}

theorem Extends.refl (m : α → Colour) : Extends m m := by
  constructor
  · intro a
    exact Iff.rfl
  · intro a h
    exact h

theorem Extends.trans (h : Extends m m') (h' : Extends m' m'') : Extends m m'' := by
  constructor
  · intro a
    exact (h'.gray a).trans (h.gray a)
  · intro a hblack
    exact h'.black a (h.black a hblack)

/-- Nothing becomes white. -/
def Darker (m m' : α → Colour) : Prop := ∀ a, m' a = .white → m a = .white

theorem Extends.darker (h : Extends m m') : Darker m m' := by
  intro a hwhite
  cases hcolour : m a with
  | white => rfl
  | gray =>
    rw [(h.gray a).mpr hcolour] at hwhite
    cases hwhite
  | black =>
    rw [h.black a hcolour] at hwhite
    cases hwhite

theorem whites_le (h : Darker m m') : whites nodes m' ≤ whites nodes m := by
  refine Finset.card_le_card ?_
  intro a ha
  rw [Finset.mem_filter] at ha ⊢
  exact ⟨ha.1, h a ha.2⟩

theorem Settled.reach (h : Settled next m) {b : α} (hblack : m a = .black)
    (hreach : ReflTransGen (Edge next) a b) : m b = .black := by
  induction hreach with
  | refl => exact hblack
  | tail _ hedge ih => exact h.closed _ ih _ hedge

variable [DecidableEq α]

theorem whites_update_lt {c : Colour} (hmem : a ∈ nodes) (hwhite : m a = .white)
    (hc : c ≠ .white) : whites nodes (Function.update m a c) < whites nodes m := by
  refine Finset.card_lt_card (Finset.ssubset_iff_of_subset ?_ |>.mpr ⟨a, ?_, ?_⟩)
  · intro b hb
    rw [Finset.mem_filter] at hb ⊢
    refine ⟨hb.1, ?_⟩
    by_cases hba : b = a
    · rw [hba]
      exact hwhite
    · rw [← hb.2, Function.update_of_ne hba]
  · exact Finset.mem_filter.mpr ⟨hmem, hwhite⟩
  · rw [Finset.mem_filter, Function.update_self]
    exact fun h => hc h.2

theorem settled_gray (h : Settled next m) (hwhite : m a = .white) :
    Settled next (Function.update m a .gray) := by
  have hsame : ∀ b, Function.update m a Colour.gray b = .black → m b = .black := by
    intro b hb
    by_cases hba : b = a
    · rw [hba, Function.update_self] at hb
      cases hb
    · rwa [Function.update_of_ne hba] at hb
  constructor
  · intro b hb c hc
    have hblack := h.closed b (hsame b hb) c hc
    have hca : c ≠ a := by
      rintro rfl
      rw [hwhite] at hblack
      cases hblack
    rwa [Function.update_of_ne hca]
  · intro b hb
    exact h.acyclic b (hsame b hb)

/-- A node whose successors are black can be black too. -/
theorem settled_black (h : Settled next m) (hgray : m a ≠ .black)
    (hnext : ∀ b ∈ next a, m b = .black) : Settled next (Function.update m a .black) := by
  have hcase : ∀ b, Function.update m a Colour.black b = .black → b = a ∨ m b = .black := by
    intro b hb
    by_cases hba : b = a
    · exact Or.inl hba
    · rw [Function.update_of_ne hba] at hb
      exact Or.inr hb
  have hblack : ∀ b, m b = .black → Function.update m a Colour.black b = .black := by
    intro b hb
    by_cases hba : b = a
    · rw [hba, Function.update_self]
    · rwa [Function.update_of_ne hba]
  constructor
  · intro b hb c hc
    rcases hcase b hb with rfl | hb
    · exact hblack c (hnext c hc)
    · exact hblack c (h.closed b hb c hc)
  · intro b hb
    rcases hcase b hb with rfl | hb
    · intro c hreach hcycle
      rcases ReflTransGen.cases_head hreach with rfl | ⟨d, hedge, hrest⟩
      · obtain ⟨d, hedge, hrest⟩ := TransGen.head'_iff.mp hcycle
        exact hgray (h.reach (hnext d hedge) hrest)
      · exact h.acyclic d (hnext d hedge) c hrest hcycle
    · exact h.acyclic b hb

end Marks

section Specification
variable {next : α → List α} {nodes : Finset α}

/-- What a visit of a node does that all gray nodes lead to. -/
def Visits (next : α → List α) (visit : α → (α → Colour) → Bool × (α → Colour)) (a : α) (m : α → Colour) : Prop :=
  match visit a m with
  | (true, _) => Cyclic next
  | (false, m') => Settled next m' ∧ Extends m m' ∧ m' a = .black

/-- The marks with which a search can go on at a node with so much fuel. -/
structure Ready (next : α → List α) (nodes : Finset α) (fuel : Nat) (m : α → Colour) : Prop where
  settled : Settled next m
  inside : ∀ a, m a = .white → a ∈ nodes
  fuelled : whites nodes m < fuel

theorem Ready.extends {fuel : Nat} {m m' : α → Colour} (h : Ready next nodes fuel m)
    (hsettled : Settled next m') (hextends : Extends m m') : Ready next nodes fuel m' := by
  constructor
  · exact hsettled
  · intro a hwhite
    exact h.inside a (hextends.darker a hwhite)
  · exact Nat.lt_of_le_of_lt (whites_le hextends.darker) h.fuelled

theorem visitAll_spec (visit : α → (α → Colour) → Bool × (α → Colour)) {fuel : Nat}
    (hvisit : ∀ a m, Ready next nodes fuel m → (∀ g, m g = .gray → TransGen (Edge next) g a) →
      Visits next visit a m) (l : List α) {m : α → Colour}
    (hready : Ready next nodes fuel m)
    (hgray : ∀ a ∈ l, ∀ g, m g = .gray → TransGen (Edge next) g a) :
    match visitAll visit l m with
    | (true, _) => Cyclic next
    | (false, m') => Settled next m' ∧ Extends m m' ∧ ∀ a ∈ l, m' a = .black := by
  induction l generalizing m with
  | nil => exact ⟨hready.settled, Extends.refl m, List.forall_mem_nil _⟩
  | cons a rest ih =>
    have hfirst := hvisit a m hready (hgray a List.mem_cons_self)
    rw [Visits] at hfirst
    rw [visitAll]
    rcases hend : visit a m with ⟨_ | _, m'⟩
    · simp only [hend] at hfirst ⊢
      obtain ⟨hsettled, hextends, hblack⟩ := hfirst
      have hrest := ih (hready.extends hsettled hextends) (by
        intro b hb g hg
        exact hgray b (List.mem_cons_of_mem a hb) g ((hextends.gray g).mp hg))
      rcases hlast : visitAll visit rest m' with ⟨_ | _, m''⟩
      · simp only [hlast] at hrest ⊢
        obtain ⟨hsettled', hextends', hblacks⟩ := hrest
        refine ⟨hsettled', hextends.trans hextends', ?_⟩
        intro b hb
        rcases List.mem_cons.mp hb with rfl | hb
        · exact hextends'.black b hblack
        · exact hblacks b hb
      · simp only [hlast] at hrest ⊢
        exact hrest
    · simp only [hend] at hfirst ⊢
      exact hfirst

variable [DecidableEq α]

theorem dfs_spec (fuel : Nat) (a : α) (m : α → Colour) (hready : Ready next nodes fuel m)
    (hgray : ∀ g, m g = .gray → TransGen (Edge next) g a) :
    Visits next (dfs next fuel) a m := by
  induction fuel generalizing a m with
  | zero => exact absurd hready.fuelled (Nat.not_lt_zero _)
  | succ fuel ih =>
    rw [Visits, dfs]
    cases hcolour : m a with
    | gray => exact ⟨a, hgray a hcolour⟩
    | black => exact ⟨hready.settled, Extends.refl m, hcolour⟩
    | white =>
      have hmem := hready.inside a hcolour
      have hfewer := whites_update_lt (c := .gray) hmem hcolour (by decide)
      have hready' : Ready next nodes fuel (Function.update m a .gray) := by
        constructor
        · exact settled_gray hready.settled hcolour
        · intro b hb
          by_cases hba : b = a
          · rw [hba]
            exact hmem
          · rw [Function.update_of_ne hba] at hb
            exact hready.inside b hb
        · exact Nat.lt_of_lt_of_le hfewer (Nat.le_of_lt_succ hready.fuelled)
      have hall := visitAll_spec (dfs next fuel) ih (next a) hready' (by
        intro b hb g hg
        by_cases hga : g = a
        · rw [hga]
          exact .single hb
        · rw [Function.update_of_ne hga] at hg
          exact (hgray g hg).tail hb)
      rcases hend : visitAll (dfs next fuel) (next a) (Function.update m a .gray) with ⟨_ | _, m'⟩
      · simp only [hend] at hall ⊢
        obtain ⟨hsettled, hextends, hnext⟩ := hall
        have hgray' : m' a = .gray := (hextends.gray a).mpr (Function.update_self ..)
        refine ⟨settled_black hsettled (by rw [hgray']; decide) hnext, ?_, Function.update_self ..⟩
        constructor
        · intro b
          by_cases hba : b = a
          · rw [hba, Function.update_self, hcolour]
            decide
          · have hsame := hextends.gray b
            rw [Function.update_of_ne hba] at hsame
            rw [Function.update_of_ne hba, hsame]
        · intro b hb
          by_cases hba : b = a
          · rw [hba, Function.update_self]
          · rw [Function.update_of_ne hba]
            exact hextends.black b (by rwa [Function.update_of_ne hba])
      · simp only [hend] at hall ⊢
        exact hall

/-- Before the search: the nodes of the graph are white. -/
def initial (nodes : Finset α) (a : α) : Colour := if a ∈ nodes then .white else .black

theorem ready_initial {fuel : Nat} (hfuel : nodes.card < fuel)
    (houtside : ∀ a, a ∉ nodes → next a = []) : Ready next nodes fuel (initial nodes) := by
  have hblack : ∀ a, initial nodes a = .black → next a = [] := by
    intro a ha
    refine houtside a ?_
    intro hmem
    rw [initial, if_pos hmem] at ha
    cases ha
  constructor
  · constructor
    · intro a ha b hb
      rw [hblack a ha] at hb
      cases hb
    · intro a ha b hreach hcycle
      rcases ReflTransGen.cases_head hreach with rfl | ⟨c, hedge, -⟩
      · obtain ⟨c, hedge, -⟩ := TransGen.head'_iff.mp hcycle
        rw [Edge, hblack a ha] at hedge
        cases hedge
      · rw [Edge, hblack a ha] at hedge
        cases hedge
  · intro a ha
    by_contra hmem
    rw [initial, if_neg hmem] at ha
    cases ha
  · exact Nat.lt_of_le_of_lt (Finset.card_filter_le _ _) hfuel

/-- A search from every node ends early exactly if there is a cycle. -/
theorem search_iff {fuel : Nat} (hfuel : nodes.card < fuel)
    (houtside : ∀ a, a ∉ nodes → next a = []) {roots : List α} (hroots : ∀ a ∈ nodes, a ∈ roots) :
    (visitAll (dfs next fuel) roots (initial nodes)).1 = true ↔ Cyclic next := by
  have hnogray : ∀ g, initial nodes g ≠ .gray := by
    intro g
    rw [initial]
    split <;> decide
  have hspec := visitAll_spec (dfs next fuel) (dfs_spec fuel) roots
    (ready_initial hfuel houtside) (fun a _ g hg => absurd hg (hnogray g))
  rcases hend : visitAll (dfs next fuel) roots (initial nodes) with ⟨_ | _, m⟩
  · simp only [hend] at hspec ⊢
    obtain ⟨hsettled, -, hblack⟩ := hspec
    refine iff_of_false Bool.false_ne_true ?_
    rintro ⟨a, hcycle⟩
    obtain ⟨b, hedge, -⟩ := TransGen.head'_iff.mp hcycle
    have hmem : a ∈ nodes := by
      by_contra hmem
      rw [Edge, houtside a hmem] at hedge
      cases hedge
    exact hsettled.acyclic a (hblack a (hroots a hmem)) a .refl hcycle
  · simp only [hend] at hspec ⊢
    exact iff_of_true trivial hspec

end Specification

section Fuel
variable {next : α → List α} {nodes : Finset α}

theorem visitAll_darker {visit : α → (α → Colour) → Bool × (α → Colour)}
    (hvisit : ∀ a m, Darker m (visit a m).2) (l : List α) (m : α → Colour) :
    Darker m (visitAll visit l m).2 := by
  induction l generalizing m with
  | nil => exact fun _ h => h
  | cons a rest ih =>
    have hfirst := hvisit a m
    rw [visitAll]
    rcases hend : visit a m with ⟨_ | _, m'⟩
    · rw [hend] at hfirst
      intro b hb
      exact hfirst b (ih m' b hb)
    · rw [hend] at hfirst
      exact hfirst

theorem visitAll_congr {visit visit' : α → (α → Colour) → Bool × (α → Colour)} {n : Nat}
    (hvisit : ∀ a m, Darker m (visit a m).2)
    (hsame : ∀ a m, (∀ b, m b = .white → b ∈ nodes) → whites nodes m < n → visit a m = visit' a m)
    (l : List α) {m : α → Colour} (hinside : ∀ b, m b = .white → b ∈ nodes)
    (hfew : whites nodes m < n) : visitAll visit l m = visitAll visit' l m := by
  induction l generalizing m with
  | nil => rfl
  | cons a rest ih =>
    have hdarker := hvisit a m
    rw [visitAll, visitAll, ← hsame a m hinside hfew]
    rcases hend : visit a m with ⟨_ | _, m'⟩
    · rw [hend] at hdarker
      refine ih ?_ (Nat.lt_of_le_of_lt (whites_le hdarker) hfew)
      intro b hb
      exact hinside b (hdarker b hb)
    · rfl

variable [DecidableEq α]

theorem darker_update {m : α → Colour} {a : α} {c : Colour} (hc : c ≠ .white) :
    Darker m (Function.update m a c) := by
  intro b hb
  by_cases hba : b = a
  · rw [hba, Function.update_self] at hb
    exact absurd hb hc
  · rwa [Function.update_of_ne hba] at hb

theorem dfs_darker (fuel : Nat) (a : α) (m : α → Colour) : Darker m (dfs next fuel a m).2 := by
  induction fuel generalizing a m with
  | zero => exact fun _ h => h
  | succ fuel ih =>
    rw [dfs]
    cases m a with
    | gray => exact fun _ h => h
    | black => exact fun _ h => h
    | white =>
      have hgray : Darker m (Function.update m a .gray) := darker_update (by decide)
      have hall := visitAll_darker ih (next a) (Function.update m a .gray)
      rcases hend : visitAll (dfs next fuel) (next a) (Function.update m a .gray) with ⟨_ | _, m'⟩
      · simp only [hend] at hall ⊢
        intro b hb
        have hblack : Darker m' (Function.update m' a .black) := darker_update (by decide)
        exact hgray b (hall b (hblack b hb))
      · simp only [hend] at hall ⊢
        intro b hb
        exact hgray b (hall b hb)

/-- A depth beyond the number of white nodes is not reached. -/
theorem dfs_fuel (fuel : Nat) (a : α) (m : α → Colour) (hinside : ∀ b, m b = .white → b ∈ nodes)
    (hfew : whites nodes m < fuel) : dfs next fuel a m = dfs next (fuel + 1) a m := by
  induction fuel generalizing a m with
  | zero => exact absurd hfew (Nat.not_lt_zero _)
  | succ fuel ih =>
    rw [dfs, dfs]
    cases hcolour : m a with
    | gray => rfl
    | black => rfl
    | white =>
      have hfewer := whites_update_lt (c := .gray) (hinside a hcolour) hcolour (by decide)
      have hgray : Darker m (Function.update m a .gray) := darker_update (by decide)
      have hsame := visitAll_congr (dfs_darker fuel) ih (next a)
        (fun b hb => hinside b (hgray b hb)) (Nat.lt_of_lt_of_le hfewer (Nat.le_of_lt_succ hfew))
      rw [hsame]

theorem search_fuel {fuel : Nat} (hfuel : nodes.card < fuel) (roots : List α) :
    visitAll (dfs next fuel) roots (initial nodes) =
      visitAll (dfs next (nodes.card + 1)) roots (initial nodes) := by
  have hinside : ∀ b, initial nodes b = .white → b ∈ nodes := by
    intro b hb
    by_contra hmem
    rw [initial, if_neg hmem] at hb
    cases hb
  induction fuel, hfuel using Nat.le_induction with
  | base => rfl
  | succ fuel hfuel ih =>
    rw [← ih]
    exact (visitAll_congr (dfs_darker fuel) (dfs_fuel fuel) roots hinside
      (Nat.lt_of_le_of_lt (Finset.card_filter_le _ _) hfuel)).symm

end Fuel

end DepthFirst
