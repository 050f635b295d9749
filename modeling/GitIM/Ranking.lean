import Mathlib.Data.List.Induction
import Mathlib.Data.List.Sort
import Mathlib.Tactic.Common

/-!
# The first few of a stream

A list is kept sorted while elements arrive one by one: each is appended, the list is
sorted again by a stable sort and cut to a fixed length. The outcome is the beginning of
the sorted stream, and it does not depend on the order in which blocks of elements arrive
that never tie.
-/

namespace Ranking

open Std

variable {α : Type} (cmp : α → α → Ordering)

/-- No later than. -/
def Ahead (a b : α) : Prop := (cmp a b).isLE = true

instance decidableAhead : DecidableRel (Ahead cmp) :=
  fun a b => inferInstanceAs (Decidable ((cmp a b).isLE = true))

/-- Behind everything that is no later. -/
def place (x : α) : List α → List α
  | [] => [x]
  | y :: ys => if Ahead cmp y x then y :: place x ys else x :: y :: ys

def keepFirst (n : Nat) (ranked : List α) (x : α) : List α :=
  ((ranked ++ [x]).insertionSort (Ahead cmp)).take n

section Order
variable {cmp} [TransCmp cmp]

theorem ahead_trans {a b c : α} (hab : Ahead cmp a b) (hbc : Ahead cmp b c) : Ahead cmp a c :=
  TransCmp.isLE_trans hab hbc

theorem ahead_of_not {a b : α} (h : ¬Ahead cmp a b) : Ahead cmp b a := by
  rw [Ahead, @OrientedCmp.eq_swap α cmp _ b a]
  rw [Ahead] at h
  cases hcmp : cmp a b with
  | lt => simp [hcmp] at h
  | eq => simp [hcmp] at h
  | gt => rfl

/-- Elements that do not tie are ordered one way only. -/
theorem not_ahead_of_ne {a b : α} (hne : cmp a b ≠ .eq) (h : Ahead cmp a b) : ¬Ahead cmp b a := by
  rw [Ahead] at h ⊢
  rw [@OrientedCmp.eq_swap α cmp _ b a]
  cases hcmp : cmp a b with
  | lt => simp
  | eq => exact absurd hcmp hne
  | gt => simp [hcmp] at h

end Order

section Place
variable {cmp}

theorem mem_place {x y : α} {l : List α} : y ∈ place cmp x l ↔ y = x ∨ y ∈ l := by
  induction l with
  | nil => simp [place]
  | cons z l ih =>
    rw [place]
    split
    · rw [List.mem_cons, ih, List.mem_cons]
      exact or_left_comm
    · rw [List.mem_cons]

/-- Only the first elements decide on the first elements. -/
theorem take_place (n : Nat) (x : α) (l : List α) :
    (place cmp x l).take n = (place cmp x (l.take n)).take n := by
  induction l generalizing n with
  | nil => rw [List.take_nil]
  | cons y l ih =>
    cases n with
    | zero => rfl
    | succ n =>
      rw [List.take_succ_cons, place, place]
      split
      · rw [List.take_succ_cons, List.take_succ_cons, ih]
      · rw [List.take_succ_cons, List.take_succ_cons]
        cases n with
        | zero => rfl
        | succ n =>
          rw [List.take_succ_cons, List.take_succ_cons, List.take_take, Nat.min_eq_left (Nat.le_succ n)]

variable [TransCmp cmp]

theorem pairwise_place {x : α} {l : List α} (h : l.Pairwise (Ahead cmp)) :
    (place cmp x l).Pairwise (Ahead cmp) := by
  induction l with
  | nil => exact List.pairwise_singleton _ _
  | cons y l ih =>
    obtain ⟨hy, hl⟩ := List.pairwise_cons.mp h
    rw [place]
    split
    · rename_i hyx
      refine List.pairwise_cons.mpr ⟨fun z hz => ?_, ih hl⟩
      rcases mem_place.mp hz with rfl | hz
      · exact hyx
      · exact hy z hz
    · rename_i hyx
      have hxy : Ahead cmp x y := ahead_of_not hyx
      refine List.pairwise_cons.mpr ⟨fun z hz => ?_, h⟩
      rcases List.mem_cons.mp hz with rfl | hz
      · exact hxy
      · exact ahead_trans hxy (hy z hz)

/-- The stable sort of a sorted list with a new last element. -/
theorem insertionSort_append_singleton {x : α} {l : List α} (h : l.Pairwise (Ahead cmp)) :
    (l ++ [x]).insertionSort (Ahead cmp) = place cmp x l := by
  induction l with
  | nil => rfl
  | cons y l ih =>
    obtain ⟨hy, hl⟩ := List.pairwise_cons.mp h
    rw [List.cons_append, List.insertionSort_cons, ih hl, place]
    split
    · rename_i hyx
      have hfirst : ∀ z ∈ place cmp x l, Ahead cmp y z := by
        intro z hz
        rcases mem_place.mp hz with rfl | hz
        · exact hyx
        · exact hy z hz
      cases hplace : place cmp x l with
      | nil => rfl
      | cons z rest =>
        rw [List.orderedInsert, if_pos]
        exact hfirst z (hplace ▸ List.mem_cons_self)
    · rename_i hyx
      cases l with
      | nil => rw [place, List.orderedInsert, if_neg hyx, List.orderedInsert]
      | cons z rest =>
        have hzx : ¬Ahead cmp z x := fun hzx => hyx (ahead_trans (hy z List.mem_cons_self) hzx)
        rw [place, if_neg hzx, List.orderedInsert, if_neg hyx, List.orderedInsert,
          if_pos (hy z List.mem_cons_self)]

/-- Elements that do not tie can be placed in either order. -/
theorem place_comm {a b : α} (hne : cmp a b ≠ .eq) (l : List α) :
    place cmp b (place cmp a l) = place cmp a (place cmp b l) := by
  -- the earlier of the two is `a`
  have hwlog : ∀ a b : α, cmp a b ≠ .eq → Ahead cmp a b → ∀ l : List α,
      place cmp b (place cmp a l) = place cmp a (place cmp b l) := by
    intro a b hne hab l
    have hba : ¬Ahead cmp b a := not_ahead_of_ne hne hab
    induction l with
    | nil =>
      simp only [place]
      rw [if_pos hab, if_neg hba]
    | cons y l ih =>
      by_cases hya : Ahead cmp y a
      · have hyb : Ahead cmp y b := ahead_trans hya hab
        rw [place, if_pos hya, place, if_pos hyb, ih, place, if_pos hyb, place, if_pos hya]
      · by_cases hyb : Ahead cmp y b
        · rw [place, if_neg hya, place, if_pos hab, place, if_pos hyb, place, if_neg hya]
        · rw [place, if_neg hya, place, if_pos hab, place, if_neg hyb, place, if_neg hba]
  by_cases hab : Ahead cmp a b
  · exact hwlog a b hne hab l
  · refine (hwlog b a (fun heq => hne ?_) (ahead_of_not hab) l).symm
    rw [@OrientedCmp.eq_swap α cmp _ a b, heq]
    rfl

end Place

section Stream
variable {cmp} [TransCmp cmp]

/-- The place at the end of its equals and the one in front of them do not disturb each other. -/
theorem orderedInsert_place (x y : α) (l : List α) :
    (place cmp x l).orderedInsert (Ahead cmp) y = place cmp x (l.orderedInsert (Ahead cmp) y) := by
  induction l with
  | nil => rfl
  | cons z l ih =>
    by_cases hzx : Ahead cmp z x
    · rw [place, if_pos hzx, List.orderedInsert_cons, List.orderedInsert_cons]
      by_cases hyz : Ahead cmp y z
      · rw [if_pos hyz, if_pos hyz, place, if_pos (ahead_trans hyz hzx), place, if_pos hzx]
      · rw [if_neg hyz, if_neg hyz, place, if_pos hzx, ih]
    · rw [place, if_neg hzx, List.orderedInsert_cons]
      by_cases hyx : Ahead cmp y x
      · have hyz : Ahead cmp y z := by
          by_contra hyz
          exact hzx (ahead_trans (ahead_of_not hyz) hyx)
        rw [if_pos hyx, List.orderedInsert_cons, if_pos hyz, place, if_pos hyx, place, if_neg hzx]
      · rw [if_neg hyx]
        by_cases hyz : Ahead cmp y z
        · rw [List.orderedInsert_cons, if_pos hyz, place, if_neg hyx]
        · rw [List.orderedInsert_cons, if_neg hyz, place, if_neg hzx]

/-- Placing one after another sorts. -/
theorem foldl_place_eq (xs : List α) :
    xs.foldl (fun r x => place cmp x r) [] = xs.insertionSort (Ahead cmp) := by
  have hlast : ∀ (x : α) (xs : List α), (xs ++ [x]).insertionSort (Ahead cmp) =
      place cmp x (xs.insertionSort (Ahead cmp)) := by
    intro x xs
    induction xs with
    | nil => rfl
    | cons y xs ih =>
      rw [List.cons_append, List.insertionSort_cons, ih, List.insertionSort_cons, orderedInsert_place]
  induction xs using List.reverseRecOn with
  | nil => rfl
  | append_singleton xs x ih => rw [List.foldl_append, ih, hlast, List.foldl_cons, List.foldl_nil]

theorem foldl_keepFirst (n : Nat) (xs : List α) {l : List α} (h : l.Pairwise (Ahead cmp)) :
    xs.foldl (keepFirst cmp n) (l.take n) = (xs.foldl (fun r x => place cmp x r) l).take n := by
  induction xs generalizing l with
  | nil => rfl
  | cons x xs ih =>
    have htake : (l.take n).Pairwise (Ahead cmp) := h.sublist (List.take_sublist n l)
    have hstep : keepFirst cmp n (l.take n) x = (place cmp x l).take n := by
      rw [keepFirst, insertionSort_append_singleton htake, ← take_place]
    rw [List.foldl_cons, hstep, ih (pairwise_place h), List.foldl_cons]

/-- An element that ties with none of a block can be placed before or behind it. -/
theorem foldl_place_comm {x : α} {xs : List α} (hne : ∀ y ∈ xs, cmp x y ≠ .eq) (l : List α) :
    xs.foldl (fun r y => place cmp y r) (place cmp x l) =
      place cmp x (xs.foldl (fun r y => place cmp y r) l) := by
  induction xs generalizing l with
  | nil => rfl
  | cons y xs ih =>
    rw [List.foldl_cons, List.foldl_cons, place_comm (hne y List.mem_cons_self)]
    exact ih (fun z hz => hne z (List.mem_cons_of_mem y hz)) _

/-- Blocks that do not tie can be placed in either order. -/
theorem foldl_place_swap {xs ys : List α} (hne : ∀ x ∈ xs, ∀ y ∈ ys, cmp x y ≠ .eq) (l : List α) :
    ys.foldl (fun r y => place cmp y r) (xs.foldl (fun r x => place cmp x r) l) =
      xs.foldl (fun r x => place cmp x r) (ys.foldl (fun r y => place cmp y r) l) := by
  induction xs generalizing l with
  | nil => rfl
  | cons x xs ih =>
    rw [List.foldl_cons, List.foldl_cons,
      ih (fun z hz => hne z (List.mem_cons_of_mem x hz)),
      foldl_place_comm (hne x List.mem_cons_self)]

end Stream

end Ranking
