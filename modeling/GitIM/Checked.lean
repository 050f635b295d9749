import Mathlib.Data.List.Forall2
import Mathlib.Tactic.Common

/-!
# Checked computations

Computations that end in a value or an error. `refuse` is a check with an early
error return and `checkSome` runs a check on an optional value. Every successful
computation is taken apart by the `_ok_iff` lemmas.
-/

namespace Checked

variable {ε α β : Type}

def refuse (c : Prop) [Decidable c] (e : ε) : Except ε Unit :=
  if c then .error e else .ok ()

def checkSome (x : Option α) (check : α → Except ε Unit) : Except ε Unit :=
  match x with
  | some a => check a
  | none => .ok ()

@[simp] theorem refuse_eq_ok_iff {c : Prop} [Decidable c] {e : ε} {u : Unit} :
    refuse c e = .ok u ↔ ¬ c := by
  by_cases h : c
  · simp [refuse, h]
  · simp [refuse, h]

@[simp] theorem checkSome_eq_ok_iff {x : Option α} {check : α → Except ε Unit} {u : Unit} :
    checkSome x check = .ok u ↔ ∀ a, x = some a → check a = .ok () := by
  cases x with
  | none => simp [checkSome]
  | some a => simp [checkSome]

/-- Peel the first step off a computation that succeeds. -/
theorem bind_eq_ok_iff {x : Except ε α} {f : α → Except ε β} {b : β} :
    (x >>= f) = .ok b ↔ ∃ a, x = .ok a ∧ f a = .ok b := by
  cases x with
  | error e => simp [bind, Except.bind]
  | ok a => simp [bind, Except.bind]

theorem then_eq_ok_iff {x : Except ε Unit} {y : Except ε β} {b : β} :
    (do x; y) = .ok b ↔ x = .ok () ∧ y = .ok b := by
  rw [bind_eq_ok_iff]
  constructor
  · rintro ⟨u, hx, hy⟩
    exact ⟨hx, hy⟩
  · rintro ⟨hx, hy⟩
    exact ⟨(), hx, hy⟩

theorem refuse_eq_error_iff {c : Prop} [Decidable c] {e d : ε} :
    refuse c e = .error d ↔ c ∧ e = d := by
  by_cases h : c
  · simp [refuse, h]
  · simp [refuse, h]

/-- A computation fails in its first step or behind it. -/
theorem bind_eq_error_iff {x : Except ε α} {f : α → Except ε β} {e : ε} :
    (x >>= f) = .error e ↔ x = .error e ∨ ∃ a, x = .ok a ∧ f a = .error e := by
  cases x with
  | error d => simp [bind, Except.bind]
  | ok a => simp [bind, Except.bind]

theorem exists_error_of_ne_ok {x : Except ε α} (h : ∀ a, x ≠ .ok a) : ∃ e, x = .error e := by
  cases x with
  | error e => exact ⟨e, rfl⟩
  | ok a => exact absurd rfl (h a)

theorem mapError_eq_ok_iff {δ : Type} {x : Except ε α} {f : ε → δ} {a : α} :
    x.mapError f = .ok a ↔ x = .ok a := by
  cases x with
  | error e => simp [Except.mapError]
  | ok b => simp [Except.mapError]

/-- A traversal succeeds exactly if every element does. -/
theorem mapM_eq_ok_iff {f : α → Except ε β} {xs : List α} {ys : List β} :
    xs.mapM f = .ok ys ↔ List.Forall₂ (fun x y => f x = .ok y) xs ys := by
  induction xs generalizing ys with
  | nil =>
    rw [List.mapM_nil, List.forall₂_nil_left_iff]
    exact ⟨fun h => (Except.ok.inj h).symm, fun h => h ▸ rfl⟩
  | cons x xs ih =>
    rw [List.mapM_cons, bind_eq_ok_iff, List.forall₂_cons_left_iff]
    constructor
    · rintro ⟨y, hy, hrest⟩
      obtain ⟨zs, hzs, heq⟩ := bind_eq_ok_iff.mp hrest
      exact ⟨y, zs, hy, ih.mp hzs, (Except.ok.inj heq).symm⟩
    · rintro ⟨y, zs, hy, hzs, rfl⟩
      exact ⟨y, hy, bind_eq_ok_iff.mpr ⟨zs, ih.mpr hzs, rfl⟩⟩

/-- Every result of a traversal is the result of an element. -/
theorem exists_of_mapM_ok {f : α → Except ε β} {xs : List α} {ys : List β}
    (h : xs.mapM f = .ok ys) {y : β} (hy : y ∈ ys) : ∃ x ∈ xs, f x = .ok y := by
  have hall := mapM_eq_ok_iff.mp h
  induction hall with
  | nil => cases hy
  | cons hx hrest ih =>
    rename_i x z xs zs
    rcases List.mem_cons.mp hy with rfl | hy
    · exact ⟨x, List.mem_cons_self, hx⟩
    · obtain ⟨w, hw, hfw⟩ := ih (mapM_eq_ok_iff.mpr hrest) hy
      exact ⟨w, List.mem_cons_of_mem x hw, hfw⟩

theorem mapM_succeeds {f : α → Except ε β} {xs : List α} (h : ∀ x ∈ xs, ∃ y, f x = .ok y) :
    ∃ ys, xs.mapM f = .ok ys := by
  induction xs with
  | nil => exact ⟨[], rfl⟩
  | cons x xs ih =>
    obtain ⟨y, hy⟩ := h x List.mem_cons_self
    obtain ⟨ys, hys⟩ := ih (fun z hz => h z (List.mem_cons_of_mem _ hz))
    exact ⟨y :: ys, mapM_eq_ok_iff.mpr (List.Forall₂.cons hy (mapM_eq_ok_iff.mp hys))⟩

/-- A traversal fails where one of its elements does. -/
theorem exists_of_mapM_error {f : α → Except ε β} {xs : List α} {e : ε}
    (h : xs.mapM f = .error e) : ∃ x ∈ xs, f x = .error e := by
  induction xs with
  | nil => cases h
  | cons x xs ih =>
    rw [List.mapM_cons, bind_eq_error_iff] at h
    rcases h with hx | ⟨y, -, hrest⟩
    · exact ⟨x, List.mem_cons_self, hx⟩
    · rcases bind_eq_error_iff.mp hrest with hxs | ⟨ys, -, hpure⟩
      · obtain ⟨z, hz, hfz⟩ := ih hxs
        exact ⟨z, List.mem_cons_of_mem x hz, hfz⟩
      · cases hpure

/-- What every step of a fold keeps holds at its end. -/
theorem foldlM_invariant {f : β → α → Except ε β} {P : β → Prop} {xs : List α}
    (hstep : ∀ x ∈ xs, ∀ b b', P b → f b x = .ok b' → P b') {b b' : β}
    (hfold : xs.foldlM f b = .ok b') (hb : P b) : P b' := by
  induction xs generalizing b with
  | nil =>
    cases hfold
    exact hb
  | cons x xs ih =>
    rw [List.foldlM_cons, bind_eq_ok_iff] at hfold
    obtain ⟨c, hc, hrest⟩ := hfold
    exact ih (fun y hy => hstep y (List.mem_cons_of_mem x hy)) hrest
      (hstep x List.mem_cons_self b c hb hc)

end Checked
