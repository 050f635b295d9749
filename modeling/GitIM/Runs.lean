import Mathlib.Tactic.Common

/-!
# Runs of labelled systems

A system is a partial step function on states and actions; what an action may not
do in a state is `none`, and what the environment decides is part of the action. A
run is a list of actions. A guard restricts the actions along a run, and invariants
and preorders are carried from single steps to runs.
-/

namespace Runs

variable {S A : Type} (step : S → A → Option S)

def run : S → List A → Option S
  | s, [] => some s
  | s, a :: as => (step s a).bind fun t => run t as

/-- Every action of the run meets the guard in the state in which it is taken. -/
def Along (guard : S → A → Prop) : S → List A → Prop
  | _, [] => True
  | s, a :: as => guard s a ∧ ∀ t, step s a = some t → Along guard t as

instance decidableAlong (guard : S → A → Prop) [∀ s a, Decidable (guard s a)] :
    ∀ s as, Decidable (Along step guard s as)
  | _, [] => isTrue trivial
  | s, a :: as =>
    match hstep : step s a with
    | none => decidable_of_iff (guard s a) ⟨fun h => ⟨h, by simp [hstep]⟩, fun h => h.1⟩
    | some t =>
      have := decidableAlong guard t as
      decidable_of_iff (guard s a ∧ Along step guard t as)
        ⟨fun h => ⟨h.1, by simpa [hstep] using h.2⟩, fun h => ⟨h.1, h.2 t hstep⟩⟩

variable {step}

theorem run_cons_eq_some {s s' : S} {a : A} {as : List A} :
    run step s (a :: as) = some s' ↔ ∃ t, step s a = some t ∧ run step t as = some s' :=
  Option.bind_eq_some_iff

theorem run_append {s t u : S} {as bs : List A} (hrun : run step s as = some t)
    (hrest : run step t bs = some u) : run step s (as ++ bs) = some u := by
  induction as generalizing s with
  | nil =>
    cases hrun
    exact hrest
  | cons a as ih =>
    obtain ⟨v, hfirst, hthen⟩ := run_cons_eq_some.mp hrun
    exact run_cons_eq_some.mpr ⟨v, hfirst, ih hthen⟩

theorem run_concat {s t u : S} {a : A} {as : List A} (hrun : run step s as = some t)
    (hstep : step t a = some u) : run step s (as ++ [a]) = some u :=
  run_append hrun (run_cons_eq_some.mpr ⟨u, hstep, rfl⟩)

/-- An invariant of all guarded steps holds at the end of every guarded run. -/
theorem run_invariant {guard : S → A → Prop} {Inv : S → Prop}
    (preserve : ∀ s a t, Inv s → guard s a → step s a = some t → Inv t) {s s' : S} {as : List A}
    (hrun : run step s as = some s') (hguard : Along step guard s as) (hs : Inv s) : Inv s' := by
  induction as generalizing s with
  | nil =>
    cases hrun
    exact hs
  | cons a as ih =>
    obtain ⟨t, hstep, hrest⟩ := run_cons_eq_some.mp hrun
    exact ih hrest (hguard.2 t hstep) (preserve s a t hs hguard.1 hstep)

/-- A guard that every action of the list meets in every state is met along the run. -/
theorem along_of_forall {guard : S → A → Prop} {as : List A} (h : ∀ a ∈ as, ∀ s, guard s a)
    (s : S) : Along step guard s as := by
  induction as generalizing s with
  | nil => trivial
  | cons a as ih =>
    exact ⟨h a List.mem_cons_self s, fun t _ => ih (fun b hb => h b (List.mem_cons_of_mem a hb)) t⟩

theorem along_and {guard guard' : S → A → Prop} {s : S} {as : List A} (h : Along step guard s as)
    (h' : Along step guard' s as) : Along step (fun s a => guard s a ∧ guard' s a) s as := by
  induction as generalizing s with
  | nil => trivial
  | cons a as ih => exact ⟨⟨h.1, h'.1⟩, fun t ht => ih (h.2 t ht) (h'.2 t ht)⟩

/-- A guard that follows from another wherever an invariant holds. -/
theorem along_mono {guard guard' : S → A → Prop} {Inv : S → Prop}
    (preserve : ∀ s a t, Inv s → guard s a → step s a = some t → Inv t)
    (himp : ∀ s a, Inv s → guard s a → guard' s a) {s : S} {as : List A} (hs : Inv s)
    (h : Along step guard s as) : Along step guard' s as := by
  induction as generalizing s with
  | nil => trivial
  | cons a as ih =>
    exact ⟨himp s a hs h.1, fun t ht => ih (preserve s a t hs h.1 ht) (h.2 t ht)⟩

/-- Guards that agree wherever an invariant holds restrict the same runs. -/
theorem along_congr {guard guard' : S → A → Prop} {Inv : S → Prop}
    (preserve : ∀ s a t, Inv s → guard s a → step s a = some t → Inv t)
    (hsame : ∀ s a, Inv s → (guard s a ↔ guard' s a)) {s : S} {as : List A} (hs : Inv s) :
    Along step guard s as ↔ Along step guard' s as := by
  constructor
  · exact along_mono preserve (fun s a hs => (hsame s a hs).mp) hs
  · refine along_mono (fun s a t hs ha ht => ?_) (fun s a hs => (hsame s a hs).mpr) hs
    exact preserve s a t hs ((hsame s a hs).mpr ha) ht

/-- A reflexive and transitive relation between the ends of all steps relates the ends of a run. -/
theorem run_related {R : S → S → Prop} (refl : ∀ s, R s s)
    (trans : ∀ a b c, R a b → R b c → R a c)
    (steps : ∀ s a t, step s a = some t → R s t) {s s' : S} {as : List A}
    (hrun : run step s as = some s') : R s s' := by
  induction as generalizing s with
  | nil =>
    cases hrun
    exact refl _
  | cons a as ih =>
    obtain ⟨t, hstep, hrest⟩ := run_cons_eq_some.mp hrun
    exact trans _ _ _ (steps s a t hstep) (ih hrest)

section Trace
variable (step)

/-- The system together with the actions it has taken. -/
def traced (p : S × List A) (a : A) : Option (S × List A) :=
  (step p.1 a).map fun t => (t, p.2 ++ [a])

variable {step}

theorem traced_eq_some {p q : S × List A} {a : A} (h : traced step p a = some q) :
    step p.1 a = some q.1 ∧ q.2 = p.2 ++ [a] := by
  obtain ⟨t, ht, heq⟩ := Option.map_eq_some_iff.mp h
  cases heq
  exact ⟨ht, rfl⟩

end Trace

end Runs
