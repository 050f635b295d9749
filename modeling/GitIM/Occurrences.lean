import Mathlib.Data.List.Infix

/-!
# Occurrences of a word in a joined text

A word that has nothing in common with a piece of a text occurs beside the piece or nowhere: the
piece holds a letter the word has not, or none of its ends continues the word.
-/

namespace Occurrences

variable {α : Type} {w a b f : List α}

/-- A word does not reach across a letter it has not. -/
theorem infix_across {c : α} (hc : c ∉ w) : w <:+: a ++ c :: b ↔ w <:+: a ∨ w <:+: b := by
  constructor
  · rintro ⟨s, t, heq⟩
    rcases List.append_eq_append_iff.mp heq with ⟨x, ha, -⟩ | ⟨x, hsw, hcb⟩
    · exact Or.inl ⟨s, x, ha.symm⟩
    · cases x with
      | nil =>
        rw [List.append_nil] at hsw
        exact Or.inl ⟨s, [], by rw [List.append_nil, hsw]⟩
      | cons d x =>
        obtain ⟨rfl, rfl⟩ := List.cons.inj hcb
        rcases List.append_eq_append_iff.mp hsw with ⟨y, -, hw⟩ | ⟨y, hs, hy⟩
        · exact absurd (hw ▸ List.mem_append_right y List.mem_cons_self) hc
        · cases y with
          | nil =>
            rw [List.nil_append] at hy
            exact absurd (hy ▸ List.mem_cons_self) hc
          | cons e y =>
            obtain ⟨rfl, rfl⟩ := List.cons.inj hy
            exact Or.inr ⟨y, t, rfl⟩
  · rintro (h | h)
    · exact List.infix_append_of_infix_left h
    · exact List.infix_append_of_infix_right (List.infix_cons h)

/-- No end of the word begins the piece, and the piece does not hold the word. -/
def EndsClear (w f : List α) : Prop :=
  (∀ v ∈ w.tails, v ≠ [] → ¬ v <+: f) ∧ ¬ w <:+: f

/-- No beginning of the word ends the piece, and the piece does not hold the word. -/
def StartsClear (w f : List α) : Prop :=
  (∀ v ∈ w.inits, v ≠ [] → ¬ v <:+ f) ∧ ¬ w <:+: f

instance [DecidableEq α] (w f : List α) : Decidable (EndsClear w f) :=
  inferInstanceAs (Decidable (_ ∧ _))

instance [DecidableEq α] (w f : List α) : Decidable (StartsClear w f) :=
  inferInstanceAs (Decidable (_ ∧ _))

theorem infix_before (h : EndsClear w f) : w <:+: a ++ f ↔ w <:+: a := by
  constructor
  · rintro ⟨s, t, heq⟩
    rcases List.append_eq_append_iff.mp heq with ⟨x, ha, -⟩ | ⟨x, hsw, hf⟩
    · exact ⟨s, x, ha.symm⟩
    · rcases List.append_eq_append_iff.mp hsw with ⟨y, ha, hw⟩ | ⟨y, hs, hx⟩
      · cases x with
        | nil => exact ⟨s, [], by rw [List.append_nil, hsw, List.append_nil]⟩
        | cons d x =>
          exact absurd ⟨t, hf.symm⟩
            (h.1 (d :: x) (List.mem_tails _ _ |>.mpr ⟨y, hw.symm⟩) (List.cons_ne_nil d x))
      · exact absurd ⟨y, t, by rw [hf, hx]⟩ h.2
  · exact List.infix_append_of_infix_left

theorem infix_behind (h : StartsClear w f) : w <:+: f ++ a ↔ w <:+: a := by
  have hreverse : EndsClear w.reverse f.reverse := by
    constructor
    · intro v hv hne hprefix
      have hstart : v.reverse <+: w := by
        rw [← List.reverse_suffix, List.reverse_reverse]
        exact (List.mem_tails _ _).mp hv
      have hend : v.reverse <:+ f := by
        rw [← List.reverse_prefix, List.reverse_reverse]
        exact hprefix
      exact h.1 v.reverse ((List.mem_inits _ _).mpr hstart) (by simpa using hne) hend
    · rw [List.reverse_infix]
      exact h.2
  rw [← List.reverse_infix, List.reverse_append, infix_before hreverse, List.reverse_infix]

end Occurrences
