import Mathlib.Tactic.Common
import Mathlib.Data.List.Infix

/-!
# Commit chains

A branch is the chain of its commits, oldest first. A commit has an identity and a
change; rewriting a commit gives its change a new identity. Identities are taken
from a counter, so that a new commit never has an identity in use.
-/

namespace CommitChain

structure Commit (Change : Type) where
  id : Nat
  change : Change
  deriving DecidableEq

instance lawfulBEqCommit (Change : Type) [DecidableEq Change] : LawfulBEq (Commit Change) :=
  inferInstance

abbrev Branch (Change : Type) := List (Commit Change)

section Chains
variable {Change : Type}

def ids (branch : Branch Change) : List Nat := branch.map Commit.id

def changes (branch : Branch Change) : List Change := branch.map Commit.change

/-- New commits for a list of changes, numbered from `next`. -/
def commitAll : Nat → List Change → Branch Change
  | _, [] => []
  | next, d :: ds => ⟨next, d⟩ :: commitAll (next + 1) ds

@[simp] theorem ids_append (a b : Branch Change) : ids (a ++ b) = ids a ++ ids b :=
  List.map_append

@[simp] theorem changes_append (a b : Branch Change) : changes (a ++ b) = changes a ++ changes b :=
  List.map_append

@[simp] theorem changes_commitAll (next : Nat) (ds : List Change) :
    changes (commitAll next ds) = ds := by
  induction ds generalizing next with
  | nil => rfl
  | cons d ds ih => exact congrArg (d :: ·) (ih (next + 1))

theorem commitAll_fresh {next : Nat} {ds : List Change} {c : Commit Change}
    (h : c ∈ commitAll next ds) : next ≤ c.id ∧ c.id < next + ds.length := by
  induction ds generalizing next with
  | nil => cases h
  | cons d ds ih =>
    rcases List.mem_cons.mp h with rfl | htail
    · simp
    · have hrest := ih htail
      simp only [List.length_cons]
      omega

theorem change_mem_of_mem {branch : Branch Change} {c : Commit Change} (h : c ∈ branch) :
    c.change ∈ changes branch :=
  List.mem_map_of_mem h

theorem id_mem_of_mem {branch : Branch Change} {c : Commit Change} (h : c ∈ branch) :
    c.id ∈ ids branch :=
  List.mem_map_of_mem h

variable [DecidableEq Change]

/-- The commits of a branch that its upstream does not have, `upstream..branch`. -/
def aheadOf (branch upstream : Branch Change) : Branch Change :=
  branch.filter (· ∉ upstream)

/-- The changes that a rebase replays: those of the branch that have no equal change among the
new commits of the upstream. -/
def replayed (upstream branch : Branch Change) : List Change :=
  (changes (aheadOf branch upstream)).filter (· ∉ changes (aheadOf upstream branch))

/-- The result of a rebase without conflicts; a branch on top of its upstream stays as it is. -/
def rebaseOnto (next : Nat) (upstream branch : Branch Change) : Branch Change :=
  if upstream <+: branch then branch else upstream ++ commitAll next (replayed upstream branch)

@[simp] theorem mem_aheadOf {branch upstream : Branch Change} {c : Commit Change} :
    c ∈ aheadOf branch upstream ↔ c ∈ branch ∧ c ∉ upstream := by
  simp [aheadOf]

theorem aheadOf_eq_nil_iff {branch upstream : Branch Change} :
    aheadOf branch upstream = [] ↔ ∀ c ∈ branch, c ∈ upstream := by
  simp [aheadOf, List.filter_eq_nil_iff]

/-- A rebase loses no change. -/
theorem change_mem_rebaseOnto {next : Nat} {upstream branch : Branch Change} {c : Commit Change}
    (h : c ∈ branch) : c.change ∈ changes (rebaseOnto next upstream branch) := by
  rw [rebaseOnto]
  split
  · exact change_mem_of_mem h
  · rw [changes_append, changes_commitAll, List.mem_append]
    by_cases hup : c ∈ upstream
    · exact Or.inl (change_mem_of_mem hup)
    · by_cases hsame : c.change ∈ changes (aheadOf upstream branch)
      · obtain ⟨d, hd, heq⟩ := List.mem_map.mp hsame
        exact Or.inl (heq ▸ change_mem_of_mem (mem_aheadOf.mp hd).1)
      · have hahead : c.change ∈ changes (aheadOf branch upstream) :=
          change_mem_of_mem (mem_aheadOf.mpr ⟨h, hup⟩)
        exact Or.inr (List.mem_filter.mpr ⟨hahead, by simpa using hsame⟩)

/-- Where the commits of a rebased branch come from: none is new in substance. -/
theorem mem_rebaseOnto {next : Nat} {upstream branch : Branch Change} {c : Commit Change}
    (h : c ∈ rebaseOnto next upstream branch) :
    (upstream <+: branch ∧ c ∈ branch) ∨ c ∈ upstream ∨
      (next ≤ c.id ∧ c.id < next + (replayed upstream branch).length ∧
        c.change ∈ changes (aheadOf branch upstream)) := by
  rw [rebaseOnto] at h
  split at h
  · rename_i hpre
    exact Or.inl ⟨hpre, h⟩
  · rcases List.mem_append.mp h with hup | hnew
    · exact Or.inr (Or.inl hup)
    · obtain ⟨hlow, hhigh⟩ := commitAll_fresh hnew
      have hchange : c.change ∈ replayed upstream branch := by
        rw [← changes_commitAll next (replayed upstream branch)]
        exact change_mem_of_mem hnew
      exact Or.inr (Or.inr ⟨hlow, hhigh, (List.mem_filter.mp hchange).1⟩)

end Chains

end CommitChain
