import GitIM.ConflictReplay
import Mathlib.Data.List.Sort

/-!
# Merging the members of a channel

The metadata of a channel that two clones have changed is merged by taking the remote fields and the
members of both sides. Only the local members are looked up before they are added, so the merge is a
join of lists without repetitions.
-/

namespace MemberMerges

open TextLines ConflictReplay

section Counts
variable {ours theirs other : ChannelMeta}

def memberCount (info : ChannelMeta) (m : Text) : Nat := info.members.count m

theorem count_insertMissing (m : Text) (more members : List Text) :
    (more.foldl (fun members m => if m ∈ members then members else members ++ [m]) members).count m =
      if m ∈ members then members.count m else if m ∈ more then 1 else 0 := by
  induction more generalizing members with
  | nil =>
    rw [List.foldl_nil]
    by_cases hm : m ∈ members
    · rw [if_pos hm]
    · rw [if_neg hm, if_neg List.not_mem_nil, List.count_eq_zero_of_not_mem hm]
  | cons k more ih =>
    rw [List.foldl_cons, ih]
    by_cases hk : k ∈ members
    · simp only [if_pos hk]
      by_cases hm : m ∈ members
      · rw [if_pos hm, if_pos hm]
      · have hne : m ≠ k := fun hmk => hm (hmk ▸ hk)
        rw [if_neg hm, if_neg hm]
        simp only [List.mem_cons, hne, false_or]
    · simp only [if_neg hk]
      by_cases hm : m ∈ members
      · have hne : k ≠ m := fun hkm => hk (hkm ▸ hm)
        rw [if_pos (List.mem_append_left _ hm), if_pos hm, List.count_append,
          List.count_singleton, if_neg (by simpa using hne), Nat.add_zero]
      · by_cases hmk : m = k
        · subst hmk
          rw [if_pos (List.mem_append_right _ (List.mem_singleton_self m)), if_neg hm,
            if_pos List.mem_cons_self, List.count_append, List.count_eq_zero_of_not_mem hm,
            List.count_singleton_self]
        · have hlonger : m ∉ members ++ [k] := by
            simp only [List.mem_append, List.mem_singleton, hm, hmk, or_false, not_false_eq_true]
          rw [if_neg hlonger, if_neg hm]
          simp only [List.mem_cons, hmk, false_or]

/-- A remote member stays as often as it is there, and a local one is added once. -/
theorem memberCount_merge (ours theirs : ChannelMeta) (m : Text) :
    memberCount (mergeChannelMeta ours theirs) m =
      if m ∈ theirs.members then memberCount theirs m else if m ∈ ours.members then 1 else 0 := by
  rw [memberCount, mergeChannelMeta, (List.perm_insertionSort _ _).count_eq]
  exact count_insertMissing m ours.members theirs.members

theorem members_sorted (ours theirs : ChannelMeta) :
    (mergeChannelMeta ours theirs).members.Pairwise (· ≤ ·) :=
  List.pairwise_insertionSort _ _

theorem sorted_ext {members members' : List Text} (h : members.Pairwise (· ≤ ·))
    (h' : members'.Pairwise (· ≤ ·)) (hcount : ∀ m, members.count m = members'.count m) :
    members = members' :=
  (List.perm_iff_count.mpr hcount).eq_of_pairwise' h h'

/-- Merges with the same counts have the same members. -/
theorem merge_ext {ours' theirs' : ChannelMeta}
    (h : ∀ m, memberCount (mergeChannelMeta ours theirs) m =
      memberCount (mergeChannelMeta ours' theirs') m) :
    (mergeChannelMeta ours theirs).members = (mergeChannelMeta ours' theirs').members :=
  sorted_ext (members_sorted _ _) (members_sorted _ _) h

theorem memberCount_pos_iff (info : ChannelMeta) (m : Text) :
    0 < memberCount info m ↔ m ∈ info.members := List.count_pos_iff

theorem merge_nodup_iff (ours theirs : ChannelMeta) :
    (mergeChannelMeta ours theirs).members.Nodup ↔ theirs.members.Nodup := by
  rw [List.nodup_iff_count_le_one, List.nodup_iff_count_le_one]
  refine forall_congr' fun m => ?_
  have hcount := memberCount_merge ours theirs m
  have hmem := memberCount_pos_iff theirs m
  rw [memberCount, memberCount] at hcount
  rw [memberCount] at hmem
  rw [hcount]
  split
  · exact Iff.rfl
  · rename_i hm
    have hzero : theirs.members.count m = 0 := by
      by_contra hne
      exact hm (hmem.mp (Nat.pos_of_ne_zero hne))
    refine iff_of_true ?_ (by omega)
    split <;> omega

theorem merge_assoc (ours theirs other : ChannelMeta) :
    (mergeChannelMeta (mergeChannelMeta ours theirs) other).members =
      (mergeChannelMeta ours (mergeChannelMeta theirs other)).members := by
  apply merge_ext
  intro m
  simp only [memberCount_merge, mem_mergeChannelMeta]
  by_cases hother : m ∈ other.members
  · simp only [hother, true_or, if_true]
  · by_cases htheirs : m ∈ theirs.members
    · simp only [hother, htheirs, false_or, true_or, if_true, if_false]
    · simp only [hother, htheirs, false_or, if_false]

theorem merge_again (ours theirs : ChannelMeta) :
    (mergeChannelMeta ours (mergeChannelMeta ours theirs)).members =
      (mergeChannelMeta ours theirs).members := by
  apply merge_ext
  intro m
  simp only [memberCount_merge, mem_mergeChannelMeta]
  by_cases htheirs : m ∈ theirs.members
  · simp only [htheirs, true_or, if_true]
  · by_cases hours : m ∈ ours.members
    · simp only [htheirs, hours, false_or, if_true, if_false]
    · simp only [htheirs, hours, false_or, if_false]

theorem merge_self_perm (ours : ChannelMeta) :
    (mergeChannelMeta ours ours).members.Perm ours.members := by
  apply List.perm_iff_count.mpr
  intro m
  have hcount := memberCount_merge ours ours m
  rw [memberCount, memberCount] at hcount
  rw [hcount]
  split
  · rfl
  · rename_i hm
    exact (List.count_eq_zero_of_not_mem hm).symm

theorem merge_comm (hours : ours.members.Nodup) (htheirs : theirs.members.Nodup) :
    (mergeChannelMeta ours theirs).members = (mergeChannelMeta theirs ours).members := by
  apply merge_ext
  intro m
  have hone : ∀ info : ChannelMeta, info.members.Nodup → m ∈ info.members →
      memberCount info m = 1 := fun info hnodup hm => List.count_eq_one_of_mem hnodup hm
  rw [memberCount_merge, memberCount_merge]
  by_cases ho : m ∈ ours.members
  · by_cases ht : m ∈ theirs.members
    · rw [if_pos ht, if_pos ho, hone ours hours ho, hone theirs htheirs ht]
    · rw [if_neg ht, if_pos ho, if_pos ho, hone ours hours ho]
  · by_cases ht : m ∈ theirs.members
    · rw [if_pos ht, if_neg ho, if_pos ht, hone theirs htheirs ht]
    · rw [if_neg ht, if_neg ho, if_neg ho, if_neg ht]

end Counts

section Edits
variable {theirs : ChannelMeta}

/-- The remote metadata after edits have been merged into it, one after the other. -/
def mergeAll (theirs : ChannelMeta) (edits : List ChannelMeta) : ChannelMeta :=
  edits.foldl (fun remote ours => mergeChannelMeta ours remote) theirs

theorem memberCount_mergeAll (theirs : ChannelMeta) (edits : List ChannelMeta) (m : Text) :
    memberCount (mergeAll theirs edits) m =
      if m ∈ theirs.members then memberCount theirs m
      else if ∃ edit ∈ edits, m ∈ edit.members then 1 else 0 := by
  induction edits generalizing theirs with
  | nil =>
    rw [mergeAll, List.foldl_nil]
    split
    · rfl
    · rename_i hm
      rw [if_neg (by rintro ⟨edit, hedit, -⟩; cases hedit)]
      exact List.count_eq_zero_of_not_mem hm
  | cons edit edits ih =>
    rw [mergeAll, List.foldl_cons, ← mergeAll, ih, memberCount_merge]
    simp only [mem_mergeChannelMeta, List.exists_mem_cons_iff]
    by_cases htheirs : m ∈ theirs.members
    · simp only [htheirs, true_or, if_true]
    · by_cases hedit : m ∈ edit.members
      · simp only [htheirs, hedit, false_or, true_or, if_true, if_false]
      · simp only [htheirs, hedit, false_or, if_false]

theorem mergeAll_sorted {edits : List ChannelMeta} (h : edits ≠ []) :
    (mergeAll theirs edits).members.Pairwise (· ≤ ·) := by
  obtain ⟨first, last, rfl⟩ := List.eq_nil_or_concat edits |>.resolve_left h
  rw [mergeAll, List.concat_eq_append, List.foldl_concat]
  exact members_sorted _ _

/-- The order in which the same edits are merged makes no difference to the members. -/
theorem mergeAll_perm {edits edits' : List ChannelMeta} (h : edits.Perm edits') :
    (mergeAll theirs edits).members = (mergeAll theirs edits').members := by
  by_cases hnil : edits = []
  · subst hnil
    rw [List.nil_perm.mp h]
  · have hnil' : edits' ≠ [] := fun heq => hnil (List.perm_nil.mp (heq ▸ h))
    refine sorted_ext (mergeAll_sorted hnil) (mergeAll_sorted hnil') fun m => ?_
    have hcount := memberCount_mergeAll theirs edits m
    have hcount' := memberCount_mergeAll theirs edits' m
    have hsame : (∃ edit ∈ edits, m ∈ edit.members) ↔ ∃ edit ∈ edits', m ∈ edit.members := by
      simp only [h.mem_iff]
    simp only [hsame] at hcount
    exact hcount.trans hcount'.symm

end Edits

section Join

/-- The merge as a join on the members. -/
structure JoinsMembers (ours theirs : ChannelMeta) : Prop where
  scalars : ∃ members, mergeChannelMeta ours theirs = { theirs with members := members }
  sorted : (mergeChannelMeta ours theirs).members.Pairwise (· ≤ ·)
  nodup : (mergeChannelMeta ours theirs).members.Nodup
  exact : ∀ m, m ∈ (mergeChannelMeta ours theirs).members ↔ m ∈ ours.members ∨ m ∈ theirs.members
  commutative : (mergeChannelMeta ours theirs).members = (mergeChannelMeta theirs ours).members
  associative : ∀ other, (mergeChannelMeta (mergeChannelMeta ours theirs) other).members =
    (mergeChannelMeta ours (mergeChannelMeta theirs other)).members
  idempotent : (mergeChannelMeta ours ours).members.Perm ours.members ∧
    (mergeChannelMeta ours (mergeChannelMeta ours theirs)).members =
      (mergeChannelMeta ours theirs).members
  converges : ∀ edits edits', edits.Perm edits' →
    (mergeAll theirs edits).members = (mergeAll theirs edits').members

/-- The merge is a join exactly when neither side lists a member twice. -/
theorem joinsMembers_iff (ours theirs : ChannelMeta) :
    JoinsMembers ours theirs ↔ ours.members.Nodup ∧ theirs.members.Nodup := by
  constructor
  · intro h
    have htheirs := (merge_nodup_iff ours theirs).mp h.nodup
    refine ⟨?_, htheirs⟩
    rw [← merge_nodup_iff theirs ours, ← h.commutative]
    exact h.nodup
  · rintro ⟨hours, htheirs⟩
    exact {
      scalars := ⟨_, rfl⟩
      sorted := members_sorted ours theirs
      nodup := (merge_nodup_iff ours theirs).mpr htheirs
      exact := fun m => (mem_mergeChannelMeta ours theirs m).trans or_comm
      commutative := merge_comm hours htheirs
      associative := merge_assoc ours theirs
      idempotent := ⟨merge_self_perm ours, merge_again ours theirs⟩
      converges := fun _ _ h => mergeAll_perm h }

def listedTwice : ChannelMeta :=
  ⟨"dev".toList, "ann".toList, "2026-01-01T00:00:00Z".toList, [], ["bob".toList, "bob".toList], none⟩

/-- A member that the remote lists twice is listed twice after the merge. -/
theorem not_joinsMembers : ¬∀ ours theirs, JoinsMembers ours theirs := by
  intro h
  exact absurd (h { listedTwice with members := [] } listedTwice).nodup (by decide)

end Join

end MemberMerges
