import GitIM.ThreadFormat

/-!
# Byte offsets in a text

A text is a list of characters, but lengths and cuts are counted in the bytes of its UTF-8 form. An
offset between two characters splits the text; an offset inside a character splits nothing.
-/

namespace ByteOffsets

open TextLines ThreadFormat

variable {s t w a b c : Text} {i n : Nat}

theorem utf8Len_append (s t : Text) : utf8Len (s ++ t) = utf8Len s + utf8Len t := by
  rw [utf8Len, utf8Len, utf8Len, List.map_append, List.sum_append]

theorem utf8Len_cons (x : Char) (t : Text) : utf8Len (x :: t) = x.utf8Size + utf8Len t := rfl

theorem utf8Len_le (t : Text) : utf8Len t ≤ 4 * t.length := by
  induction t with
  | nil => exact Nat.le_refl 0
  | cons x t ih =>
    have hsize := x.utf8Size_le_four
    rw [utf8Len_cons, List.length_cons]
    omega

theorem utf8Len_ascii (h : ∀ x ∈ t, x.utf8Size = 1) : utf8Len t = t.length := by
  induction t with
  | nil => rfl
  | cons x t ih =>
    have hx := h x List.mem_cons_self
    have ht := ih fun y hy => h y (List.mem_cons_of_mem x hy)
    rw [utf8Len_cons, List.length_cons]
    omega

def isCharBoundary : Text → Nat → Bool
  | _, 0 => true
  | [], _ + 1 => false
  | x :: t, n + 1 => decide (x.utf8Size ≤ n + 1) && isCharBoundary t (n + 1 - x.utf8Size)

/-- The text from a byte offset on, when the offset is a boundary. -/
def dropBytes : Text → Nat → Option Text
  | t, 0 => some t
  | [], _ + 1 => none
  | x :: t, n + 1 => if x.utf8Size ≤ n + 1 then dropBytes t (n + 1 - x.utf8Size) else none

/-- The last boundary up to a byte offset. -/
def floorFrom (s : Text) : Nat → Nat
  | 0 => 0
  | j + 1 => if isCharBoundary s (j + 1) then j + 1 else floorFrom s j

def floorCharBoundary (s : Text) (i : Nat) : Nat := floorFrom s (min i (utf8Len s))

theorem isSome_dropBytes (s : Text) (n : Nat) : (dropBytes s n).isSome = isCharBoundary s n := by
  induction s generalizing n with
  | nil => cases n <;> rfl
  | cons x s ih =>
    cases n with
    | zero => rfl
    | succ n =>
      rw [dropBytes, isCharBoundary]
      by_cases hx : x.utf8Size ≤ n + 1
      · rw [if_pos hx, decide_eq_true hx, Bool.true_and]
        exact ih _
      · rw [if_neg hx, decide_eq_false hx, Bool.false_and]
        rfl

/-- What is dropped is a beginning of the text of that many bytes. -/
theorem dropBytes_eq_some (h : dropBytes s n = some t) : ∃ head, head ++ t = s ∧ utf8Len head = n := by
  induction s generalizing n with
  | nil =>
    cases n with
    | zero => exact ⟨[], Option.some.inj h.symm, rfl⟩
    | succ n => cases h
  | cons x s ih =>
    cases n with
    | zero => exact ⟨[], Option.some.inj h.symm, rfl⟩
    | succ n =>
      rw [dropBytes] at h
      split at h
      · rename_i hx
        obtain ⟨head, rfl, hlen⟩ := ih h
        refine ⟨x :: head, rfl, ?_⟩
        rw [utf8Len_cons]
        omega
      · cases h

theorem floorFrom_le (s : Text) (j : Nat) : floorFrom s j ≤ j := by
  induction j with
  | zero => exact Nat.le_refl 0
  | succ j ih =>
    rw [floorFrom]
    split
    · exact Nat.le_refl _
    · omega

theorem floorCharBoundary_le (s : Text) (i : Nat) : floorCharBoundary s i ≤ i := by
  have hle := floorFrom_le s (min i (utf8Len s))
  rw [floorCharBoundary]
  omega

theorem isCharBoundary_floorFrom (s : Text) (j : Nat) : isCharBoundary s (floorFrom s j) = true := by
  induction j with
  | zero =>
    rw [floorFrom]
    cases s <;> rfl
  | succ j ih =>
    rw [floorFrom]
    split
    · assumption
    · exact ih

/-- A cut at the last boundary never falls inside a character. -/
theorem dropBytes_floorCharBoundary (s : Text) (i : Nat) :
    ∃ t, dropBytes s (floorCharBoundary s i) = some t := by
  rw [← Option.isSome_iff_exists, isSome_dropBytes]
  exact isCharBoundary_floorFrom s _

/-- A word that is not in a text, and is no longer than its last part, appears with more text only
where the last part sees it. -/
theorem infix_window (hno : ¬w <:+: a ++ b) (hlen : a = [] ∨ w.length ≤ b.length) :
    w <:+: a ++ b ++ c ↔ w <:+: b ++ c := by
  constructor
  · rintro ⟨p, q, hsplit⟩
    have hword : p ++ w <+: a ++ b ++ c := ⟨q, hsplit⟩
    by_cases hshort : (p ++ w).length ≤ (a ++ b).length
    · obtain ⟨rest, hrest⟩ := List.prefix_of_prefix_length_le hword (List.prefix_append _ c) hshort
      exact absurd ⟨p, rest, hrest⟩ hno
    · have hfront : a.length ≤ p.length := by
        simp only [List.length_append] at hshort
        rcases hlen with rfl | hlen
        · exact Nat.zero_le _
        · omega
      have hp : p <+: a ++ (b ++ c) := ⟨w ++ q, by rw [← List.append_assoc, hsplit, List.append_assoc]⟩
      obtain ⟨p', rfl⟩ := List.prefix_of_prefix_length_le (List.prefix_append a _) hp hfront
      refine ⟨p', q, (List.append_right_inj a).mp ?_⟩
      rw [← List.append_assoc, ← List.append_assoc, ← List.append_assoc, hsplit]
  · rintro ⟨p, q, hsplit⟩
    refine ⟨a ++ p, q, ?_⟩
    rw [List.append_assoc a b c, ← hsplit]
    simp only [List.append_assoc]

end ByteOffsets
