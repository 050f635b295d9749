import GitIM.TextScan

/-!
# Trimmed texts

White space at the ends of a text does not change its trimmed form, and a trimmed text is its own.
-/

namespace Trimming

open TextLines TextScan

variable {c : Char} {t : Text}

theorem trim_cons_space (hc : isWhiteSpace c = true) (t : Text) : trim (c :: t) = trim t := by
  rw [trim, List.dropWhile_cons_of_pos hc]
  rfl

theorem trim_append_space (hc : isWhiteSpace c = true) (t : Text) : trim (t ++ [c]) = trim t := by
  rw [trim, trim, List.dropWhile_append]
  split
  · rename_i hblank
    rw [List.isEmpty_iff] at hblank
    rw [hblank, List.dropWhile_cons_of_pos hc]
    rfl
  · rw [List.reverse_append, List.reverse_singleton, List.singleton_append,
      List.dropWhile_cons_of_pos hc]

theorem trim_append_spaces {spaces : Text} (h : ∀ c ∈ spaces, isWhiteSpace c = true) (t : Text) :
    trim (t ++ spaces) = trim t := by
  induction spaces generalizing t with
  | nil => rw [List.append_nil]
  | cons c spaces ih =>
    rw [List.forall_mem_cons] at h
    rw [List.append_cons, ih h.2, trim_append_space h.1]

theorem length_trim_le (t : Text) : (trim t).length ≤ t.length := by
  have hfront := (List.dropWhile_suffix isWhiteSpace (l := t)).length_le
  have hback := (List.dropWhile_suffix isWhiteSpace (l := (t.dropWhile isWhiteSpace).reverse)).length_le
  rw [List.length_reverse] at hback
  rw [trim, List.length_reverse]
  omega

/-- A text with white space at neither end. -/
structure Trimmed (t : Text) : Prop where
  front : ∀ c, t.head? = some c → isWhiteSpace c = false
  back : ∀ c, t.getLast? = some c → isWhiteSpace c = false

theorem dropWhile_head {p : Char → Bool} (h : ∀ c, t.head? = some c → p c = false) :
    t.dropWhile p = t := by
  cases t with
  | nil => rfl
  | cons c t => exact List.dropWhile_cons_of_neg (by rw [h c rfl]; exact Bool.false_ne_true)

theorem Trimmed.trim_eq (h : Trimmed t) : trim t = t := by
  have hback : t.reverse.dropWhile isWhiteSpace = t.reverse := by
    refine dropWhile_head ?_
    intro c hc
    rw [List.head?_reverse] at hc
    exact h.back c hc
  rw [trim, dropWhile_head h.front, hback, List.reverse_reverse]

theorem head?_dropWhile_false {p : Char → Bool} (hc : (t.dropWhile p).head? = some c) :
    p c = false := by
  have hnot := List.head?_dropWhile_not p t
  rw [hc] at hnot
  simpa using hnot

theorem trimmed_trim (t : Text) : Trimmed (trim t) := by
  constructor
  · intro c hc
    have hprefix : trim t <+: t.dropWhile isWhiteSpace := by
      rw [← List.reverse_suffix, trim, List.reverse_reverse]
      exact List.dropWhile_suffix isWhiteSpace
    obtain ⟨rest, hrest⟩ := hprefix
    refine head?_dropWhile_false (t := t) ?_
    rw [← hrest, List.head?_append, hc]
    rfl
  · intro c hc
    rw [trim, List.getLast?_reverse] at hc
    exact head?_dropWhile_false hc

theorem trim_trim (t : Text) : trim (trim t) = trim t := (trimmed_trim t).trim_eq

end Trimming
