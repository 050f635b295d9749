import GitIM.TextLines

/-!
# Lines with their terminators

The pieces of a text that end behind its line feeds: they make up the text again, and a text that is
empty or ends in a line feed can be extended without touching its pieces. A part of the pieces is the
list of pieces of its own text.
-/

namespace InclusiveLines

open TextLines

def splitInclusiveFrom (current : Text) : Text → List Text
  | [] => if current = [] then [] else [current]
  | c :: rest =>
    if c = '\n' then (current ++ [c]) :: splitInclusiveFrom [] rest
    else splitInclusiveFrom (current ++ [c]) rest

def splitInclusive (t : Text) : List Text := splitInclusiveFrom [] t

/-- A text without the copies of a character at its end. -/
def trimEndMatches (c : Char) (t : Text) : Text := (t.reverse.dropWhile (· = c)).reverse

section Pieces
variable {t : Text} {a b : List Text}

theorem splitInclusiveFrom_append (current l t : Text) (h : '\n' ∉ l) :
    splitInclusiveFrom current (l ++ t) = splitInclusiveFrom (current ++ l) t := by
  induction l generalizing current with
  | nil => simp
  | cons c l ih =>
    have hc : c ≠ '\n' := by
      rintro rfl
      exact h List.mem_cons_self
    have hl : '\n' ∉ l := fun hm => h (List.mem_cons_of_mem c hm)
    rw [List.cons_append, splitInclusiveFrom, if_neg hc, ih (current ++ [c]) hl, List.append_assoc,
      List.singleton_append]

@[simp] theorem splitInclusive_nil : splitInclusive [] = [] := rfl

theorem splitInclusive_line (l t : Text) (h : '\n' ∉ l) :
    splitInclusive (l ++ '\n' :: t) = (l ++ ['\n']) :: splitInclusive t := by
  rw [splitInclusive, splitInclusiveFrom_append [] l _ h]
  simp [splitInclusiveFrom, splitInclusive]

theorem splitInclusive_last (l : Text) (hne : l ≠ []) (h : '\n' ∉ l) : splitInclusive l = [l] := by
  have heq := splitInclusiveFrom_append [] l [] h
  rw [List.append_nil] at heq
  simp [splitInclusive, heq, splitInclusiveFrom, hne]

theorem flatten_splitInclusive (t : Text) : (splitInclusive t).flatten = t := by
  induction t using lines_induction with
  | nil => rfl
  | last l hne hl => simp [splitInclusive_last l hne hl]
  | line l t hl ih => simp [splitInclusive_line l t hl, ih]

/-- What a text that is empty or ends in a line feed can be taken for. -/
def Closed (t : Text) : Prop := t = [] ∨ EndsInLf t

theorem closed_append {s t : Text} (hs : Closed s) (ht : Closed t) : Closed (s ++ t) := by
  rcases ht with rfl | ht
  · rwa [List.append_nil]
  · have hne : t ≠ [] := by
      rintro rfl
      cases ht
    refine Or.inr ?_
    rw [EndsInLf, List.getLast?_append_of_ne_nil _ hne]
    exact ht

theorem closed_tail {l t : Text} (h : Closed (l ++ '\n' :: t)) : Closed t := by
  by_cases ht : t = []
  · exact Or.inl ht
  · obtain ⟨c, t', rfl⟩ := List.exists_cons_of_ne_nil ht
    refine Or.inr ?_
    rcases h with h | h
    · simp at h
    · simpa [EndsInLf, List.getLast?_append] using h

theorem splitInclusive_append {s : Text} (hs : Closed s) (t : Text) :
    splitInclusive (s ++ t) = splitInclusive s ++ splitInclusive t := by
  induction s using lines_induction with
  | nil => rfl
  | last l hne hl =>
    rcases hs with h | h
    · exact absurd h hne
    · exact absurd (List.mem_of_getLast? h) hl
  | line l s hl ih =>
    rw [List.append_assoc, List.cons_append, splitInclusive_line l _ hl, splitInclusive_line l _ hl,
      ih (closed_tail hs), List.cons_append]

/-- A text is cut where its pieces are. -/
theorem splitInclusive_split (h : splitInclusive t = a ++ b) :
    splitInclusive a.flatten = a ∧ splitInclusive b.flatten = b ∧ (b ≠ [] → Closed a.flatten) := by
  induction t using lines_induction generalizing a with
  | nil =>
    obtain ⟨rfl, rfl⟩ := List.append_eq_nil_iff.mp h.symm
    exact ⟨rfl, rfl, fun _ => Or.inl rfl⟩
  | last l hne hl =>
    have hwhole := splitInclusive_last l hne hl
    rw [hwhole] at h
    rcases List.singleton_eq_append_iff.mp h with ⟨rfl, rfl⟩ | ⟨rfl, rfl⟩
    · exact ⟨rfl, by simpa using hwhole, fun _ => Or.inl rfl⟩
    · exact ⟨by simpa using hwhole, rfl, fun hb => absurd rfl hb⟩
  | line l t hl ih =>
    have hwhole := splitInclusive_line l t hl
    cases a with
    | nil =>
      refine ⟨rfl, ?_, fun _ => Or.inl rfl⟩
      rw [List.nil_append] at h
      rw [← h, flatten_splitInclusive]
    | cons piece a =>
      rw [hwhole, List.cons_append, List.cons.injEq] at h
      obtain ⟨rfl, hrest⟩ := h
      obtain ⟨hfront, hback, hclosed⟩ := ih hrest
      refine ⟨?_, hback, ?_⟩
      · rw [List.flatten_cons, List.append_assoc, List.singleton_append,
          splitInclusive_line l _ hl, hfront]
      · intro hb
        have hline : Closed (l ++ ['\n']) := Or.inr List.getLast?_concat
        exact closed_append hline (hclosed hb)

end Pieces

section Ends
variable {c : Char} {t : Text}

theorem exists_trimEndMatches (c : Char) (t : Text) :
    ∃ n, t = trimEndMatches c t ++ List.replicate n c := by
  refine ⟨(t.reverse.takeWhile (· = c)).length, ?_⟩
  have hall : t.reverse.takeWhile (· = c) =
      List.replicate (t.reverse.takeWhile (· = c)).length c := by
    rw [List.eq_replicate_iff]
    refine ⟨rfl, ?_⟩
    intro d hd
    exact of_decide_eq_true (List.all_eq_true.mp List.all_takeWhile d hd)
  rw [trimEndMatches, ← List.reverse_replicate, ← hall, ← List.reverse_append,
    List.takeWhile_append_dropWhile, List.reverse_reverse]

theorem trimEndMatches_append (c : Char) (n : Nat) (t : Text) :
    trimEndMatches c (t ++ List.replicate n c) = trimEndMatches c t := by
  induction n with
  | zero => rw [List.replicate_zero, List.append_nil]
  | succ n ih =>
    rw [List.replicate_succ', ← List.append_assoc, trimEndMatches, List.reverse_append,
      List.reverse_singleton, List.singleton_append, List.dropWhile_cons_of_pos (by simp)]
    exact ih

theorem getLast?_trimEndMatches (c : Char) (t : Text) : (trimEndMatches c t).getLast? ≠ some c := by
  rw [trimEndMatches, List.getLast?_reverse]
  intro hlast
  have hnot := List.head?_dropWhile_not (· = c) t.reverse
  rw [hlast] at hnot
  simp at hnot

theorem trimEndMatches_eq_self (h : t.getLast? ≠ some c) : trimEndMatches c t = t := by
  obtain ⟨n, hn⟩ := exists_trimEndMatches c t
  cases n with
  | zero => rw [List.replicate_zero, List.append_nil] at hn; exact hn.symm
  | succ n =>
    rw [List.replicate_succ', ← List.append_assoc] at hn
    rw [hn, List.getLast?_concat] at h
    exact absurd rfl h

end Ends

end InclusiveLines
