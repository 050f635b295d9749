import GitIM.ByteOffsets

/-!
# The reset tag in a stream of text

The text of an agent arrives in chunks. The loop keeps the end of what has arrived, searches it for the
reset tag after every chunk, and cuts it at a character boundary when it is longer than 128 bytes.
-/

namespace ResetDetection

open TextLines ThreadFormat ByteOffsets

def resetTag : Text := "[[RESET]]".toList

def tailMax : Nat := 128

/-- What one chunk leads to: a reset, or the end of the text that is kept. -/
inductive Heard where
  | resetRequested
  | keep (textTail : Text)
  | panicked

def onText (textTail content : Text) : Heard :=
  let text := textTail ++ content
  if resetTag <:+: text then .resetRequested
  else if utf8Len text > tailMax then
    match dropBytes text (floorCharBoundary text (utf8Len text - tailMax)) with
    | some kept => .keep kept
    | none => .panicked
  else .keep text

inductive Ended where
  | closed (textTail : Text)
  | resetRequested (chunk : Nat)
  | panicked

/-- The loop over the chunks; a reset ends it at the chunk that asked for it. -/
def listen : Text → Nat → List Text → Ended
  | textTail, _, [] => .closed textTail
  | textTail, n, content :: rest =>
    match onText textTail content with
    | .resetRequested => .resetRequested n
    | .keep kept => listen kept (n + 1) rest
    | .panicked => .panicked

section Window
variable {all textTail : Text}

/-- The kept end of a text without the tag: all of it, or at least 128 bytes. -/
structure Window (all textTail : Text) : Prop where
  suffix : textTail <:+ all
  margin : textTail = all ∨ tailMax ≤ utf8Len textTail
  clean : ¬resetTag <:+: all

theorem window_nil : Window [] [] := by
  constructor
  · exact List.suffix_rfl
  · exact .inl rfl
  · decide

/-- The kept end sees every tag that the next chunk completes. -/
theorem Window.completes_iff (h : Window all textTail) (content : Text) :
    resetTag <:+: textTail ++ content ↔ resetTag <:+: all ++ content := by
  obtain ⟨gone, rfl⟩ := h.suffix
  refine (infix_window h.clean ?_).symm
  rcases h.margin with hall | hlong
  · exact .inl (List.append_left_eq_self.mp hall.symm)
  · have hchars := utf8Len_le textTail
    have htag : resetTag.length = 9 := by decide
    have hmax : tailMax = 128 := rfl
    exact .inr (by omega)

/-- One chunk: the reset is requested when the text now contains the tag, and otherwise the window
is kept. The cut does not panic. -/
theorem Window.onText (h : Window all textTail) (content : Text) :
    (ResetDetection.onText textTail content = .resetRequested ∧ resetTag <:+: all ++ content) ∨
      ∃ kept, ResetDetection.onText textTail content = .keep kept ∧ Window (all ++ content) kept := by
  by_cases htag : resetTag <:+: textTail ++ content
  · exact .inl ⟨if_pos htag, (h.completes_iff content).mp htag⟩
  · have hclean : ¬resetTag <:+: all ++ content := fun hall => htag ((h.completes_iff content).mpr hall)
    have hsuffix : textTail ++ content <:+ all ++ content := by
      obtain ⟨gone, hgone⟩ := h.suffix
      exact ⟨gone, by rw [← List.append_assoc, hgone]⟩
    right
    rw [ResetDetection.onText, if_neg htag]
    by_cases hlong : utf8Len (textTail ++ content) > tailMax
    · obtain ⟨kept, hkept⟩ := dropBytes_floorCharBoundary (textTail ++ content)
        (utf8Len (textTail ++ content) - tailMax)
      obtain ⟨gone, hsplit, hgone⟩ := dropBytes_eq_some hkept
      have hcut := floorCharBoundary_le (textTail ++ content)
        (utf8Len (textTail ++ content) - tailMax)
      have hbytes := utf8Len_append gone kept
      rw [hsplit] at hbytes
      rw [if_pos hlong, hkept]
      refine ⟨kept, rfl, ?_, .inr (by omega), hclean⟩
      exact List.IsSuffix.trans ⟨gone, hsplit⟩ hsuffix
    · rw [if_neg hlong]
      refine ⟨textTail ++ content, rfl, hsuffix, ?_, hclean⟩
      rcases h.margin with hall | hkept
      · exact .inl (by rw [hall])
      · have hbytes := utf8Len_append textTail content
        exact .inr (by omega)

/-- How the loop ends: at the first chunk that completes the tag, or with none. -/
theorem Window.listen (h : Window all textTail) (n : Nat) (chunks : List Text) :
    (∃ k, ResetDetection.listen textTail n chunks = .resetRequested (n + k) ∧ k < chunks.length ∧
        resetTag <:+: all ++ (chunks.take (k + 1)).flatten ∧
        ¬resetTag <:+: all ++ (chunks.take k).flatten) ∨
      ∃ kept, ResetDetection.listen textTail n chunks = .closed kept ∧
        ¬resetTag <:+: all ++ chunks.flatten := by
  induction chunks generalizing all textTail n with
  | nil => exact .inr ⟨textTail, rfl, by rw [List.flatten_nil, List.append_nil]; exact h.clean⟩
  | cons content rest ih =>
    rw [ResetDetection.listen]
    rcases h.onText content with ⟨hreset, htag⟩ | ⟨kept, hkeep, hwindow⟩
    · refine .inl ⟨0, by rw [hreset]; rfl, Nat.succ_pos _, ?_, ?_⟩
      · simpa using htag
      · simpa using h.clean
    · rw [hkeep]
      rcases ih hwindow (n + 1) with ⟨k, hlisten, hlt, htag, hno⟩ | ⟨last, hlisten, hno⟩
      · refine .inl ⟨k + 1, ?_, Nat.succ_lt_succ hlt, ?_, ?_⟩
        · rw [← Nat.add_assoc, Nat.add_right_comm]
          exact hlisten
        · rw [List.take_succ_cons, List.flatten_cons, ← List.append_assoc]
          exact htag
        · rw [List.take_succ_cons, List.flatten_cons, ← List.append_assoc]
          exact hno
      · refine .inr ⟨last, hlisten, ?_⟩
        rw [List.flatten_cons, ← List.append_assoc]
        exact hno

end Window

section Chunks
variable {chunks : List Text}

theorem received_within_later {k n : Nat} (h : k ≤ n) :
    (chunks.take k).flatten <:+: (chunks.take n).flatten := by
  have htake : chunks.take n = chunks.take k ++ (chunks.take n).drop k := by
    conv_lhs => rw [← List.take_append_drop k (chunks.take n), List.take_take, Nat.min_eq_left h]
  rw [htake, List.flatten_append]
  exact (List.prefix_append _ _).isInfix

theorem received_within_all (k : Nat) : (chunks.take k).flatten <:+: chunks.flatten := by
  have hall : chunks.flatten = (chunks.take k).flatten ++ (chunks.drop k).flatten := by
    rw [← List.flatten_append, List.take_append_drop]
  rw [hall]
  exact (List.prefix_append _ _).isInfix

/-- The loop asks for a reset exactly when the text received contains the tag, at the first chunk that
completes it, and no cut panics. -/
theorem reset_detected (chunks : List Text) :
    (∀ n, listen [] 0 chunks = .resetRequested n ↔
        n < chunks.length ∧ resetTag <:+: (chunks.take (n + 1)).flatten ∧
          ¬resetTag <:+: (chunks.take n).flatten) ∧
      ((∃ n, listen [] 0 chunks = .resetRequested n) ↔ resetTag <:+: chunks.flatten) ∧
      listen [] 0 chunks ≠ .panicked := by
  rcases window_nil.listen 0 chunks with ⟨k, hlisten, hlt, htag, hno⟩ | ⟨kept, hlisten, hno⟩
  · rw [Nat.zero_add] at hlisten
    rw [List.nil_append] at htag hno
    rw [hlisten]
    refine ⟨fun n => ⟨?_, ?_⟩, ⟨?_, ?_⟩, ?_⟩
    · intro hn
      cases hn
      exact ⟨hlt, htag, hno⟩
    · rintro ⟨-, hhere, hbefore⟩
      have hle : n ≤ k := by
        by_contra hlater
        exact hbefore (htag.trans (received_within_later (by omega)))
      have hge : k ≤ n := by
        by_contra hearlier
        exact hno (hhere.trans (received_within_later (by omega)))
      rw [Nat.le_antisymm hle hge]
    · intro _
      exact htag.trans (received_within_all _)
    · intro _
      exact ⟨k, rfl⟩
    · intro hpanic
      cases hpanic
  · rw [List.nil_append] at hno
    rw [hlisten]
    refine ⟨fun n => ⟨?_, ?_⟩, ⟨?_, ?_⟩, ?_⟩
    · intro hn
      cases hn
    · rintro ⟨-, hhere, -⟩
      exact absurd (hhere.trans (received_within_all _)) hno
    · rintro ⟨n, hn⟩
      cases hn
    · intro htag
      exact absurd htag hno
    · intro hpanic
      cases hpanic

end Chunks

end ResetDetection
