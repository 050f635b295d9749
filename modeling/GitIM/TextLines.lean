import Mathlib.Algebra.Order.Ring.Nat
import Mathlib.Data.List.Infix
import Mathlib.Data.String.Basic
import Mathlib.Tactic.Common

/-!
# Texts and their lines

A text is the list of its characters. `lines` follows the line iterator of the
Rust standard library: a line ends at a line feed, one carriage return right
before the line feed belongs to the terminator, and a last line without
terminator is kept as it stands. `replaceCrLf` is the replacement of every
CR LF pair by a single LF, scanning from the left without overlaps.
-/

namespace TextLines

abbrev Text := List Char

instance lawfulBEqText : LawfulBEq Text := inferInstance

/-- Drop one carriage return at the end of a line. -/
def stripCr (l : Text) : Text :=
  if l.getLast? = some '\r' then l.dropLast else l

def linesFrom (current : Text) : Text → List Text
  | [] => if current = [] then [] else [current]
  | c :: rest =>
    if c = '\n' then stripCr current :: linesFrom [] rest
    else linesFrom (current ++ [c]) rest

def lines (t : Text) : List Text := linesFrom [] t

def replaceCrLf : Text → Text
  | '\r' :: '\n' :: rest => '\n' :: replaceCrLf rest
  | c :: rest => c :: replaceCrLf rest
  | [] => []

/-- The lines seen by a reader that first maps CR LF to LF. -/
def normalizedLines (t : Text) : List Text := lines (replaceCrLf t)

/-- Newline-terminated rendering of a list of lines. -/
def unlines (ls : List Text) : Text := ls.flatMap (fun l => l ++ ['\n'])

/-- Lines joined by single line feeds, without a final terminator. -/
def joinLines (ls : List Text) : Text := ['\n'].intercalate ls

def EndsInCr (l : Text) : Prop := l.getLast? = some '\r'

instance (l : Text) : Decidable (EndsInCr l) := inferInstanceAs (Decidable (_ = _))

def EndsInLf (t : Text) : Prop := t.getLast? = some '\n'

instance (t : Text) : Decidable (EndsInLf t) := inferInstanceAs (Decidable (_ = _))

@[simp] theorem stripCr_of_not_endsInCr {l : Text} (h : ¬ EndsInCr l) : stripCr l = l := by
  simp only [stripCr]
  exact if_neg h

theorem stripCr_append_cr (l : Text) : stripCr (l ++ ['\r']) = l := by
  simp [stripCr]

theorem stripCr_append_cons {a : Text} {c : Char} {b : Text} :
    stripCr (a ++ c :: b) = a ++ stripCr (c :: b) := by
  by_cases h : EndsInCr (c :: b)
  · have ha : EndsInCr (a ++ c :: b) := by
      simpa [EndsInCr, List.getLast?_append] using h
    have hc : (c :: b).getLast? = some '\r' := h
    have hac : (a ++ c :: b).getLast? = some '\r' := ha
    rw [stripCr, stripCr, if_pos hc, if_pos hac, List.dropLast_append_of_ne_nil (by simp)]
  · have ha : ¬ EndsInCr (a ++ c :: b) := by
      intro hc
      exact h (by simpa [EndsInCr, List.getLast?_append] using hc)
    rw [stripCr_of_not_endsInCr h, stripCr_of_not_endsInCr ha]

theorem stripCr_cons {c : Char} (hc : c ≠ '\r') (l : Text) : stripCr (c :: l) = c :: stripCr l := by
  cases l with
  | nil =>
    have hcr : ¬ EndsInCr [c] := by simpa [EndsInCr] using hc
    rw [stripCr_of_not_endsInCr hcr]
    rfl
  | cons d l => exact @stripCr_append_cons [c] d l

theorem mem_of_mem_stripCr {l : Text} {c : Char} (h : c ∈ stripCr l) : c ∈ l := by
  simp only [stripCr] at h
  split at h
  · exact List.dropLast_subset l h
  · exact h

theorem stripCr_isPrefix (l : Text) : stripCr l <+: l := by
  simp only [stripCr]
  split
  · exact List.dropLast_prefix l
  · exact List.prefix_refl l

theorem length_stripCr_le (l : Text) : (stripCr l).length ≤ l.length := by
  simp only [stripCr]
  split
  · simp
  · exact Nat.le_refl _

theorem length_stripCr_lt {l : Text} (h : EndsInCr l) : (stripCr l).length < l.length := by
  have hne : l ≠ [] := by
    intro hl
    simp [hl, EndsInCr] at h
  have hpos : 0 < l.length := List.length_pos_iff.mpr hne
  have hc : l.getLast? = some '\r' := h
  simp only [stripCr, if_pos hc, List.length_dropLast]
  omega

theorem linesFrom_append (current l t : Text) (h : '\n' ∉ l) :
    linesFrom current (l ++ t) = linesFrom (current ++ l) t := by
  induction l generalizing current with
  | nil => simp
  | cons c l ih =>
    have hc : c ≠ '\n' := by
      intro heq
      simp [heq] at h
    have hl : '\n' ∉ l := fun hm => h (List.mem_cons_of_mem c hm)
    simp only [List.cons_append, linesFrom, if_neg hc]
    rw [ih (current ++ [c]) hl, List.append_assoc, List.singleton_append]

@[simp] theorem lines_nil : lines [] = [] := rfl

theorem lines_line (l t : Text) (h : '\n' ∉ l) :
    lines (l ++ '\n' :: t) = stripCr l :: lines t := by
  rw [lines, linesFrom_append [] l _ h]
  simp [linesFrom, lines]

theorem lines_last (l : Text) (hne : l ≠ []) (h : '\n' ∉ l) : lines l = [l] := by
  have heq := linesFrom_append [] l [] h
  rw [List.append_nil] at heq
  simp [lines, heq, linesFrom, hne]

/-- Case analysis of a text by its first line; the induction of every line proof. -/
theorem lines_induction {P : Text → Prop} (nil : P [])
    (last : ∀ l, l ≠ [] → '\n' ∉ l → P l)
    (line : ∀ l t, '\n' ∉ l → P t → P (l ++ '\n' :: t)) (t : Text) : P t := by
  induction hn : t.length using Nat.strongRecOn generalizing t with
  | ind n ih =>
    by_cases hmem : '\n' ∈ t
    · obtain ⟨l, r, heq, hl⟩ := List.eq_append_cons_of_mem hmem
      subst heq
      refine line l r hl (ih r.length ?_ r rfl)
      simp only [List.length_append, List.length_cons] at hn
      omega
    · by_cases hne : t = []
      · exact hne ▸ nil
      · exact last t hne hmem

theorem replaceCrLf_cons {c : Char} {t : Text} (h : c ≠ '\r' ∨ t.head? ≠ some '\n') :
    replaceCrLf (c :: t) = c :: replaceCrLf t := by
  rw [replaceCrLf.eq_def]
  split
  · simp_all
  · simp_all
  · simp_all

theorem replaceCrLf_of_not_mem {l : Text} (h : '\n' ∉ l) : replaceCrLf l = l := by
  induction l with
  | nil => rfl
  | cons c l ih =>
    have hl : '\n' ∉ l := fun hm => h (List.mem_cons_of_mem c hm)
    have hhead : l.head? ≠ some '\n' := fun hh => hl (List.mem_of_head? hh)
    rw [replaceCrLf_cons (Or.inr hhead), ih hl]

/-- The replacement eats the carriage return of a terminated line and nothing else. -/
theorem replaceCrLf_line (l t : Text) (h : '\n' ∉ l) :
    replaceCrLf (l ++ '\n' :: t) = stripCr l ++ '\n' :: replaceCrLf t := by
  induction l with
  | nil => rfl
  | cons c l ih =>
    have hl : '\n' ∉ l := fun hm => h (List.mem_cons_of_mem c hm)
    cases l with
    | nil =>
      by_cases hc : c = '\r'
      · subst hc
        rfl
      · have hcr : ¬ EndsInCr [c] := by simpa [EndsInCr] using hc
        rw [stripCr_of_not_endsInCr hcr]
        exact replaceCrLf_cons (Or.inl hc)
    | cons d l =>
      have hd : d ≠ '\n' := fun heq => hl (heq ▸ List.mem_cons_self)
      have hhead : (d :: l ++ '\n' :: t).head? ≠ some '\n' := by simpa using hd
      rw [List.cons_append, replaceCrLf_cons (Or.inr hhead), ih hl]
      have hstrip : stripCr (c :: d :: l) = c :: stripCr (d :: l) :=
        @stripCr_append_cons [c] d l
      rw [hstrip]
      rfl

theorem not_mem_stripCr {l : Text} (h : '\n' ∉ l) : '\n' ∉ stripCr l :=
  fun hm => h (mem_of_mem_stripCr hm)

@[simp] theorem normalizedLines_nil : normalizedLines [] = [] := rfl

theorem normalizedLines_line (l t : Text) (h : '\n' ∉ l) :
    normalizedLines (l ++ '\n' :: t) = stripCr (stripCr l) :: normalizedLines t := by
  rw [normalizedLines, replaceCrLf_line l t h, lines_line _ _ (not_mem_stripCr h)]
  rfl

theorem normalizedLines_last (l : Text) (hne : l ≠ []) (h : '\n' ∉ l) :
    normalizedLines l = [l] := by
  rw [normalizedLines, replaceCrLf_of_not_mem h, lines_last l hne h]

theorem replaceCrLf_eq_nil_iff (t : Text) : replaceCrLf t = [] ↔ t = [] := by
  constructor
  · intro h
    rw [replaceCrLf.eq_def] at h
    split at h <;> simp_all
  · rintro rfl
    rfl

/-- A text that is empty or newline-terminated can be extended without touching its lines. -/
theorem normalizedLines_append {a : Text} (b : Text) (h : a = [] ∨ EndsInLf a) :
    normalizedLines (a ++ b) = normalizedLines a ++ normalizedLines b := by
  induction a using lines_induction with
  | nil => rfl
  | last l hne hl =>
    rcases h with h | h
    · exact absurd h hne
    · exact absurd (List.mem_of_getLast? h) hl
  | line l t hl ih =>
    rw [List.append_assoc, List.cons_append, normalizedLines_line l _ hl,
      normalizedLines_line l _ hl, List.cons_append]
    congr 1
    apply ih
    by_cases ht : t = []
    · exact Or.inl ht
    · obtain ⟨c, t', rfl⟩ := List.exists_cons_of_ne_nil ht
      refine Or.inr ?_
      rcases h with h | h
      · simp at h
      · simpa [EndsInLf, List.getLast?_append] using h

/-- What follows a text without a final line feed continues its last line. -/
theorem normalizedLines_append_unterminated {a : Text} (hne : a ≠ []) (hend : ¬ EndsInLf a) :
    ∃ front last, last ≠ [] ∧ normalizedLines a = front ++ [last] ∧
      ∀ b first rest, normalizedLines b = first :: rest → first ≠ [] →
        normalizedLines (a ++ b) = front ++ (last ++ first) :: rest := by
  induction a using lines_induction with
  | nil => exact absurd rfl hne
  | last l hl hlf =>
    refine ⟨[], l, hl, normalizedLines_last l hl hlf, ?_⟩
    intro b first rest hb hfirst
    induction b using lines_induction with
    | nil => simp at hb
    | last k hk hklf =>
      rw [normalizedLines_last k hk hklf] at hb
      cases hb
      rw [normalizedLines_last _ (by simp [hl]) (by simp [hlf, hklf])]
      rfl
    | line k t hklf _ =>
      rw [normalizedLines_line k t hklf] at hb
      obtain ⟨rfl, rfl⟩ := List.cons.inj hb
      have hstrip : stripCr k ≠ [] := fun h => hfirst (by rw [h]; rfl)
      have hk : k ≠ [] := fun h => hstrip (by rw [h]; rfl)
      obtain ⟨c, k', rfl⟩ := List.exists_cons_of_ne_nil hk
      obtain ⟨d, m, hm⟩ := List.exists_cons_of_ne_nil hstrip
      rw [← List.append_assoc, normalizedLines_line _ t (by simpa [hlf] using hklf),
        stripCr_append_cons, hm, stripCr_append_cons]
      rfl
  | line l t hl ih =>
    have ht : t ≠ [] := by
      rintro rfl
      exact hend (by simp [EndsInLf])
    have htend : ¬ EndsInLf t := by
      obtain ⟨c, u, rfl⟩ := List.exists_cons_of_ne_nil ht
      simpa [EndsInLf, List.getLast?_append] using hend
    obtain ⟨front, last, hlast, hlines, happend⟩ := ih ht htend
    refine ⟨stripCr (stripCr l) :: front, last, hlast, ?_, ?_⟩
    · rw [normalizedLines_line l t hl, hlines, List.cons_append]
    · intro b first rest hb hfirst
      rw [List.append_assoc, List.cons_append, normalizedLines_line l _ hl,
        happend b first rest hb hfirst, List.cons_append]

theorem mem_normalizedLines_no_lf {t l : Text} (h : l ∈ normalizedLines t) : '\n' ∉ l := by
  induction t using lines_induction with
  | nil => simp at h
  | last u hne hu =>
    rw [normalizedLines_last u hne hu, List.mem_singleton] at h
    exact h ▸ hu
  | line u t hu ih =>
    rw [normalizedLines_line u t hu] at h
    rcases List.mem_cons.mp h with rfl | h
    · exact not_mem_stripCr (not_mem_stripCr hu)
    · exact ih h

theorem normalizedLines_eq_nil_iff (t : Text) : normalizedLines t = [] ↔ t = [] := by
  constructor
  · intro h
    induction t using lines_induction with
    | nil => rfl
    | last u hne hu => simp [normalizedLines_last u hne hu] at h
    | line u t hu _ => simp [normalizedLines_line u t hu] at h
  · rintro rfl
    rfl

@[simp] theorem unlines_nil : unlines [] = [] := rfl

@[simp] theorem unlines_cons (l : Text) (ls : List Text) :
    unlines (l :: ls) = l ++ '\n' :: unlines ls := by
  simp [unlines]

theorem unlines_terminated (ls : List Text) : unlines ls = [] ∨ EndsInLf (unlines ls) := by
  induction ls with
  | nil => exact Or.inl rfl
  | cons l ls ih =>
    refine Or.inr ?_
    rw [unlines_cons]
    rcases ih with h | h
    · simp [EndsInLf, h]
    · have hu : (unlines ls).getLast? = some '\n' := h
      simp [EndsInLf, List.getLast?_append, List.getLast?_cons, hu]

/-- Rendered lines are read back, if none holds a line feed or ends in a carriage return. -/
theorem normalizedLines_unlines (ls : List Text) (hlf : ∀ l ∈ ls, '\n' ∉ l)
    (hcr : ∀ l ∈ ls, ¬ EndsInCr l) : normalizedLines (unlines ls) = ls := by
  induction ls with
  | nil => rfl
  | cons l ls ih =>
    rw [unlines_cons, normalizedLines_line l _ (hlf l List.mem_cons_self),
      stripCr_of_not_endsInCr (hcr l List.mem_cons_self),
      stripCr_of_not_endsInCr (hcr l List.mem_cons_self),
      ih (fun m hm => hlf m (List.mem_cons_of_mem l hm))
        (fun m hm => hcr m (List.mem_cons_of_mem l hm))]

theorem lines_unlines (ls : List Text) (hlf : ∀ l ∈ ls, '\n' ∉ l) :
    lines (unlines ls) = ls.map stripCr := by
  induction ls with
  | nil => rfl
  | cons l ls ih =>
    rw [unlines_cons, lines_line l _ (hlf l List.mem_cons_self), List.map_cons,
      ih (fun m hm => hlf m (List.mem_cons_of_mem l hm))]

@[simp] theorem joinLines_nil : joinLines [] = [] := rfl

@[simp] theorem joinLines_singleton (l : Text) : joinLines [l] = l := by
  simp [joinLines]

@[simp] theorem joinLines_cons_cons (l m : Text) (ls : List Text) :
    joinLines (l :: m :: ls) = l ++ '\n' :: joinLines (m :: ls) := by
  simp [joinLines]

theorem joinLines_append_cons (l m : Text) (ls : List Text) :
    joinLines ((l ++ '\n' :: m) :: ls) = l ++ '\n' :: joinLines (m :: ls) := by
  cases ls with
  | nil => simp
  | cons k ls => simp

/-- Every line counts its characters and one more for its end. -/
theorem length_joinLines (ls : List Text) :
    (joinLines ls).length = (ls.map fun l => l.length + 1).sum - 1 := by
  induction ls with
  | nil => rfl
  | cons l ls ih =>
    cases ls with
    | nil => simp
    | cons m ls =>
      simp only [joinLines_cons_cons, List.length_append, List.length_cons, ih, List.map_cons,
        List.sum_cons]
      omega

theorem joinLines_concat (l : Text) (ls : List Text) (m : Text) :
    joinLines (l :: ls ++ [m]) = joinLines (l :: ls) ++ '\n' :: m := by
  induction ls generalizing l with
  | nil => simp
  | cons k ls ih =>
    rw [List.cons_append, List.cons_append, joinLines_cons_cons, ← List.cons_append, ih k,
      joinLines_cons_cons, List.append_assoc, List.cons_append]

/-- Joined lines are iterated back, if no line feed or line-final carriage return hides in
them and the join does not end in an empty line. -/
theorem lines_joinLines (l : Text) (ls : List Text) (hlf : ∀ m ∈ l :: ls, '\n' ∉ m)
    (hcr : ∀ m ∈ l :: ls, ¬ EndsInCr m) (hlast : (l :: ls).getLast? ≠ some []) :
    lines (joinLines (l :: ls)) = l :: ls := by
  induction ls generalizing l with
  | nil =>
    rw [joinLines_singleton]
    exact lines_last l (by simpa using hlast) (hlf l List.mem_cons_self)
  | cons m ls ih =>
    rw [joinLines_cons_cons, lines_line l _ (hlf l List.mem_cons_self),
      stripCr_of_not_endsInCr (hcr l List.mem_cons_self),
      ih m (fun k hk => hlf k (List.mem_cons_of_mem l hk))
        (fun k hk => hcr k (List.mem_cons_of_mem l hk)) (by simpa using hlast)]

end TextLines
