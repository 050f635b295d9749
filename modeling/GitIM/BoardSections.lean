import Mathlib.Data.List.TakeWhile
import GitIM.Boards
import GitIM.Trimming

/-!
# Editing the sections of a board

A body is cut at its headings. The section of a name goes from the first heading of that name to the
next heading, so that an edit whose text has no heading of its own stays within its section.
-/

namespace BoardSections

open TextLines TextScan Checked Trimming InclusiveLines Boards

section Headings
variable {s t name : Text} {line : Text}

/-- The names of the lines that are headings. -/
def marks (t : Text) : List (Option Text) := (splitInclusive t).map headingName

def Unheaded (t : Text) : Prop := ∀ line ∈ splitInclusive t, headingName line = none

/-- A text that begins with a heading. -/
def Starts (t : Text) : Prop := ∃ name rest, marks t = some name :: rest

/-- A text of one section. -/
def IsBlock (name t : Text) : Prop := ∃ rest, marks t = some name :: rest ∧ ∀ m ∈ rest, m = none

theorem IsBlock.starts (h : IsBlock name t) : Starts t := by
  obtain ⟨rest, hmarks, -⟩ := h
  exact ⟨name, rest, hmarks⟩

theorem unheaded_iff : Unheaded t ↔ ∀ m ∈ marks t, m = none := by
  rw [Unheaded, marks, List.forall_mem_map]

theorem headingName_append_lf (line : Text) : headingName (line ++ ['\n']) = headingName line := by
  rw [headingName, headingName]
  have hsame := trimEndMatches_append '\n' 1 line
  rw [List.replicate_one] at hsame
  rw [hsame]

theorem headingName_lf : headingName ['\n'] = none := by
  decide +kernel

theorem marks_append (hs : Closed s) (t : Text) : marks (s ++ t) = marks s ++ marks t := by
  rw [marks, splitInclusive_append hs, List.map_append]
  rfl

/-- The last piece of a text that is not closed. -/
theorem exists_last_piece (h : ¬ Closed t) :
    ∃ front last, t = front ++ last ∧ Closed front ∧ last ≠ [] ∧ '\n' ∉ last := by
  induction t using lines_induction with
  | nil => exact absurd (Or.inl rfl) h
  | last l hne hl => exact ⟨[], l, rfl, Or.inl rfl, hne, hl⟩
  | line l t hl ih =>
    have hline : Closed (l ++ ['\n']) := Or.inr List.getLast?_concat
    have hshape : l ++ '\n' :: t = (l ++ ['\n']) ++ t := by simp
    have ht : ¬ Closed t := by
      intro ht
      refine h ?_
      rw [hshape]
      exact closed_append hline ht
    obtain ⟨front, last, rfl, hfront, hlast⟩ := ih ht
    refine ⟨(l ++ ['\n']) ++ front, last, ?_, closed_append hline hfront, hlast⟩
    rw [hshape, List.append_assoc (l ++ ['\n'])]

/-- A line feed at the end is a line of its own or belongs to the last one. -/
theorem marks_append_lf (t : Text) :
    marks (t ++ ['\n']) = marks t ∨ marks (t ++ ['\n']) = marks t ++ [none] := by
  by_cases h : Closed t
  · have hblank : marks ['\n'] = [none] := congrArg (fun m => [m]) headingName_lf
    rw [marks_append h, hblank]
    exact Or.inr rfl
  · obtain ⟨front, last, rfl, hfront, hne, hlast⟩ := exists_last_piece h
    have hwhole : marks (last ++ ['\n']) = marks last := by
      have hline := splitInclusive_line last [] hlast
      rw [marks, marks, hline, splitInclusive_last last hne hlast, List.map_cons,
        headingName_append_lf]
      rfl
    rw [List.append_assoc, marks_append hfront, marks_append hfront, hwhole]
    exact Or.inl rfl

theorem isBlock_append_lf_iff : IsBlock name (t ++ ['\n']) ↔ IsBlock name t := by
  rcases marks_append_lf t with hsame | hblank
  · rw [IsBlock, IsBlock, hsame]
  · rw [IsBlock, IsBlock, hblank]
    constructor
    · rintro ⟨rest, hmarks, hrest⟩
      cases hfirst : marks t with
      | nil =>
        rw [hfirst, List.nil_append] at hmarks
        cases (List.cons.inj hmarks).1
      | cons m ms =>
        rw [hfirst, List.cons_append, List.cons.injEq] at hmarks
        obtain ⟨rfl, rfl⟩ := hmarks
        exact ⟨ms, rfl, fun m hm => hrest m (List.mem_append_left _ hm)⟩
    · rintro ⟨rest, hmarks, hrest⟩
      refine ⟨rest ++ [none], by rw [hmarks]; rfl, ?_⟩
      rw [List.forall_mem_append]
      exact ⟨hrest, by simp⟩

theorem unheaded_append_lf_iff : Unheaded (t ++ ['\n']) ↔ Unheaded t := by
  rw [unheaded_iff, unheaded_iff]
  rcases marks_append_lf t with hsame | hblank
  · rw [hsame]
  · rw [hblank, List.forall_mem_append]
    exact and_iff_left (by simp)

theorem mem_marks_append_lf_iff : some name ∈ marks (t ++ ['\n']) ↔ some name ∈ marks t := by
  rcases marks_append_lf t with hsame | hblank
  · rw [hsame]
  · rw [hblank]
    simp

theorem append_replicate_iff {P : Text → Prop} (h : ∀ t, P (t ++ ['\n']) ↔ P t) (n : Nat) (t : Text) :
    P (t ++ List.replicate n '\n') ↔ P t := by
  induction n with
  | zero => rw [List.replicate_zero, List.append_nil]
  | succ n ih => rw [List.replicate_succ', ← List.append_assoc, h, ih]

/-- What line feeds at the end do not change holds of a text without them. -/
theorem trimEndMatches_iff {P : Text → Prop} (h : ∀ t, P (t ++ ['\n']) ↔ P t) (t : Text) :
    P (trimEndMatches '\n' t) ↔ P t := by
  obtain ⟨n, hn⟩ := exists_trimEndMatches '\n' t
  have hsame := append_replicate_iff h n (trimEndMatches '\n' t)
  rw [← hn] at hsame
  exact hsame.symm

end Headings

section Bodies
variable {s t body name front block back : Text} {ls rest : List Text}

/-- The sections of a body in order, each with its text from the heading on. -/
def sectionsOf : List Text → List (Text × Text)
  | [] => []
  | line :: rest =>
    match headingName line with
    | some name =>
      (name, line ++ (rest.takeWhile fun l => (headingName l).isNone).flatten) :: sectionsOf rest
    | none => sectionsOf rest

def sections (body : Text) : List (Text × Text) := sectionsOf (splitInclusive body)

theorem sectionsOf_heading {line : Text} (h : headingName line = some name) (rest : List Text) :
    sectionsOf (line :: rest) =
      (name, line ++ (rest.takeWhile fun l => (headingName l).isNone).flatten) ::
        sectionsOf rest := by
  rw [sectionsOf, h]

theorem sectionsOf_line {line : Text} (h : headingName line = none) (rest : List Text) :
    sectionsOf (line :: rest) = sectionsOf rest := by
  rw [sectionsOf, h]

theorem sectionsOf_unheaded (h : ∀ l ∈ ls, headingName l = none) : sectionsOf ls = [] := by
  induction ls with
  | nil => rfl
  | cons line ls ih =>
    rw [List.forall_mem_cons] at h
    rw [sectionsOf_line h.1, ih h.2]

theorem sectionsOf_append {head : Text} (hhead : headingName head = some name) (ls rest : List Text) :
    sectionsOf (ls ++ head :: rest) = sectionsOf ls ++ sectionsOf (head :: rest) := by
  induction ls with
  | nil => rfl
  | cons line ls ih =>
    have hstop : (ls ++ head :: rest).takeWhile (fun l => (headingName l).isNone) =
        ls.takeWhile fun l => (headingName l).isNone := by
      rw [List.takeWhile_append]
      split
      · rename_i hall
        rw [List.takeWhile_cons_of_neg (by rw [hhead]; exact Bool.false_ne_true), List.append_nil]
        exact ((List.takeWhile_prefix _).eq_of_length hall).symm
      · rfl
    rw [List.cons_append]
    cases hline : headingName line with
    | none => rw [sectionsOf_line hline, sectionsOf_line hline, ih]
    | some other => rw [sectionsOf_heading hline, sectionsOf_heading hline, ih, hstop,
        List.cons_append]

theorem exists_pieces_of_marks {m : Option Text} {ms : List (Option Text)} (h : marks t = m :: ms) :
    ∃ line rest, splitInclusive t = line :: rest ∧ headingName line = m ∧ rest.map headingName = ms := by
  obtain ⟨line, rest, hpieces, hline, hrest⟩ := List.map_eq_cons_iff.mp h
  exact ⟨line, rest, hpieces, hline, hrest⟩

theorem sections_append (hs : Closed s) (ht : Starts t) : sections (s ++ t) = sections s ++ sections t := by
  obtain ⟨name, ms, hmarks⟩ := ht
  obtain ⟨line, rest, hpieces, hline, -⟩ := exists_pieces_of_marks hmarks
  rw [sections, sections, sections, splitInclusive_append hs, hpieces, sectionsOf_append hline]

theorem sections_unheaded (h : Unheaded t) : sections t = [] := sectionsOf_unheaded h

theorem sections_block (h : IsBlock name block) : sections block = [(name, block)] := by
  obtain ⟨ms, hmarks, hall⟩ := h
  obtain ⟨line, rest, hpieces, hline, rfl⟩ := exists_pieces_of_marks hmarks
  rw [List.forall_mem_map] at hall
  have hwhole : rest.takeWhile (fun l => (headingName l).isNone) = rest := by
    rw [List.takeWhile_eq_self_iff]
    intro l hl
    rw [hall l hl]
    rfl
  have htext := flatten_splitInclusive block
  rw [hpieces, List.flatten_cons] at htext
  rw [sections, hpieces, sectionsOf_heading hline, sectionsOf_unheaded hall, hwhole, htext]

/-- The part of a body that is the section of a name. -/
structure Cut (body name front block back : Text) : Prop where
  text : body = front ++ (block ++ back)
  closed : Closed front
  absent : some name ∉ marks front
  named : IsBlock name block
  next : back = [] ∨ Closed block ∧ Starts back

theorem Cut.pieces_eq (h : Cut body name front block back) :
    splitInclusive body = splitInclusive front ++ (splitInclusive block ++ splitInclusive back) := by
  rw [h.text, splitInclusive_append h.closed]
  rcases h.next with rfl | ⟨hclosed, -⟩
  · rw [List.append_nil, splitInclusive_nil, List.append_nil]
  · rw [splitInclusive_append hclosed]

theorem Cut.sections_eq (h : Cut body name front block back) :
    sections body = sections front ++ (name, block) :: sections back := by
  have hblock : sections (block ++ back) = (name, block) :: sections back := by
    rcases h.next with rfl | ⟨hclosed, hstarts⟩
    · rw [List.append_nil, sections_block h.named]
      rfl
    · rw [sections_append hclosed hstarts, sections_block h.named]
      rfl
  have hstarts : Starts (block ++ back) := by
    obtain ⟨rest, hmarks, -⟩ := h.named
    rcases h.next with rfl | ⟨hclosed, -⟩
    · rw [List.append_nil]
      exact ⟨name, rest, hmarks⟩
    · rw [Starts, marks_append hclosed, hmarks]
      exact ⟨name, _, rfl⟩
  rw [h.text, sections_append h.closed hstarts, hblock]

theorem exists_cut (h : some name ∈ marks body) : ∃ front block back, Cut body name front block back := by
  obtain ⟨line, hline, hname⟩ := List.mem_map.mp h
  have hfind : ((splitInclusive body).find? fun l => headingName l = some name).isSome := by
    rw [List.find?_isSome]
    exact ⟨line, hline, decide_eq_true hname⟩
  obtain ⟨head, hhead⟩ := Option.isSome_iff_exists.mp hfind
  obtain ⟨hnamed, before, behind, hpieces, hbefore⟩ := List.find?_eq_some_iff_append.mp hhead
  have hhead := of_decide_eq_true hnamed
  let plain : Text → Bool := fun l => (headingName l).isNone
  have hbehind : behind = behind.takeWhile plain ++ behind.dropWhile plain :=
    List.takeWhile_append_dropWhile.symm
  have hsplit : splitInclusive body =
      before ++ ((head :: behind.takeWhile plain) ++ behind.dropWhile plain) := by
    rw [hpieces, List.cons_append, ← hbehind]
  obtain ⟨hfront, hrest, hclosed⟩ := splitInclusive_split hsplit
  obtain ⟨hblock, hback, hclosed'⟩ := splitInclusive_split hrest
  refine ⟨before.flatten, (head :: behind.takeWhile plain).flatten, (behind.dropWhile plain).flatten,
    ?_, hclosed (by simp), ?_, ?_, ?_⟩
  · rw [← List.flatten_append, ← List.flatten_append, ← hsplit, flatten_splitInclusive]
  · rw [marks, hfront]
    intro hmem
    obtain ⟨other, hother, hsame⟩ := List.mem_map.mp hmem
    have hnot := hbefore other hother
    rw [hsame] at hnot
    simp at hnot
  · refine ⟨(behind.takeWhile plain).map headingName, ?_, ?_⟩
    · rw [marks, hblock, List.map_cons, hhead]
    · rw [List.forall_mem_map]
      intro l hl
      exact Option.isNone_iff_eq_none.mp (List.all_eq_true.mp List.all_takeWhile l hl)
  · by_cases hempty : behind.dropWhile plain = []
    · exact Or.inl (by rw [hempty]; rfl)
    · refine Or.inr ⟨hclosed' hempty, ?_⟩
      obtain ⟨next, rest, hnext⟩ := List.exists_cons_of_ne_nil hempty
      have hstop := List.head?_dropWhile_not plain behind
      rw [hnext] at hstop
      obtain ⟨other, hother⟩ : ∃ other, headingName next = some other := by
        rw [← Option.isSome_iff_exists, ← Option.not_isNone]
        simpa [plain] using hstop
      refine ⟨other, rest.map headingName, ?_⟩
      rw [marks, hback, hnext, List.map_cons, hother]

end Bodies

section Search
variable {body name front block back : Text} {ls rest : List Text}

theorem sectionStart_none (h : some name ∉ ls.map headingName) (offset : Nat) :
    sectionStart name offset ls = none := by
  induction ls generalizing offset with
  | nil => rfl
  | cons line ls ih =>
    rw [List.map_cons, List.mem_cons, not_or] at h
    rw [sectionStart, if_neg (Ne.symm h.1), ih h.2]

theorem sectionStart_append (h : some name ∉ ls.map headingName) {head : Text}
    (hhead : headingName head = some name) (offset : Nat) :
    sectionStart name offset (ls ++ head :: rest) =
      some (offset + ls.flatten.length, offset + ls.flatten.length + head.length) := by
  induction ls generalizing offset with
  | nil => simp [sectionStart, hhead]
  | cons line ls ih =>
    rw [List.map_cons, List.mem_cons, not_or] at h
    rw [List.cons_append, sectionStart, if_neg (Ne.symm h.1), ih h.2, List.flatten_cons,
      List.length_append, Nat.add_assoc offset]

theorem sectionEnd_append (h : ∀ l ∈ ls, headingName l = none) (n offset : Nat) :
    sectionEnd n offset (ls ++ rest) = sectionEnd n (offset + ls.flatten.length) rest := by
  induction ls generalizing offset with
  | nil => rfl
  | cons line ls ih =>
    rw [List.forall_mem_cons] at h
    rw [List.cons_append, sectionEnd, h.1, if_neg (by simp), ih h.2, List.flatten_cons,
      List.length_append, Nat.add_assoc]

theorem findSection_eq_none (h : some name ∉ marks body) : findSection body name = none := by
  rw [findSection, sectionStart_none h]

/-- The search finds the section of the cut. -/
theorem Cut.findSection_eq (h : Cut body name front block back) :
    findSection body name = some ⟨front.length, front.length + block.length⟩ := by
  obtain ⟨ms, hmarks, hall⟩ := h.named
  obtain ⟨head, inner, hpieces, hhead, rfl⟩ := exists_pieces_of_marks hmarks
  rw [List.forall_mem_map] at hall
  have hfront : (splitInclusive front).flatten = front := flatten_splitInclusive front
  have htext : block = head ++ inner.flatten := by
    rw [← flatten_splitInclusive block, hpieces, List.flatten_cons]
  have hstart : sectionStart name 0 (splitInclusive body) =
      some (front.length, front.length + head.length) := by
    rw [h.pieces_eq, hpieces, List.cons_append, sectionStart_append h.absent hhead, hfront,
      Nat.zero_add]
  have hdrop : body.drop (front.length + head.length) = inner.flatten ++ back := by
    rw [h.text, htext, List.append_assoc, ← List.append_assoc, List.drop_left' List.length_append]
  have hinside : splitInclusive (inner.flatten ++ back) = inner ++ splitInclusive back := by
    have hwhole := splitInclusive_split (h.pieces_eq.trans (by rw [hpieces]))
    have hlater : splitInclusive (head ++ (inner.flatten ++ back)) =
        [head] ++ (inner ++ splitInclusive back) := by
      have hsame := hwhole.2.1
      rw [List.flatten_append, List.flatten_cons, flatten_splitInclusive, List.append_assoc] at hsame
      rw [hsame]
      rfl
    have hsame := (splitInclusive_split hlater).2.1
    rw [List.flatten_append, flatten_splitInclusive] at hsame
    exact hsame
  have hend : sectionEnd body.length (front.length + head.length) (inner ++ splitInclusive back) =
      front.length + block.length := by
    rw [sectionEnd_append hall, htext, List.length_append, Nat.add_assoc]
    rcases h.next with rfl | ⟨-, other, rest, hnext⟩
    · rw [h.text, htext]
      simp [sectionEnd]
    · obtain ⟨next, later, hback, hnamed, -⟩ := exists_pieces_of_marks hnext
      rw [hback, sectionEnd, hnamed, if_pos Option.isSome_some]
  rw [findSection, hstart]
  simp only [hdrop, hinside, hend]

/-- The text of the section that the search finds. -/
def sectionText (body name : Text) : Option Text :=
  (findSection body name).map fun range => (body.take range.stop).drop range.start

theorem Cut.take_drop (h : Cut body name front block back) :
    (body.take (front.length + block.length)).drop front.length = block := by
  rw [h.text, ← List.append_assoc, List.take_left' List.length_append, List.drop_left' rfl]

theorem Cut.sectionText_eq (h : Cut body name front block back) :
    sectionText body name = some block := by
  rw [sectionText, h.findSection_eq, Option.map_some, h.take_drop]

theorem Cut.replaceRange_eq (h : Cut body name front block back) (replacement : Text) :
    replaceRange body ⟨front.length, front.length + block.length⟩ replacement =
      front ++ (replacement ++ back) := by
  rw [replaceRange, h.text, List.take_left' rfl, ← List.append_assoc front block,
    List.drop_left' List.length_append]

theorem exists_cut_of_sectionText {old : Text} (h : sectionText body name = some old) :
    ∃ front back, Cut body name front old back := by
  by_cases hmem : some name ∈ marks body
  · obtain ⟨front, block, back, hcut⟩ := exists_cut hmem
    rw [hcut.sectionText_eq, Option.some.injEq] at h
    exact ⟨front, back, h ▸ hcut⟩
  · rw [sectionText, findSection_eq_none hmem] at h
    cases h

/-- Another text of the section, with what stands in front of its next heading. -/
theorem Cut.replace (h : Cut body name front block back) {inside behind : Text}
    (hinside : IsBlock name inside) (hclosed : Closed inside)
    (hbehind : behind = [] ∨ Closed behind ∧ Starts behind) :
    Cut (front ++ ((inside ++ behind) ++ back)) name front inside (behind ++ back) := by
  refine ⟨by simp, h.closed, h.absent, hinside, ?_⟩
  rcases hbehind with rfl | ⟨hclosed', name', rest, hmarks⟩
  · rcases h.next with rfl | ⟨-, hstarts⟩
    · exact Or.inl rfl
    · exact Or.inr ⟨hclosed, hstarts⟩
  · refine Or.inr ⟨hclosed, name', rest ++ marks back, ?_⟩
    rw [marks_append hclosed', hmarks, List.cons_append]

end Search

section Blocks
variable {body name front block back value s t : Text}

/-- A name that fits on one line, without white space at its ends. -/
structure SectionName (name : Text) : Prop where
  trimmed : trim name = name
  lf : '\n' ∉ name
  cr : '\r' ∉ name

theorem sectionName_of_ok {section_ : Text} (h : validateSectionName section_ = .ok name) :
    SectionName name := by
  simp only [validateSectionName] at h
  split at h
  · cases h
  · split at h
    · cases h
    · rename_i hline
      obtain rfl := Except.ok.inj h
      rw [not_or] at hline
      exact ⟨trim_trim section_, hline.1, hline.2⟩

def heading (name : Text) : Text := "## ".toList ++ name

theorem not_mem_heading {c : Char} (hc : c ∉ "## ".toList) (hname : c ∉ name) : c ∉ heading name := by
  rw [heading, List.mem_append, not_or]
  exact ⟨hc, hname⟩

theorem headingName_heading (h : SectionName name) : headingName (heading name) = some name := by
  have hlf : (heading name).getLast? ≠ some '\n' := fun hlast =>
    not_mem_heading (by decide +kernel) h.lf (List.mem_of_getLast? hlast)
  have hcr : (heading name).getLast? ≠ some '\r' := fun hlast =>
    not_mem_heading (by decide +kernel) h.cr (List.mem_of_getLast? hlast)
  rw [headingName, trimEndMatches_eq_self hlf, trimEndMatches_eq_self hcr, heading,
    stripPrefix_append, Option.map_some, h.trimmed]

/-- The lines above the value of a section. -/
def headingLines (name : Text) : Text := heading name ++ ['\n'] ++ ['\n']

theorem isBlock_headingLines (h : SectionName name) : IsBlock name (headingLines name) := by
  have hne : heading name ≠ [] := by
    rw [heading]
    exact List.append_ne_nil_of_left_ne_nil (by decide +kernel) name
  have hline := splitInclusive_last (heading name) hne (not_mem_heading (by decide +kernel) h.lf)
  have hblock : IsBlock name (heading name) := by
    refine ⟨[], ?_, List.forall_mem_nil _⟩
    rw [marks, hline, List.map_singleton, headingName_heading h]
  rw [headingLines, isBlock_append_lf_iff, isBlock_append_lf_iff]
  exact hblock

theorem closed_append_lf (t : Text) : Closed (t ++ ['\n']) := Or.inr List.getLast?_concat

theorem closed_of_append (h : Closed (s ++ t)) : Closed t := by
  by_cases ht : t = []
  · exact Or.inl ht
  · refine Or.inr ?_
    rcases h with h | h
    · exact absurd (List.append_eq_nil_iff.mp h).2 ht
    · rw [EndsInLf, List.getLast?_append_of_ne_nil _ ht] at h
      exact h

theorem isBlock_append (hs : IsBlock name s) (hclosed : Closed s) (ht : Unheaded t) :
    IsBlock name (s ++ t) := by
  obtain ⟨rest, hmarks, hall⟩ := hs
  refine ⟨rest ++ marks t, ?_, ?_⟩
  · rw [marks_append hclosed, hmarks, List.cons_append]
  · rw [List.forall_mem_append]
    exact ⟨hall, unheaded_iff.mp ht⟩

/-- The lines that a value takes. -/
def valueLines (value : Text) : Text := if value = [] then [] else value ++ ['\n']

theorem closed_valueLines (value : Text) : Closed (valueLines value) := by
  rw [valueLines]
  split
  · exact Or.inl rfl
  · exact closed_append_lf value

theorem unheaded_nil : Unheaded [] := by
  intro line hline
  cases hline

theorem unheaded_valueLines (h : Unheaded value) : Unheaded (valueLines value) := by
  rw [valueLines]
  split
  · exact unheaded_nil
  · exact unheaded_append_lf_iff.mpr h

theorem sectionBlock_eq (name value : Text) :
    sectionBlock name value = headingLines name ++ valueLines (normalizeSectionValue value) := by
  have hlines : headingLines name = "## ".toList ++ (name ++ "\n\n".toList) := by
    rw [headingLines, heading, List.append_assoc, List.append_assoc]
    rfl
  rw [hlines]
  simp only [sectionBlock, valueLines]
  split
  · rw [List.append_nil]
  · rw [List.append_assoc, List.append_assoc]

theorem appendToSectionBlock_eq (existing value : Text) : appendToSectionBlock existing value =
    trimEndMatches '\n' existing ++ ['\n'] ++ valueLines value := by
  have hno : ¬ EndsInLf (trimEndMatches '\n' existing) := getLast?_trimEndMatches '\n' existing
  simp only [appendToSectionBlock, valueLines, terminated, if_neg hno]
  split
  · rw [List.append_nil]
  · rfl

theorem unheaded_cons_lf (t : Text) : Unheaded ('\n' :: t) ↔ Unheaded t := by
  have hmarks : marks ('\n' :: t) = none :: marks t := by
    have hsplit := marks_append (closed_append_lf []) t
    have hblank : marks ['\n'] = [none] := congrArg (fun m => [m]) headingName_lf
    rw [List.nil_append, hblank] at hsplit
    exact hsplit
  rw [unheaded_iff, unheaded_iff, hmarks, List.forall_mem_cons, and_iff_right rfl]

theorem unheaded_normalize (h : Unheaded value) : Unheaded (normalizeSectionValue value) := by
  rw [normalizeSectionValue, trimEndMatches_iff fun _ => unheaded_append_lf_iff]
  induction value with
  | nil => exact h
  | cons c value ih =>
    by_cases hc : c = '\n'
    · rw [hc, List.dropWhile_cons_of_pos (by simp)]
      rw [hc, unheaded_cons_lf] at h
      exact ih h
    · rw [List.dropWhile_cons_of_neg (by simpa using hc)]
      exact h

theorem isBlock_sectionBlock (hname : SectionName name) (h : Unheaded value) :
    IsBlock name (sectionBlock name value) := by
  rw [sectionBlock_eq]
  exact isBlock_append (isBlock_headingLines hname) (closed_append_lf _)
    (unheaded_valueLines (unheaded_normalize h))

theorem closed_sectionBlock (name value : Text) : Closed (sectionBlock name value) := by
  rw [sectionBlock_eq]
  exact closed_append (closed_append_lf _) (closed_valueLines _)

end Blocks

section Edits
variable {body after name front block old back value s t : Text}

/-- A text up to its first heading, and what follows from there. -/
theorem exists_unheaded_front (t : Text) : ∃ inside behind, t = inside ++ behind ∧ Unheaded inside ∧
    (behind = [] ∨ Closed inside ∧ Starts behind) := by
  induction t using lines_induction with
  | nil => exact ⟨[], [], rfl, unheaded_nil, Or.inl rfl⟩
  | last l hne hl =>
    have hpieces := splitInclusive_last l hne hl
    cases hmark : headingName l with
    | none =>
      refine ⟨l, [], (List.append_nil l).symm, ?_, Or.inl rfl⟩
      rw [Unheaded, hpieces, List.forall_mem_singleton]
      exact hmark
    | some other =>
      refine ⟨[], l, rfl, unheaded_nil, Or.inr ⟨Or.inl rfl, other, [], ?_⟩⟩
      rw [marks, hpieces, List.map_singleton, hmark]
  | line l t hl ih =>
    have hpieces := splitInclusive_line l t hl
    cases hmark : headingName (l ++ ['\n']) with
    | none =>
      obtain ⟨inside, behind, rfl, hinside, hbehind⟩ := ih
      have hline : splitInclusive (l ++ '\n' :: inside) = (l ++ ['\n']) :: splitInclusive inside :=
        splitInclusive_line l inside hl
      refine ⟨l ++ '\n' :: inside, behind, by simp, ?_, hbehind.imp_right ?_⟩
      · rw [Unheaded, hline, List.forall_mem_cons]
        exact ⟨hmark, hinside⟩
      · rintro ⟨hclosed, hstarts⟩
        refine ⟨?_, hstarts⟩
        have hshape : l ++ '\n' :: inside = (l ++ ['\n']) ++ inside := by simp
        rw [hshape]
        exact closed_append (closed_append_lf l) hclosed
    | some other =>
      refine ⟨[], l ++ '\n' :: t, rfl, unheaded_nil, Or.inr ⟨Or.inl rfl, other, marks t, ?_⟩⟩
      rw [marks, hpieces, List.map_cons, hmark]
      rfl

/-- A text from its last heading on. -/
theorem exists_last_block (t : Text) :
    Unheaded t ∨ ∃ front name block, t = front ++ block ∧ Closed front ∧ IsBlock name block := by
  induction t using lines_induction with
  | nil => exact Or.inl unheaded_nil
  | last l hne hl =>
    have hpieces := splitInclusive_last l hne hl
    cases hmark : headingName l with
    | none =>
      left
      rw [Unheaded, hpieces, List.forall_mem_singleton]
      exact hmark
    | some name =>
      refine Or.inr ⟨[], name, l, rfl, Or.inl rfl, [], ?_, List.forall_mem_nil _⟩
      rw [marks, hpieces, List.map_singleton, hmark]
  | line l t hl ih =>
    have hpieces := splitInclusive_line l t hl
    have hshape : l ++ '\n' :: t = (l ++ ['\n']) ++ t := by simp
    rcases ih with hunheaded | ⟨front, name, block, rfl, hfront, hblock⟩
    · cases hmark : headingName (l ++ ['\n']) with
      | none =>
        left
        rw [Unheaded, hpieces, List.forall_mem_cons]
        exact ⟨hmark, hunheaded⟩
      | some name =>
        refine Or.inr ⟨[], name, l ++ '\n' :: t, rfl, Or.inl rfl, marks t, ?_, unheaded_iff.mp hunheaded⟩
        rw [marks, hpieces, List.map_cons, hmark]
        rfl
    · refine Or.inr ⟨(l ++ ['\n']) ++ front, name, block, ?_,
        closed_append (closed_append_lf l) hfront, hblock⟩
      rw [hshape, List.append_assoc (l ++ ['\n'])]

/-- The same sections, but for line feeds at the end of the last one. -/
def SameButEnd (a b : List (Text × Text)) : Prop :=
  a = b ∨ ∃ front name s t, a = front ++ [(name, s)] ∧ b = front ++ [(name, t)] ∧
    trimEndMatches '\n' s = trimEndMatches '\n' t

theorem sections_trailing (t : Text) (n m : Nat) :
    SameButEnd (sections (t ++ List.replicate n '\n')) (sections (t ++ List.replicate m '\n')) := by
  rcases exists_last_block t with hunheaded | ⟨front, name, block, rfl, hfront, hblock⟩
  · have hnone : ∀ k, sections (t ++ List.replicate k '\n') = [] := by
      intro k
      refine sections_unheaded ?_
      exact (append_replicate_iff (fun _ => unheaded_append_lf_iff) k t).mpr hunheaded
    exact Or.inl ((hnone n).trans (hnone m).symm)
  · have hlast : ∀ k, sections (front ++ block ++ List.replicate k '\n') =
        sections front ++ [(name, block ++ List.replicate k '\n')] := by
      intro k
      have hlonger : IsBlock name (block ++ List.replicate k '\n') :=
        (append_replicate_iff (fun _ => isBlock_append_lf_iff) k block).mpr hblock
      rw [List.append_assoc, sections_append hfront hlonger.starts, sections_block hlonger]
    refine Or.inr ⟨sections front, name, _, _, hlast n, hlast m, ?_⟩
    rw [trimEndMatches_append, trimEndMatches_append]

/-- The sections with another name. -/
def others (name body : Text) : List (Text × Text) := (sections body).filter fun s => s.1 ≠ name

/-- The sections with another name are kept; line feeds at the end of the body may change if the
name is new. -/
structure Frame (name before after : Text) : Prop where
  kept : findSection before name ≠ none → others name after = others name before
  new : findSection before name = none → SameButEnd (others name before) (others name after)

theorem mem_marks_of_mem_sections {e : Text × Text} (h : e ∈ sections t) : some e.1 ∈ marks t := by
  rw [sections] at h
  rw [marks]
  generalize splitInclusive t = ls at h
  induction ls with
  | nil => cases h
  | cons line ls ih =>
    rw [List.map_cons]
    cases hmark : headingName line with
    | none =>
      rw [sectionsOf_line hmark] at h
      exact List.mem_cons_of_mem _ (ih h)
    | some name =>
      rw [sectionsOf_heading hmark] at h
      rcases List.mem_cons.mp h with rfl | h
      · exact List.mem_cons_self
      · exact List.mem_cons_of_mem _ (ih h)

theorem others_of_absent (h : some name ∉ marks t) : others name t = sections t := by
  rw [others, List.filter_eq_self]
  intro e he
  refine decide_eq_true ?_
  rintro rfl
  exact h (mem_marks_of_mem_sections he)

theorem Cut.others_eq (h : Cut body name front block back) :
    others name body = sections front ++ others name back := by
  have hfront := others_of_absent h.absent
  rw [others] at hfront
  rw [others, h.sections_eq, List.filter_append, hfront,
    List.filter_cons_of_neg (by simp)]
  rfl

/-- Replacing a section keeps the others. -/
theorem frame_of_cuts (h : Cut body name front block back) {inside : Text}
    (hafter : Cut after name front inside back) : Frame name body after := by
  refine ⟨fun _ => by rw [h.others_eq, hafter.others_eq], ?_⟩
  rw [h.findSection_eq]
  intro hnone
  cases hnone

/-- What stands in front of a section that is added. -/
def frontOf (body : Text) : Text :=
  if body = [] then [] else trimEndMatches '\n' body ++ ['\n'] ++ ['\n']

theorem bodyWithAppendedSection_eq (body block : Text) :
    bodyWithAppendedSection body block = frontOf body ++ block := by
  rw [bodyWithAppendedSection, frontOf]
  split
  · rfl
  · simp

theorem appended_cut (hnew : some name ∉ marks body) (hblock : IsBlock name block) :
    Cut (bodyWithAppendedSection body block) name (frontOf body) block [] := by
  refine ⟨?_, ?_, ?_, hblock, Or.inl rfl⟩
  · rw [bodyWithAppendedSection_eq, List.append_nil]
  · rw [frontOf]
    split
    · exact Or.inl rfl
    · exact closed_append_lf _
  · rw [frontOf]
    split
    · exact List.not_mem_nil
    · rw [mem_marks_append_lf_iff, mem_marks_append_lf_iff,
        trimEndMatches_iff (P := fun t => some name ∈ marks t) fun _ => mem_marks_append_lf_iff]
      exact hnew

theorem frame_appended (hnew : some name ∉ marks body) (hblock : IsBlock name block) :
    Frame name body (bodyWithAppendedSection body block) := by
  have hcut := appended_cut hnew hblock
  refine ⟨fun hfound => absurd (findSection_eq_none hnew) hfound, fun _ => ?_⟩
  have hback : others name [] = [] := rfl
  rw [hcut.others_eq, hback, List.append_nil, others_of_absent hnew, frontOf]
  split
  · rename_i hempty
    rw [hempty]
    exact Or.inl rfl
  · obtain ⟨n, hn⟩ := exists_trimEndMatches '\n' body
    have hsame := sections_trailing (trimEndMatches '\n' body) n 2
    rw [← hn] at hsame
    rw [List.append_assoc]
    exact hsame

/-- The body behind an edit that sets a section. -/
def withBlock (body name block : Text) : Text :=
  match findSection body name with
  | some range => replaceRange body range block
  | none => bodyWithAppendedSection body block

/-- The body behind an edit that appends to a section. -/
def withAppended (body name value : Text) : Text :=
  match findSection body name with
  | some range =>
    replaceRange body range
      (appendToSectionBlock ((body.take range.stop).drop range.start) value)
  | none => bodyWithAppendedSection body (sectionBlock name value)

theorem Cut.withBlock_eq (h : Cut body name front old back) (block : Text) :
    withBlock body name block = front ++ (block ++ back) := by
  rw [withBlock, h.findSection_eq]
  exact h.replaceRange_eq block

theorem withBlock_new (h : some name ∉ marks body) (block : Text) :
    withBlock body name block = bodyWithAppendedSection body block := by
  rw [withBlock, findSection_eq_none h]

theorem Cut.withAppended_eq (h : Cut body name front old back) (value : Text) :
    withAppended body name value = front ++ (appendToSectionBlock old value ++ back) := by
  rw [withAppended, h.findSection_eq]
  simp only [h.take_drop]
  exact h.replaceRange_eq _

theorem withAppended_new (h : some name ∉ marks body) (value : Text) :
    withAppended body name value = bodyWithAppendedSection body (sectionBlock name value) := by
  rw [withAppended, findSection_eq_none h]

/-- Another text for a section, without a heading of its own, cuts the body at the same places. -/
theorem Cut.replaced (h : Cut body name front old back) (hblock : IsBlock name block)
    (hclosed : Closed block) : Cut (front ++ (block ++ back)) name front block back := by
  have hcut := h.replace hblock hclosed (Or.inl rfl)
  rw [List.append_nil, List.nil_append] at hcut
  exact hcut

/-- A block that is set is the section, and setting it again changes nothing. -/
theorem withBlock_exact (body : Text) (hblock : IsBlock name block) (hclosed : Closed block) :
    Frame name body (withBlock body name block) ∧
      sectionText (withBlock body name block) name = some block ∧
      withBlock (withBlock body name block) name block = withBlock body name block := by
  by_cases hmem : some name ∈ marks body
  · obtain ⟨front, old, back, hcut⟩ := exists_cut hmem
    have hafter := hcut.replaced hblock hclosed
    rw [hcut.withBlock_eq]
    exact ⟨frame_of_cuts hcut hafter, hafter.sectionText_eq, hafter.withBlock_eq block⟩
  · have hafter := appended_cut hmem hblock
    rw [withBlock_new hmem]
    refine ⟨frame_appended hmem hblock, hafter.sectionText_eq, ?_⟩
    rw [hafter.withBlock_eq, ← hafter.text]

/-- What was in a section stays in front of what is appended. -/
theorem withAppended_prefix (h : sectionText body name = some old) (value : Text) :
    ∃ new, sectionText (withAppended body name value) name = some new ∧
      trimEndMatches '\n' old <+: new := by
  obtain ⟨front, back, hcut⟩ := exists_cut_of_sectionText h
  obtain ⟨inside, behind, hlines, hinside, hbehind⟩ := exists_unheaded_front (valueLines value)
  have hclosed : Closed inside := by
    rcases hbehind with rfl | ⟨hclosed, -⟩
    · rw [List.append_nil] at hlines
      rw [← hlines]
      exact closed_valueLines value
    · exact hclosed
  have hbehind' : behind = [] ∨ Closed behind ∧ Starts behind := by
    have hwhole := closed_valueLines value
    rw [hlines] at hwhole
    exact hbehind.imp_right fun hstarts => ⟨closed_of_append hwhole, hstarts.2⟩
  have hkept : IsBlock name (trimEndMatches '\n' old ++ ['\n']) := by
    rw [isBlock_append_lf_iff, trimEndMatches_iff fun _ => isBlock_append_lf_iff]
    exact hcut.named
  have hblock : IsBlock name (trimEndMatches '\n' old ++ ['\n'] ++ inside) :=
    isBlock_append hkept (closed_append_lf _) hinside
  have hafter := hcut.replace hblock (closed_append (closed_append_lf _) hclosed) hbehind'
  refine ⟨trimEndMatches '\n' old ++ ['\n'] ++ inside, ?_, ?_⟩
  · rw [hcut.withAppended_eq, appendToSectionBlock_eq, hlines, ← List.append_assoc _ inside]
    exact hafter.sectionText_eq
  · rw [List.append_assoc]
    exact List.prefix_append _ _

theorem frame_withAppended (hname : SectionName name) (body : Text) (h : Unheaded value) :
    Frame name body (withAppended body name value) := by
  by_cases hmem : some name ∈ marks body
  · obtain ⟨front, old, back, hcut⟩ := exists_cut hmem
    have hkept : IsBlock name (trimEndMatches '\n' old ++ ['\n']) := by
      rw [isBlock_append_lf_iff, trimEndMatches_iff fun _ => isBlock_append_lf_iff]
      exact hcut.named
    have hblock := isBlock_append hkept (closed_append_lf _) (unheaded_valueLines h)
    have hclosed := closed_append (closed_append_lf (trimEndMatches '\n' old))
      (closed_valueLines value)
    rw [hcut.withAppended_eq, appendToSectionBlock_eq]
    exact frame_of_cuts hcut (hcut.replaced hblock hclosed)
  · rw [withAppended_new hmem]
    exact frame_appended hmem (isBlock_sectionBlock hname h)

end Edits

section Documents
variable {codec : BoardCodec} {doc doc' : BoardDocument} {section_ name value : Text}

/-- A new body, stored if it was found valid. -/
def stored (doc : BoardDocument) (body : Text) (checked : Except BoardError Unit) :
    BoardDocument × Except BoardError Unit :=
  match checked with
  | .error e => (doc, .error e)
  | .ok () => ({ doc with body := body }, .ok ())

theorem stored_ok_iff {body : Text} {checked : Except BoardError Unit} :
    stored doc body checked = (doc', .ok ()) ↔ checked = .ok () ∧ doc' = { doc with body := body } := by
  cases checked with
  | error e => simp [stored]
  | ok u => simp [stored, eq_comm]

theorem setBoardSection_ok_iff (hname : validateSectionName section_ = .ok name) :
    setBoardSection codec doc section_ value = (doc', .ok ()) ↔
      validateCandidateDocument codec doc.info
        (withBlock doc.body name (sectionBlock name value)) = .ok () ∧
      doc' = { doc with body := withBlock doc.body name (sectionBlock name value) } := by
  cases hfind : findSection doc.body name with
  | none =>
    simp only [setBoardSection, hname, withBlock, hfind]
    exact stored_ok_iff
  | some range =>
    simp only [setBoardSection, hname, withBlock, hfind]
    exact stored_ok_iff

theorem appendBoardSection_ok_iff (hname : validateSectionName section_ = .ok name) :
    appendBoardSection codec doc section_ value = (doc', .ok ()) ↔
      validateCandidateDocument codec doc.info
        (withAppended doc.body name (normalizeSectionValue value)) = .ok () ∧
      doc' = { doc with body := withAppended doc.body name (normalizeSectionValue value) } := by
  cases hfind : findSection doc.body name with
  | none =>
    simp only [appendBoardSection, hname, withAppended, hfind]
    exact stored_ok_iff
  | some range =>
    simp only [appendBoardSection, hname, withAppended, hfind]
    exact stored_ok_iff

/-- Edits of a section. A value without headings is set exactly and leaves the other sections as they
are; what is appended comes behind the previous content without its final line feeds. -/
theorem section_edits (codec : BoardCodec) (doc doc' : BoardDocument) (section_ name value : Text)
    (hname : validateSectionName section_ = .ok name) :
    (Unheaded value → setBoardSection codec doc section_ value = (doc', .ok ()) →
      Frame name doc.body doc'.body ∧
      sectionText doc'.body name = some (sectionBlock name value) ∧
      setBoardSection codec doc' section_ value = (doc', .ok ())) ∧
    (appendBoardSection codec doc section_ value = (doc', .ok ()) →
      (∀ old, sectionText doc.body name = some old → ∃ new,
        sectionText doc'.body name = some new ∧ trimEndMatches '\n' old <+: new) ∧
      (Unheaded value → Frame name doc.body doc'.body)) := by
  have hsection := sectionName_of_ok hname
  constructor
  · intro hvalue hset
    obtain ⟨hvalid, rfl⟩ := (setBoardSection_ok_iff hname).mp hset
    obtain ⟨hframe, hfound, hagain⟩ := withBlock_exact doc.body
      (isBlock_sectionBlock hsection hvalue) (closed_sectionBlock name value)
    refine ⟨hframe, hfound, (setBoardSection_ok_iff hname).mpr ⟨?_, ?_⟩⟩
    · rw [hagain]
      exact hvalid
    · rw [hagain]
  · intro happend
    obtain ⟨-, rfl⟩ := (appendBoardSection_ok_iff hname).mp happend
    refine ⟨?_, ?_⟩
    · intro old hold
      exact withAppended_prefix hold (normalizeSectionValue value)
    · intro hvalue
      exact frame_withAppended hsection doc.body (unheaded_normalize hvalue)

end Documents

section Samples

def sampleInfo : BoardMeta :=
  ⟨1, "alice".toList, "20260101T000000Z".toList, "idle".toList, [], []⟩

def sampleYaml : Text := unlines ["version: 1".toList, "handler: alice".toList,
  "updated_at: 20260101T000000Z".toList, "status: idle".toList, "summary: ''".toList,
  "tags: []".toList]

def sampleCodec : BoardCodec where
  fromStr t := if t = sampleYaml then .ok sampleInfo else .error "missing field".toList
  toStr _ := .ok sampleYaml

def sampleBoard (body : Text) : BoardDocument := ⟨sampleInfo, body⟩

def twoSections : Text := "## now\n\nold\n\n## later\n\nkept\n".toList

theorem section_edits_now :
    setBoardSection sampleCodec (sampleBoard twoSections) "now".toList "new".toList =
      (sampleBoard "## now\n\nnew\n## later\n\nkept\n".toList, .ok ()) ∧
    Frame "now".toList twoSections "## now\n\nnew\n## later\n\nkept\n".toList := by
  have hset : setBoardSection sampleCodec (sampleBoard twoSections) "now".toList "new".toList =
      (sampleBoard "## now\n\nnew\n## later\n\nkept\n".toList, .ok ()) := by decide +kernel
  have hvalue : Unheaded "new".toList := by
    rw [Unheaded]
    decide +kernel
  have hedits := section_edits sampleCodec (sampleBoard twoSections)
    (sampleBoard "## now\n\nnew\n## later\n\nkept\n".toList) "now".toList "now".toList "new".toList
    (by decide +kernel)
  exact ⟨hset, (hedits.1 hvalue hset).1⟩

/-- A value with a heading is no section any more, and is doubled when it is set again; what is
appended takes the place of a blank line. -/
theorem not_section_edits :
    setBoardSection sampleCodec (sampleBoard "## now\n".toList) "now".toList "a\n## b".toList =
      (sampleBoard "## now\n\na\n## b\n".toList, .ok ()) ∧
    sectionText "## now\n\na\n## b\n".toList "now".toList ≠
      some (sectionBlock "now".toList "a\n## b".toList) ∧
    setBoardSection sampleCodec (sampleBoard "## now\n\na\n## b\n".toList) "now".toList
        "a\n## b".toList =
      (sampleBoard "## now\n\na\n## b\n## b\n".toList, .ok ()) ∧
    appendBoardSection sampleCodec (sampleBoard "## now\n\n## b\n".toList) "now".toList "a".toList =
      (sampleBoard "## now\na\n## b\n".toList, .ok ()) ∧
    sectionText "## now\n\n## b\n".toList "now".toList = some "## now\n\n".toList ∧
    sectionText "## now\na\n## b\n".toList "now".toList = some "## now\na\n".toList ∧
    ¬ "## now\n\n".toList <+: "## now\na\n".toList := by
  decide +kernel

end Samples

end BoardSections
