import GitIM.FlowValidation
import GitIM.Trimming

/-!
# Saving and loading a flow

A saved flow holds the prompts of its nodes as sections under headings, as they are. Loading splits
the body at every heading and reads it by lines, so that a prompt is read back if it has no heading of
its own and ends no line with a carriage return. The white space around the YAML is trimmed, which
can take the end off the last text in it.
-/

namespace FlowFiles

open TextLines TextScan Checked Trimming ThreadFormat Cards Flows FlowValidation

section Sections
variable {name buffer : Text} {ls rest : List Text} {section_ : Text × Text}

def headingMark : Text := "## ".toList

def IsHeading (line : Text) : Prop := headingMark <+: line

theorem stripPrefix_eq_none_iff {line : Text} :
    stripPrefix headingMark line = none ↔ ¬ IsHeading line := by
  rw [stripPrefix, IsHeading]
  split
  · rename_i h
    exact iff_of_false (fun hnone => by cases hnone) (not_not.mpr h)
  · rename_i h
    exact iff_of_true rfl h

theorem bodySections_heading (open_ : Option (Text × Text)) (heading : Text) (rest : List Text) :
    bodySections open_ ((headingMark ++ heading) :: rest) =
      bodySections open_ [] ++ bodySections (some (trim heading, [])) rest := by
  have hstrip : stripPrefix "## ".toList (headingMark ++ heading) = some heading :=
    stripPrefix_append headingMark heading
  rw [bodySections.eq_2, hstrip]
  rfl

theorem bodySections_line {line : Text} (hline : ¬ IsHeading line) (open_ : Option (Text × Text))
    (rest : List Text) : bodySections open_ (line :: rest) =
      bodySections (open_.map fun s => (s.1, s.2 ++ (line ++ ['\n']))) rest := by
  have hstrip : stripPrefix "## ".toList line = none := stripPrefix_eq_none_iff.mpr hline
  rw [bodySections, hstrip]

theorem heading_or_line (line : Text) :
    (∃ heading, line = headingMark ++ heading) ∨ ¬ IsHeading line := by
  by_cases h : IsHeading line
  · obtain ⟨heading, hline⟩ := h
    exact Or.inl ⟨heading, hline.symm⟩
  · exact Or.inr h

/-- A heading closes what is open, whatever follows it. -/
theorem bodySections_append_heading (open_ : Option (Text × Text)) (ls : List Text) (heading : Text)
    (rest : List Text) :
    bodySections open_ (ls ++ (headingMark ++ heading) :: rest) =
      bodySections open_ ls ++ bodySections (some (trim heading, [])) rest := by
  induction ls generalizing open_ with
  | nil => exact bodySections_heading open_ heading rest
  | cons line ls ih =>
    rw [List.cons_append]
    rcases heading_or_line line with ⟨inner, rfl⟩ | hline
    · rw [bodySections_heading, bodySections_heading, ih, List.append_assoc]
    · rw [bodySections_line hline, bodySections_line hline, ih]

theorem not_isHeading_nil : ¬ IsHeading [] := by
  rw [IsHeading, List.prefix_nil]
  decide +kernel

/-- A blank line at the end of a section is trimmed off. -/
theorem bodySections_append_blank (open_ : Option (Text × Text)) (ls : List Text) :
    bodySections open_ (ls ++ [[]]) = bodySections open_ ls := by
  induction ls generalizing open_ with
  | nil =>
    rw [List.nil_append, bodySections_line not_isHeading_nil]
    cases open_ with
    | none => rfl
    | some s =>
      have hsame : trim (s.2 ++ ['\n']) = trim s.2 := trim_append_space rfl s.2
      exact congrArg (fun t => [(s.1, t)]) hsame
  | cons line ls ih =>
    rw [List.cons_append]
    rcases heading_or_line line with ⟨inner, rfl⟩ | hline
    · rw [bodySections_heading, bodySections_heading, ih]
    · rw [bodySections_line hline, bodySections_line hline, ih]

/-- Without headings there is one section. -/
theorem bodySections_plain (h : ∀ line ∈ ls, ¬ IsHeading line) :
    bodySections (some (name, buffer)) ls = [(name, trim (buffer ++ unlines ls))] := by
  induction ls generalizing buffer with
  | nil =>
    rw [unlines_nil, List.append_nil]
    rfl
  | cons line ls ih =>
    rw [List.forall_mem_cons] at h
    rw [bodySections_line h.1, Option.map_some, ih h.2, unlines_cons]
    simp

/-- The first section has the name that is open. -/
theorem bodySections_first (name buffer : Text) (ls : List Text) :
    ∃ text rest, bodySections (some (name, buffer)) ls = (name, text) :: rest := by
  induction ls generalizing buffer with
  | nil => exact ⟨_, _, rfl⟩
  | cons line ls ih =>
    rcases heading_or_line line with ⟨inner, rfl⟩ | hline
    · exact ⟨_, _, bodySections_heading _ inner ls⟩
    · rw [bodySections_line hline]
      exact ih _

theorem length_section_le (h : section_ ∈ bodySections (some (name, buffer)) ls) :
    section_.2.length ≤ buffer.length + (unlines ls).length := by
  induction ls generalizing name buffer with
  | nil =>
    obtain rfl := List.mem_singleton.mp h
    have hle := length_trim_le buffer
    exact Nat.le_add_right_of_le hle
  | cons line ls ih =>
    rw [unlines_cons, List.length_append, List.length_cons]
    rcases heading_or_line line with ⟨inner, rfl⟩ | hline
    · rw [bodySections_heading] at h
      rcases List.mem_append.mp h with hfirst | hrest
      · obtain rfl := List.mem_singleton.mp hfirst
        have hle := length_trim_le buffer
        dsimp only
        omega
      · have hle := ih hrest
        rw [List.length_nil] at hle
        omega
    · rw [bodySections_line hline] at h
      have hle : section_.2.length ≤ (buffer ++ (line ++ ['\n'])).length + (unlines ls).length :=
        ih h
      rw [List.length_append, List.length_append, List.length_singleton] at hle
      omega

/-- The line of a heading is in no section. -/
theorem length_section_heading (hheading : ∃ line ∈ ls, IsHeading line)
    (h : section_ ∈ bodySections (some (name, buffer)) ls) :
    section_.2.length + 4 ≤ buffer.length + (unlines ls).length := by
  have hmark : headingMark.length = 3 := by decide +kernel
  induction ls generalizing name buffer with
  | nil =>
    obtain ⟨line, hline, -⟩ := hheading
    cases hline
  | cons line ls ih =>
    rw [unlines_cons, List.length_append, List.length_cons]
    rcases heading_or_line line with ⟨inner, rfl⟩ | hline
    · rw [List.length_append]
      rw [bodySections_heading] at h
      rcases List.mem_append.mp h with hfirst | hrest
      · obtain rfl := List.mem_singleton.mp hfirst
        have hle := length_trim_le buffer
        dsimp only
        omega
      · have hle := length_section_le hrest
        rw [List.length_nil] at hle
        omega
    · rw [bodySections_line hline] at h
      have hlater : ∃ line ∈ ls, IsHeading line := by
        obtain ⟨other, hother, hheading⟩ := hheading
        rcases List.mem_cons.mp hother with rfl | hmem
        · exact absurd hheading hline
        · exact ⟨other, hmem, hheading⟩
      have hle : section_.2.length + 4 ≤
          (buffer ++ (line ++ ['\n'])).length + (unlines ls).length := ih hlater h
      rw [List.length_append, List.length_append, List.length_singleton] at hle
      omega

end Sections

section Prompts
variable {prompt : Text} {n : FlowNode}

theorem exists_unlines (t : Text) :
    ∃ ls, t ++ ['\n'] = unlines ls ∧ ∀ l ∈ ls, '\n' ∉ l := by
  induction t using lines_induction with
  | nil => exact ⟨[[]], rfl, by simp⟩
  | last l _ hl => exact ⟨[l], by simp, by simpa using hl⟩
  | line l t hl ih =>
    obtain ⟨ls, hls, hfree⟩ := ih
    refine ⟨l :: ls, ?_, List.forall_mem_cons.mpr ⟨hl, hfree⟩⟩
    rw [unlines_cons, ← hls]
    simp

/-- A line feed behind a text that ends no line changes none of its lines. -/
theorem lines_append_lf {t : Text} (hne : t ≠ []) (hcr : ¬ EndsInCr t) (hlf : ¬ EndsInLf t) :
    lines (t ++ ['\n']) = lines t := by
  induction t using lines_induction with
  | nil => exact absurd rfl hne
  | last l hne hl =>
    rw [lines_line l [] hl, lines_last l hne hl, stripCr_of_not_endsInCr hcr]
    rfl
  | line l t hl ih =>
    have ht : t ≠ [] := by
      rintro rfl
      exact hlf List.getLast?_concat
    have hlast : (l ++ '\n' :: t).getLast? = t.getLast? := by
      rw [List.getLast?_append_of_ne_nil _ (List.cons_ne_nil _ _), List.getLast?_cons,
        List.getLast?_eq_some_getLast ht]
      rfl
    rw [EndsInCr, hlast] at hcr
    rw [EndsInLf, hlast] at hlf
    rw [List.append_assoc, List.cons_append, lines_line l _ hl, lines_line l _ hl, ih ht hcr hlf]

/-- A prompt without headings and without carriage returns in front of line feeds. -/
structure PlainPrompt (prompt : Text) : Prop where
  headings : ∀ line ∈ lines (trim prompt), ¬ IsHeading line
  returns : replaceCrLf (trim prompt) = trim prompt

/-- The lines that a prompt takes in the body. -/
def promptLines (prompt : Text) : List Text :=
  if prompt = [] then [] else lines (trim prompt ++ ['\n'])

theorem not_endsIn_trim (c : Char) (hc : isWhiteSpace c = true) (t : Text) :
    (trim t).getLast? ≠ some c := by
  intro hlast
  rw [(trimmed_trim t).back c hlast] at hc
  cases hc

theorem promptLines_of_ne {t : Text} (ht : trim prompt = t) (hne : t ≠ []) :
    promptLines prompt = lines t := by
  have hprompt : prompt ≠ [] := by
    rintro rfl
    exact hne ht.symm
  rw [promptLines, if_neg hprompt, ← ht]
  exact lines_append_lf (ht ▸ hne) (not_endsIn_trim '\r' rfl prompt) (not_endsIn_trim '\n' rfl prompt)

/-- The sections that a node leaves in the file. -/
def sectionsIn (n : FlowNode) : List (Text × Text) :=
  bodySections (some (n.id, [])) ([] :: promptLines n.prompt)

theorem replaceCrLf_unlines {ls : List Text} (hfree : ∀ l ∈ ls, '\n' ∉ l) :
    replaceCrLf (unlines ls) = unlines (ls.map stripCr) := by
  induction ls with
  | nil => rfl
  | cons l ls ih =>
    rw [List.forall_mem_cons] at hfree
    rw [unlines_cons, replaceCrLf_line l _ hfree.1, ih hfree.2, List.map_cons, unlines_cons]

theorem replaceCrLf_append_lf {t : Text} (hcr : ¬ EndsInCr t) :
    replaceCrLf (t ++ ['\n']) = replaceCrLf t ++ ['\n'] := by
  induction t using lines_induction with
  | nil => rfl
  | last l _ hl =>
    rw [replaceCrLf_line l [] hl, replaceCrLf_of_not_mem hl, stripCr_of_not_endsInCr hcr]
    rfl
  | line l t hl ih =>
    have htail : ¬ EndsInCr t := by
      intro h
      have ht : t ≠ [] := by
        rintro rfl
        cases h
      refine hcr ?_
      rw [EndsInCr, List.getLast?_append_of_ne_nil _ (List.cons_ne_nil _ _), List.getLast?_cons,
        h]
      rfl
    rw [List.append_assoc, List.cons_append, replaceCrLf_line l _ hl, replaceCrLf_line l _ hl,
      ih htail, List.append_assoc]
    rfl

theorem unlines_promptLines (hprompt : prompt ≠ []) :
    unlines (promptLines prompt) = replaceCrLf (trim prompt) ++ ['\n'] := by
  obtain ⟨ls, hls, hfree⟩ := exists_unlines (trim prompt)
  rw [promptLines, if_neg hprompt, ← replaceCrLf_append_lf (not_endsIn_trim '\r' rfl prompt), hls,
    lines_unlines ls hfree, replaceCrLf_unlines hfree]

/-- Replacing carriage returns changes nothing or makes a text shorter. -/
theorem replaceCrLf_same_or_shorter (t : Text) :
    replaceCrLf t = t ∨ (replaceCrLf t).length < t.length := by
  induction t using replaceCrLf.induct with
  | case1 rest ih =>
    rw [replaceCrLf]
    rcases ih with hsame | hshorter
    · exact Or.inr (by rw [hsame]; exact Nat.lt_succ_self _)
    · exact Or.inr (Nat.lt_succ_of_lt (Nat.succ_lt_succ hshorter))
  | case2 c rest hno ih =>
    rw [replaceCrLf.eq_2 c rest hno]
    rcases ih with hsame | hshorter
    · exact Or.inl (by rw [hsame])
    · exact Or.inr (Nat.succ_lt_succ hshorter)
  | case3 => exact Or.inl rfl

theorem sectionsIn_nil (h : n.prompt = []) : sectionsIn n = [(n.id, [])] := by
  rw [sectionsIn, promptLines, if_pos h]
  rfl

theorem sectionsIn_unheaded (hprompt : n.prompt ≠ [])
    (h : ∀ line ∈ promptLines n.prompt, ¬ IsHeading line) :
    sectionsIn n = [(n.id, trim (replaceCrLf (trim n.prompt)))] := by
  have hall : ∀ line ∈ [] :: promptLines n.prompt, ¬ IsHeading line :=
    List.forall_mem_cons.mpr ⟨not_isHeading_nil, h⟩
  rw [sectionsIn, bodySections_plain hall, unlines_cons, unlines_promptLines hprompt]
  simp only [List.nil_append]
  rw [trim_cons_space rfl, trim_append_space rfl]

/-- A plain prompt comes back trimmed. -/
theorem sectionsIn_plain (h : PlainPrompt n.prompt) :
    sectionsIn n = [(n.id, trim n.prompt)] := by
  by_cases hprompt : n.prompt = []
  · rw [sectionsIn_nil hprompt, hprompt]
    rfl
  · have hlines : ∀ line ∈ promptLines n.prompt, ¬ IsHeading line := by
      by_cases hblank : trim n.prompt = []
      · rw [promptLines, if_neg hprompt, hblank]
        intro line hline
        obtain rfl := List.mem_singleton.mp hline
        exact not_isHeading_nil
      · rw [promptLines_of_ne rfl hblank]
        exact h.headings
    rw [sectionsIn_unheaded hprompt hlines, h.returns, trim_trim]

/-- Every section of a node whose prompt is not plain is shorter than the prompt. -/
theorem length_sectionsIn (h : ¬ PlainPrompt n.prompt) {section_ : Text × Text}
    (hmem : section_ ∈ sectionsIn n) : section_.2.length < (trim n.prompt).length := by
  have hblank : trim n.prompt ≠ [] := by
    intro hblank
    refine h ⟨?_, ?_⟩
    · rw [hblank]
      exact List.forall_mem_nil _
    · rw [hblank]
      rfl
  have hprompt : n.prompt ≠ [] := by
    intro hprompt
    rw [hprompt] at hblank
    exact hblank rfl
  have hshort := replaceCrLf_same_or_shorter (trim n.prompt)
  by_cases hheading : ∃ line ∈ promptLines n.prompt, IsHeading line
  · obtain ⟨line, hline, hmark⟩ := hheading
    have hle := length_section_heading ⟨line, List.mem_cons_of_mem [] hline, hmark⟩ hmem
    rw [unlines_cons, unlines_promptLines hprompt] at hle
    simp only [List.nil_append, List.length_cons, List.length_append, List.length_nil] at hle
    rcases hshort with hsame | hshorter
    · rw [hsame] at hle
      omega
    · omega
  · have hno : ∀ line ∈ promptLines n.prompt, ¬ IsHeading line := by
      intro line hline hmark
      exact hheading ⟨line, hline, hmark⟩
    have hshorter : (replaceCrLf (trim n.prompt)).length < (trim n.prompt).length := by
      refine hshort.resolve_left fun hsame => h ⟨?_, hsame⟩
      rw [← promptLines_of_ne rfl hblank]
      exact hno
    rw [sectionsIn_unheaded hprompt hno] at hmem
    obtain rfl := List.mem_singleton.mp hmem
    exact Nat.lt_of_le_of_lt (length_trim_le _) hshorter

end Prompts

section File
variable {n : FlowNode} {nodes : List FlowNode}

/-- The part of the file that is written for a node. -/
def nodeText (n : FlowNode) : Text :=
  "\n## ".toList ++ (n.id ++ ("\n\n".toList ++
    if n.prompt = [] then [] else trim n.prompt ++ ['\n']))

def nodeLines (n : FlowNode) : List Text :=
  [] :: (headingMark ++ n.id) :: [] :: promptLines n.prompt

theorem lines_unlines_append {ls : List Text} (hfree : ∀ l ∈ ls, '\n' ∉ l) (rest : Text) :
    lines (unlines ls ++ rest) = ls.map stripCr ++ lines rest := by
  induction ls with
  | nil => rfl
  | cons l ls ih =>
    rw [List.forall_mem_cons] at hfree
    rw [unlines_cons, List.append_assoc, List.cons_append, lines_line l _ hfree.1, ih hfree.2]
    rfl

theorem not_whiteSpace_of_isLabelChar {c : Char} (h : isLabelChar c = true) :
    isWhiteSpace c = false := by
  have hle : ∀ a b : Char, a ≤ b ↔ a.toNat ≤ b.toNat := fun _ _ => UInt32.le_iff_toNat_le
  simp only [isLabelChar, decide_eq_true_iff, hle] at h
  rw [isWhiteSpace, decide_eq_false_iff_not]
  intro hspace
  have hbounds : c.toNat ≤ 32 ∨ 133 ≤ c.toNat := by
    simp only [List.mem_cons, List.not_mem_nil, or_false] at hspace
    omega
  have hchars : 'a'.toNat = 97 ∧ 'z'.toNat = 122 ∧ '0'.toNat = 48 ∧ '9'.toNat = 57 := by decide
  rcases h with h | h | rfl | rfl
  · omega
  · omega
  · revert hbounds
    decide
  · revert hbounds
    decide

/-- An id is one line and has nothing to trim. -/
structure OneWord (id : Text) : Prop where
  solid : ∀ c ∈ id, isWhiteSpace c = false

theorem oneWord_of_wellFormed {id : Text} (h : WellFormed isLabelChar id) : OneWord id := by
  constructor
  intro c hc
  exact not_whiteSpace_of_isLabelChar (List.all_eq_true.mp h.chars c hc)

theorem OneWord.trim_eq {id : Text} (h : OneWord id) : trim id = id := by
  refine Trimmed.trim_eq ⟨fun c hc => h.solid c ?_, fun c hc => h.solid c ?_⟩
  · exact List.mem_of_mem_head? hc
  · exact List.mem_of_getLast? hc

theorem lines_nodeText (hid : OneWord n.id) (rest : Text) :
    lines (nodeText n ++ rest) = nodeLines n ++ lines rest := by
  have hheading : '\n' ∉ headingMark ++ n.id := by
    rw [List.mem_append]
    rintro (hmark | hmem)
    · revert hmark
      decide +kernel
    · cases hid.solid _ hmem
  have hcr : ¬ EndsInCr (headingMark ++ n.id) := by
    intro h
    rcases List.mem_append.mp (List.mem_of_getLast? h) with hmark | hmem
    · revert hmark
      decide +kernel
    · cases hid.solid _ hmem
  have hprompt : lines ((if n.prompt = [] then [] else trim n.prompt ++ ['\n']) ++ rest) =
      promptLines n.prompt ++ lines rest := by
    rw [promptLines]
    split
    · rfl
    · obtain ⟨ls, hls, hfree⟩ := exists_unlines (trim n.prompt)
      rw [hls, lines_unlines_append hfree, lines_unlines ls hfree]
  have hshape : nodeText n ++ rest = [] ++ '\n' :: ((headingMark ++ n.id) ++ '\n' :: ([] ++ '\n' ::
      ((if n.prompt = [] then [] else trim n.prompt ++ ['\n']) ++ rest))) := by
    rw [nodeText, headingMark]
    simp
  rw [hshape, lines_line [] _ List.not_mem_nil, lines_line _ _ hheading,
    lines_line [] _ List.not_mem_nil, hprompt, stripCr_of_not_endsInCr hcr]
  rfl

theorem lines_body (hids : ∀ n ∈ nodes, OneWord n.id) :
    lines (nodes.flatMap nodeText) = nodes.flatMap nodeLines := by
  induction nodes with
  | nil => rfl
  | cons n nodes ih =>
    rw [List.forall_mem_cons] at hids
    rw [List.flatMap_cons, List.flatMap_cons, lines_nodeText hids.1, ih hids.2]

theorem bodySections_nodes (hids : ∀ n ∈ nodes, OneWord n.id) (open_ : Option (Text × Text))
    (front : List Text) :
    bodySections open_ (front ++ nodes.flatMap nodeLines) =
      bodySections open_ front ++ nodes.flatMap sectionsIn := by
  induction nodes generalizing open_ front with
  | nil => simp
  | cons n nodes ih =>
    rw [List.forall_mem_cons] at hids
    have hshape : front ++ (n :: nodes).flatMap nodeLines = (front ++ [[]]) ++
        (headingMark ++ n.id) :: (([] :: promptLines n.prompt) ++ nodes.flatMap nodeLines) := by
      rw [List.flatMap_cons, nodeLines]
      simp
    rw [hshape, bodySections_append_heading, bodySections_append_blank, hids.1.trim_eq, ih hids.2,
      List.flatMap_cons, sectionsIn]

/-- The sections of a saved body are those of its nodes. -/
theorem splitBodySections_body (hids : ∀ n ∈ nodes, OneWord n.id) :
    splitBodySections ('\n' :: nodes.flatMap nodeText) = (nodes.flatMap sectionsIn).reverse := by
  have hlines : lines ('\n' :: nodes.flatMap nodeText) = [[]] ++ nodes.flatMap nodeLines := by
    rw [← lines_body hids]
    exact lines_line [] _ List.not_mem_nil
  rw [splitBodySections, hlines, bodySections_nodes hids, bodySections_line not_isHeading_nil]
  rfl

theorem splitAt_first {needle front rest : Text}
    (h : ∀ a b, front = a ++ b → b ≠ [] → ¬ needle <+: b ++ (needle ++ rest)) (hne : needle ≠ []) :
    splitAt needle (front ++ (needle ++ rest)) = some (front, rest) := by
  induction front with
  | nil =>
    rw [List.nil_append]
    cases needle with
    | nil => exact absurd rfl hne
    | cons c needle =>
      rw [List.cons_append, splitAt, ← List.cons_append, stripPrefix_append]
  | cons c front ih =>
    have hno := h [] (c :: front) rfl (List.cons_ne_nil c front)
    rw [List.cons_append] at hno ⊢
    have hstrip : stripPrefix needle (c :: (front ++ (needle ++ rest))) = none := if_neg hno
    have hlater := ih fun a b hab hb => h (c :: a) b (by rw [hab]; rfl) hb
    rw [splitAt, hstrip]
    simp only [hlater, Option.map_some]

/-- No line of the text begins with the delimiter. -/
def Undelimited (t : Text) : Prop := ¬ '\n' :: frontmatterDelim <:+: '\n' :: t

theorem splitAt_frontmatter {t : Text} (h : Undelimited t) (rest : Text) :
    splitAt ('\n' :: frontmatterDelim) ('\n' :: (t ++ ('\n' :: frontmatterDelim ++ rest))) =
      some ('\n' :: t, rest) := by
  suffices h : splitAt ('\n' :: frontmatterDelim) (('\n' :: t) ++ ('\n' :: frontmatterDelim ++ rest)) =
      some ('\n' :: t, rest) from h
  refine splitAt_first ?_ (List.cons_ne_nil _ _)
  rintro a b hab hb hprefix
  obtain ⟨c, tail, rfl⟩ := List.exists_cons_of_ne_nil hb
  have hfirst : c = '\n' := by
    obtain ⟨rest', hrest'⟩ := hprefix
    exact (List.cons.inj hrest').1.symm
  have hdelim : frontmatterDelim <+: tail ++ ('\n' :: frontmatterDelim ++ rest) := by
    obtain ⟨rest', hrest'⟩ := hprefix
    exact ⟨rest', (List.cons.inj hrest').2⟩
  have hinside : frontmatterDelim <+: tail := by
    rcases List.prefix_or_prefix_of_prefix hdelim (List.prefix_append tail _) with hpre | hpre
    · exact hpre
    · -- a delimiter that reaches beyond the text would hold the line feed in front of the next one
      obtain ⟨missing, hmissing⟩ := hpre
      rw [← hmissing, List.prefix_append_right_inj] at hdelim
      cases missing with
      | nil => exact ⟨[], by rw [List.append_nil, ← hmissing, List.append_nil]⟩
      | cons d missing =>
        obtain ⟨rest', hrest'⟩ := hdelim
        have hd : d = '\n' := (List.cons.inj hrest').1
        have hmem : '\n' ∈ frontmatterDelim := by
          rw [← hmissing, hd]
          exact List.mem_append_right tail List.mem_cons_self
        have hdashes : '\n' ∉ frontmatterDelim := by decide +kernel
        exact absurd hmem hdashes
  obtain ⟨behind, rfl⟩ := hinside
  refine h ⟨a, behind, ?_⟩
  rw [hab, hfirst, List.append_assoc]
  rfl

theorem exists_trimEnd (t : Text) :
    ∃ spaces : Text, t = trimEnd t ++ spaces ∧ ∀ c ∈ spaces, isWhiteSpace c = true := by
  refine ⟨(t.reverse.takeWhile isWhiteSpace).reverse, ?_, ?_⟩
  · rw [trimEnd, ← List.reverse_append, List.takeWhile_append_dropWhile, List.reverse_reverse]
  · intro c hc
    exact List.all_eq_true.mp List.all_takeWhile c (List.mem_reverse.mp hc)

theorem trim_trimEnd (t : Text) : trim (trimEnd t) = trim t := by
  obtain ⟨spaces, ht, hspaces⟩ := exists_trimEnd t
  have hsame := trim_append_spaces hspaces (trimEnd t)
  rw [← ht] at hsame
  exact hsame.symm

theorem Undelimited.trimEnd {t : Text} (h : Undelimited t) : Undelimited (trimEnd t) := by
  obtain ⟨spaces, ht, -⟩ := exists_trimEnd t
  have hprefix : Flows.trimEnd t <+: t := ⟨spaces, ht.symm⟩
  intro hinside
  exact h (hinside.trans (List.IsPrefix.isInfix ((List.prefix_cons_inj _).mpr hprefix)))

end File

section Load
variable {codec : FlowCodec} {doc : FlowMeta} {slugInPath : Text}

/-- A node as its metadata is read, without a prompt. -/
def bareNode (n : FlowNode) : FlowNode := { n with prompt := [] }

def bare (doc : FlowMeta) : FlowMeta := { doc with nodes := doc.nodes.map bareNode }

def trimmedNode (n : FlowNode) : FlowNode := { n with prompt := trim n.prompt }

def trimmedDoc (doc : FlowMeta) : FlowMeta := { doc with nodes := doc.nodes.map trimmedNode }

/-- The prompt of a node after loading. -/
def withSection (sections : List (Text × Text)) (n : FlowNode) : FlowNode :=
  match sections.lookup n.id with
  | some text => { n with prompt := text }
  | none => n

/-- The document with the sections of its own file as prompts. -/
def reloaded (doc : FlowMeta) : FlowMeta :=
  { doc with
    nodes := doc.nodes.map fun n =>
      withSection (doc.nodes.flatMap sectionsIn).reverse (bareNode n) }

/-- Loading a saved flow reads the metadata without the white space around their text. -/
theorem parse_frontmatter (hplain : Undelimited (codec.toStr doc)) :
    parseFlowMarkdown codec (stringifyFlowMarkdown codec doc) = (do
      let info ← (codec.fromStr (trim (codec.toStr doc))).mapError FlowError.yamlParse
      refuse (info.schemaVersion ≠ 1) (.schemaVersion info.schemaVersion)
      let sections := splitBodySections ('\n' :: doc.nodes.flatMap nodeText)
      .ok { info with nodes := info.nodes.map (withSection sections) }) := by
  have hshape : stringifyFlowMarkdown codec doc = frontmatterDelim ++ ('\n' ::
      (trimEnd (codec.toStr doc) ++ ('\n' :: frontmatterDelim ++
        '\n' :: doc.nodes.flatMap nodeText))) := by
    have hbody : (doc.nodes.flatMap fun n => "\n## ".toList ++ (n.id ++ ("\n\n".toList ++
        if n.prompt = [] then [] else trim n.prompt ++ ['\n']))) = doc.nodes.flatMap nodeText := rfl
    rw [stringifyFlowMarkdown, hbody, frontmatterDelim]
    simp
  have hfront : (stringifyFlowMarkdown codec doc).dropWhile (fun c => c = Char.ofNat 0xFEFF) =
      stringifyFlowMarkdown codec doc := by
    rw [hshape]
    rfl
  have hyaml : trim ('\n' :: trimEnd (codec.toStr doc)) = trim (codec.toStr doc) := by
    rw [trim_cons_space rfl, trim_trimEnd]
  rw [parseFlowMarkdown]
  simp only [hfront]
  rw [hshape, stripPrefix_append]
  simp only [splitAt_frontmatter hplain.trimEnd, hyaml]
  rfl

/-- What the loading of a saved flow comes to when its trimmed metadata are read as they were. -/
theorem parse_stringify (hids : ∀ n ∈ doc.nodes, OneWord n.id)
    (hplain : Undelimited (codec.toStr doc))
    (hread : codec.fromStr (trim (codec.toStr doc)) = .ok (bare doc)) :
    parseFlowMarkdown codec (stringifyFlowMarkdown codec doc) =
      if doc.schemaVersion ≠ 1 then .error (.schemaVersion doc.schemaVersion)
      else .ok (reloaded doc) := by
  rw [parse_frontmatter hplain, hread]
  simp only [splitBodySections_body hids]
  by_cases hversion : doc.schemaVersion = 1
  · have hnodes : (bare doc).nodes.map (withSection (doc.nodes.flatMap sectionsIn).reverse) =
        (reloaded doc).nodes := List.map_map
    rw [if_neg (not_not.mpr hversion)]
    refine bind_eq_ok_iff.mpr ⟨bare doc, rfl, then_eq_ok_iff.mpr ⟨?_, ?_⟩⟩
    · exact refuse_eq_ok_iff.mpr (not_not.mpr hversion)
    · exact congrArg (fun nodes => Except.ok { doc with nodes := nodes }) hnodes
  · rw [if_pos hversion]
    refine bind_eq_error_iff.mpr (Or.inr ⟨bare doc, rfl, bind_eq_error_iff.mpr (Or.inl ?_)⟩)
    exact refuse_eq_error_iff.mpr ⟨hversion, rfl⟩

theorem bareNode_withSection (sections : List (Text × Text)) (n : FlowNode) :
    bareNode (withSection sections n) = bareNode n := by
  rw [withSection]
  split <;> rfl

theorem bareNode_trimmedNode (n : FlowNode) : bareNode (trimmedNode n) = bareNode n := rfl

/-- Apart from the prompts, a flow is loaded as its trimmed metadata are read. -/
theorem read_of_parse (hplain : Undelimited (codec.toStr doc)) {loaded : FlowMeta}
    (h : parseFlowMarkdown codec (stringifyFlowMarkdown codec doc) = .ok loaded) :
    ∃ info, codec.fromStr (trim (codec.toStr doc)) = .ok info ∧ bare loaded = bare info := by
  rw [parse_frontmatter hplain] at h
  obtain ⟨info, hread, h⟩ := bind_eq_ok_iff.mp h
  obtain ⟨-, h⟩ := then_eq_ok_iff.mp h
  obtain rfl := Except.ok.inj h
  refine ⟨info, mapError_eq_ok_iff.mp hread, ?_⟩
  have hnodes : (info.nodes.map (withSection
      (splitBodySections ('\n' :: doc.nodes.flatMap nodeText)))).map bareNode =
        info.nodes.map bareNode := by
    rw [List.map_map]
    exact List.map_congr_left fun n _ => bareNode_withSection _ n
  exact congrArg (fun nodes => { info with nodes := nodes }) hnodes

theorem bare_trimmedDoc (doc : FlowMeta) : bare (trimmedDoc doc) = bare doc := by
  have hnodes : (doc.nodes.map trimmedNode).map bareNode = doc.nodes.map bareNode := by
    rw [List.map_map]
    exact List.map_congr_left fun n _ => bareNode_trimmedNode n
  exact congrArg (fun nodes => { doc with nodes := nodes }) hnodes

theorem withSection_bareNode {n : FlowNode} {sections : List (Text × Text)} {text : Text}
    (h : sections.lookup n.id = some text) :
    withSection sections (bareNode n) = { n with prompt := text } := by
  have hlookup : sections.lookup (bareNode n).id = some text := h
  rw [withSection, hlookup]
  rfl

theorem sections_plain {nodes : List FlowNode} (hplain : ∀ n ∈ nodes, PlainPrompt n.prompt) :
    nodes.flatMap sectionsIn = nodes.map fun n => (n.id, trim n.prompt) := by
  rw [List.flatMap_congr fun n hn => sectionsIn_plain (hplain n hn)]
  exact List.map_eq_flatMap.symm

theorem lookup_sections_plain {nodes : List FlowNode}
    (hdistinct : (nodes.map FlowNode.id).Nodup) (hplain : ∀ n ∈ nodes, PlainPrompt n.prompt)
    {n : FlowNode} (hn : n ∈ nodes) :
    (nodes.flatMap sectionsIn).reverse.lookup n.id = some (trim n.prompt) := by
  have hkeys : ((nodes.flatMap sectionsIn).reverse.map Prod.fst).Nodup := by
    rw [sections_plain hplain, List.map_reverse, List.nodup_reverse, List.map_map]
    exact hdistinct
  refine (FileTree.mem_iff_lookup hkeys).mp ?_
  rw [sections_plain hplain, List.mem_reverse]
  exact List.mem_map.mpr ⟨n, hn, rfl⟩

/-- The last node whose prompt is not plain reads a section of its own, and so a shorter text. -/
theorem lookup_sections_last {front back : List FlowNode} {n : FlowNode}
    (hdistinct : ((front ++ n :: back).map FlowNode.id).Nodup) (hbad : ¬ PlainPrompt n.prompt)
    (hback : ∀ m ∈ back, PlainPrompt m.prompt) :
    ∃ text, ((front ++ n :: back).flatMap sectionsIn).reverse.lookup n.id = some text ∧
      text.length < (trim n.prompt).length := by
  have hlater : (back.flatMap sectionsIn).reverse.lookup n.id = none := by
    rw [List.lookup_eq_none_iff, sections_plain hback]
    intro p hp
    obtain ⟨m, hm, rfl⟩ := List.mem_map.mp (List.mem_reverse.mp hp)
    rw [List.map_append, List.map_cons, List.nodup_append, List.nodup_cons] at hdistinct
    have hne : n.id ≠ m.id := by
      intro heq
      exact hdistinct.2.1.1 (heq ▸ List.mem_map_of_mem hm)
    exact bne_iff_ne.mpr hne
  obtain ⟨first, rest, hfirst⟩ := bodySections_first n.id [] ([] :: promptLines n.prompt)
  have hown : (sectionsIn n).reverse.lookup n.id ≠ none := by
    intro hnone
    rw [List.lookup_eq_none_iff] at hnone
    have hself := hnone (n.id, first) (by
      rw [List.mem_reverse, sectionsIn, hfirst]
      exact List.mem_cons_self)
    exact bne_iff_ne.mp hself rfl
  obtain ⟨text, htext⟩ := Option.ne_none_iff_exists'.mp hown
  have hmem : (n.id, text) ∈ sectionsIn n := by
    obtain ⟨before, behind, hsplit, -⟩ := List.lookup_eq_some_iff.mp htext
    rw [← List.mem_reverse, hsplit]
    exact List.mem_append_right before List.mem_cons_self
  refine ⟨text, ?_, length_sectionsIn hbad hmem⟩
  rw [List.flatMap_append, List.flatMap_cons, List.reverse_append, List.reverse_append,
    List.lookup_append, List.lookup_append, hlater, htext]
  rfl

theorem exists_last_bad {nodes : List FlowNode} (h : ¬ ∀ n ∈ nodes, PlainPrompt n.prompt) :
    ∃ front n back, nodes = front ++ n :: back ∧ ¬ PlainPrompt n.prompt ∧
      ∀ m ∈ back, PlainPrompt m.prompt := by
  induction nodes with
  | nil => exact absurd (List.forall_mem_nil _) h
  | cons n nodes ih =>
    by_cases hrest : ∀ m ∈ nodes, PlainPrompt m.prompt
    · have hbad : ¬ PlainPrompt n.prompt := fun hn => h (List.forall_mem_cons.mpr ⟨hn, hrest⟩)
      exact ⟨[], n, nodes, rfl, hbad, hrest⟩
    · obtain ⟨front, m, back, rfl, hbad⟩ := ih hrest
      exact ⟨n :: front, m, back, rfl, hbad⟩

/-- The YAML of the document means the same without the white space around it. -/
def SameTrimmed (codec : FlowCodec) (doc : FlowMeta) : Prop :=
  codec.fromStr (trim (codec.toStr doc)) = codec.fromStr (codec.toStr doc)

/-- Trimmed metadata that are read as they were leave only the prompts to be lost. -/
theorem survives_iff_of_read (hflow : ValidFlow doc slugInPath)
    (hread : codec.fromStr (trim (codec.toStr doc)) = .ok (bare doc))
    (hplain : Undelimited (codec.toStr doc)) :
    parseFlowMarkdown codec (stringifyFlowMarkdown codec doc) = .ok (trimmedDoc doc) ↔
      doc.schemaVersion = 1 ∧ ∀ n ∈ doc.nodes, PlainPrompt n.prompt := by
  have hids : ∀ n ∈ doc.nodes, OneWord n.id := fun n hn => oneWord_of_wellFormed (hflow.ids n hn)
  rw [parse_stringify hids hplain hread]
  by_cases hversion : doc.schemaVersion = 1
  · rw [if_neg (not_not.mpr hversion), and_iff_right hversion]
    constructor
    · intro hsame
      have hnodes : (reloaded doc).nodes = (trimmedDoc doc).nodes :=
        congrArg FlowMeta.nodes (Except.ok.inj hsame)
      by_contra hbad
      obtain ⟨front, n, back, heq, hnot, hback⟩ := exists_last_bad hbad
      have hdistinct := hflow.distinct
      rw [heq] at hdistinct
      obtain ⟨text, hlookup, hshorter⟩ := lookup_sections_last hdistinct hnot hback
      rw [← heq] at hlookup
      have hn : n ∈ doc.nodes := by
        rw [heq]
        exact List.mem_append_right front List.mem_cons_self
      have hnode := List.map_inj_left.mp hnodes n hn
      rw [withSection_bareNode hlookup] at hnode
      have hprompt : text = trim n.prompt := congrArg FlowNode.prompt hnode
      rw [hprompt] at hshorter
      exact Nat.lt_irrefl _ hshorter
    · intro hall
      have hnodes : (reloaded doc).nodes = (trimmedDoc doc).nodes := by
        refine List.map_congr_left ?_
        intro n hn
        exact withSection_bareNode (lookup_sections_plain hflow.distinct hall hn)
      refine congrArg Except.ok ?_
      rw [reloaded, trimmedDoc]
      exact congrArg (fun nodes => { doc with nodes := nodes }) hnodes
  · rw [if_pos hversion]
    refine iff_of_false (fun h => by cases h) ?_
    intro h
    exact hversion h.1

/-- When a valid flow survives a save. -/
theorem flow_survives_iff (codec : FlowCodec) (quote : Char → Text) (doc : FlowMeta)
    (slugInPath : Text) (hvalid : validateFlowDocument quote doc slugInPath = .ok ())
    (hskip : ∀ t info, codec.fromStr t = .ok info → bare info = info)
    (hread : codec.fromStr (codec.toStr doc) = .ok (bare doc))
    (hplain : Undelimited (codec.toStr doc)) :
    parseFlowMarkdown codec (stringifyFlowMarkdown codec doc) = .ok (trimmedDoc doc) ↔
      doc.schemaVersion = 1 ∧ SameTrimmed codec doc ∧ ∀ n ∈ doc.nodes, PlainPrompt n.prompt := by
  have hflow := validateFlowDocument_ok_iff.mp hvalid
  constructor
  · intro hsame
    obtain ⟨info, htrimmed, hbare⟩ := read_of_parse hplain hsame
    rw [bare_trimmedDoc, hskip _ _ htrimmed] at hbare
    rw [← hbare] at htrimmed
    have hrest := (survives_iff_of_read hflow htrimmed hplain).mp hsame
    exact ⟨hrest.1, htrimmed.trans hread.symm, hrest.2⟩
  · rintro ⟨hversion, htrimmed, hprompts⟩
    exact (survives_iff_of_read hflow (htrimmed.trans hread) hplain).mpr ⟨hversion, hprompts⟩

end Load

section Samples

def sampleNode (id : Text) (needs : List Text) (prompt : Text) : FlowNode :=
  ⟨id, .agentMention, some "alice".toList, [], none, needs, [], [], prompt⟩

def sampleMeta (build publish : Text) : FlowMeta :=
  ⟨1, "release".toList, "Release".toList, [], "alice".toList, "2026-01-01T00:00:00Z".toList, none,
    [sampleNode "build".toList [] build,
      sampleNode "publish".toList ["build".toList] publish]⟩

def sampleYaml : Text := unlines ["schema_version: 1".toList, "slug: release".toList,
  "name: Release".toList, "description: ''".toList, "created_by: alice".toList,
  "created_at: 2026-01-01T00:00:00Z".toList, "updated_at: null".toList, "nodes:".toList, "- id: build".toList,
  "  type: agent_mention".toList, "  owner: alice".toList, "  needs: []".toList,
  "- id: publish".toList, "  type: agent_mention".toList, "  owner: alice".toList,
  "  needs:".toList, "  - build".toList]

/-- A codec that knows one text, with the white space around it and without. -/
def sampleCodec (yaml : Text) (written trimmed : FlowMeta) : FlowCodec where
  fromStr t := if t = yaml then .ok written
    else if t = trim yaml then .ok trimmed else .error "missing field".toList
  toStr _ := yaml

theorem sampleCodec_reads (yaml : Text) (written trimmed doc : FlowMeta) :
    (sampleCodec yaml written trimmed).fromStr ((sampleCodec yaml written trimmed).toStr doc) =
      .ok written :=
  if_pos rfl

theorem sampleCodec_skips {yaml : Text} {written trimmed : FlowMeta} (hwritten : bare written = written)
    (htrimmed : bare trimmed = trimmed) (t : Text) (info : FlowMeta)
    (h : (sampleCodec yaml written trimmed).fromStr t = .ok info) : bare info = info := by
  rw [sampleCodec] at h
  dsimp only at h
  split at h
  · exact Except.ok.inj h ▸ hwritten
  · split at h
    · exact Except.ok.inj h ▸ htrimmed
    · cases h

def releaseCodec : FlowCodec := sampleCodec sampleYaml (sampleMeta [] []) (sampleMeta [] [])

def sampleQuote (c : Char) : Text := ['\'', c, '\'']

theorem sampleYaml_undelimited : Undelimited sampleYaml := by
  rw [Undelimited]
  decide +kernel

theorem flow_survives_release :
    parseFlowMarkdown releaseCodec (stringifyFlowMarkdown releaseCodec
        (sampleMeta " Build it.\n".toList [])) =
      .ok (trimmedDoc (sampleMeta " Build it.\n".toList [])) :=
  (flow_survives_iff releaseCodec sampleQuote (sampleMeta " Build it.\n".toList [])
    "release".toList (by decide +kernel) (sampleCodec_skips rfl rfl) (sampleCodec_reads _ _ _ _)
    sampleYaml_undelimited).mpr
    ⟨rfl, by rw [SameTrimmed]; decide +kernel, by
      simp only [sampleMeta, sampleNode, List.forall_mem_cons]
      exact ⟨⟨by simp only [IsHeading]; decide +kernel, by decide +kernel⟩,
        ⟨by simp only [IsHeading]; decide +kernel, by decide +kernel⟩, List.forall_mem_nil _⟩⟩

/-- A heading inside a prompt. -/
def headedMeta : FlowMeta := sampleMeta "Build it.\n\n## Checks\n\nRun the tests.".toList []

/-- An exit at the end of the metadata. -/
def exitMeta (exit : Text) : FlowMeta :=
  ⟨1, "release".toList, "Release".toList, [], "alice".toList, "2026-01-01T00:00:00Z".toList, none,
    [{ sampleNode "build".toList [] [] with exits := [exit] }]⟩

/-- An exit that ends in a line feed is written as a literal block. -/
def exitYaml : Text := unlines ["schema_version: 1".toList, "slug: release".toList,
  "name: Release".toList, "description: ''".toList, "created_by: alice".toList,
  "created_at: 2026-01-01T00:00:00Z".toList, "updated_at: null".toList, "nodes:".toList, "- id: build".toList,
  "  type: agent_mention".toList, "  owner: alice".toList, "  needs: []".toList, "  exits:".toList,
  "  - |".toList, "    done".toList]

def exitCodec : FlowCodec :=
  sampleCodec exitYaml (exitMeta "done\n".toList) (exitMeta "done".toList)

/-- A heading cuts off the rest of its prompt, and the last exit comes back without its line feed. -/
theorem not_flow_survives :
    (¬ ∀ (codec : FlowCodec) (quote : Char → Text) (doc : FlowMeta) (slugInPath : Text),
      validateFlowDocument quote doc slugInPath = .ok () →
      (∀ t info, codec.fromStr t = .ok info → bare info = info) →
      codec.fromStr (codec.toStr doc) = .ok (bare doc) → Undelimited (codec.toStr doc) →
      parseFlowMarkdown codec (stringifyFlowMarkdown codec doc) = .ok (trimmedDoc doc)) ∧
    validateFlowDocument sampleQuote (exitMeta "done\n".toList) "release".toList = .ok () ∧
    exitCodec.fromStr (exitCodec.toStr (exitMeta "done\n".toList)) =
      .ok (bare (exitMeta "done\n".toList)) ∧
    parseFlowMarkdown exitCodec (stringifyFlowMarkdown exitCodec (exitMeta "done\n".toList)) =
      .ok (exitMeta "done".toList) := by
  refine ⟨?_, by decide +kernel, sampleCodec_reads _ _ _ _, by decide +kernel⟩
  intro h
  have hsame := h releaseCodec sampleQuote headedMeta "release".toList (by decide +kernel)
    (sampleCodec_skips rfl rfl) (sampleCodec_reads _ _ _ _) sampleYaml_undelimited
  have hloaded : parseFlowMarkdown releaseCodec (stringifyFlowMarkdown releaseCodec headedMeta) =
      .ok (sampleMeta "Build it.".toList []) := by decide +kernel
  rw [hloaded] at hsame
  revert hsame
  decide +kernel

end Samples

end FlowFiles
