import GitIM.ThreadMerge

/-!
# Reading threads that anyone can write

A thread comes from other clones, and a message body from any user. Three questions
about such texts: which inputs the parser reads without a panic, whether a body can
add an entry to the thread or take one away, and which bodies are read back as they
were written.
-/

namespace ThreadReading

open TextLines TextScan Checked ThreadFormat ThreadGrammar ThreadRoundTrip ThreadMerge

section Panics
variable {Json : Type} (codec : JsonCodec Json)

/-- The computation ends in the panic of the number conversion. -/
def Panics {α : Type} (x : Except ParseFault α) : Prop := ∃ digits, x = .error (.panicParseU64 digits)

/-- ASCII digits with a value below `2 ^ 64`. -/
def FitsU64 (digits : Text) : Prop :=
  digits.all Char.isDigit = true ∧ Nat.ofDigitChars 10 digits 0 < u64Bound

/-- Both numbers of a header line can be converted. -/
def NumbersFit (caps : MsgCaptures) : Prop := FitsU64 caps.lineNumber ∧ FitsU64 caps.pointTo

/-- The handler of a header line is the reserved one or a valid name. -/
def NamesAuthor (caps : MsgCaptures) : Prop :=
  caps.handler = systemName ∨ handlerError caps.handler = none

/-- The parser gets past these lines, whatever their numbers are: a thread starts with a header
and every header names an author. -/
structure Passable (start : Bool) (ls : List Text) : Prop where
  first : ∀ l, start = true → ls.head? = some l → msgCaptures l ≠ none
  authors : ∀ l ∈ ls, ∀ caps, msgCaptures l = some caps → NamesAuthor caps

theorem panics_bind_iff {α β : Type} {x : Except ParseFault α} {f : α → Except ParseFault β} :
    Panics (x >>= f) ↔ Panics x ∨ ∃ a, x = .ok a ∧ Panics (f a) := by
  simp only [Panics, bind_eq_error_iff]
  constructor
  · rintro ⟨d, hx | ⟨a, ha, hf⟩⟩
    · exact Or.inl ⟨d, hx⟩
    · exact Or.inr ⟨a, ha, d, hf⟩
  · rintro (⟨d, hx⟩ | ⟨a, ha, d, hf⟩)
    · exact ⟨d, Or.inl hx⟩
    · exact ⟨d, Or.inr ⟨a, ha, hf⟩⟩

theorem not_panics_ok {α : Type} (a : α) : ¬ Panics (.ok a : Except ParseFault α) := by
  rintro ⟨d, hd⟩
  cases hd

theorem parseU64_cases {digits : Text} (hne : digits ≠ []) :
    (FitsU64 digits ∧ ∃ n, parseU64 digits = .ok n) ∨
      (¬ FitsU64 digits ∧ Panics (parseU64 digits)) := by
  rw [parseU64]
  by_cases hfits : FitsU64 digits
  · rw [if_pos ⟨hne, hfits.1, hfits.2⟩]
    exact Or.inl ⟨hfits, _, rfl⟩
  · rw [if_neg fun h => hfits ⟨h.2.1, h.2.2⟩]
    exact Or.inr ⟨hfits, digits, rfl⟩

theorem headerAuthor_not_panics (i : Nat) (raw : Text) : ¬ Panics (headerAuthor i raw) := by
  rintro ⟨d, hd⟩
  rw [headerAuthor] at hd
  split at hd
  · cases hd
  · split at hd <;> cases hd

theorem shaped_numbers_ne_nil {caps : MsgCaptures} (h : Shaped caps) :
    caps.lineNumber ≠ [] ∧ caps.pointTo ≠ [] := by
  have hl := h.lineLength
  have hp := h.pointLength
  constructor
  · intro hnil
    simp [hnil] at hl
  · intro hnil
    simp [hnil] at hp

theorem openEntry_panics_iff {i : Nat} {caps : MsgCaptures} (hshape : Shaped caps) :
    Panics (openEntry codec i caps) ↔ ¬ NumbersFit caps := by
  obtain ⟨hlne, hpne⟩ := shaped_numbers_ne_nil hshape
  simp only [openEntry, panics_bind_iff]
  rcases parseU64_cases hlne with ⟨hl, n, hn⟩ | ⟨hl, hpanic⟩
  · rcases parseU64_cases hpne with ⟨hp, k, hk⟩ | ⟨hp, hpanic⟩
    · have hfits : NumbersFit caps := ⟨hl, hp⟩
      simp only [hn, hk, not_panics_ok, headerAuthor_not_panics, false_or, hfits, not_true,
        iff_false, not_exists, not_and]
      intro _ _ _ _ h _
      cases caps.eventType <;> exact not_panics_ok _
    · simp only [hn, not_panics_ok, false_or, Except.ok.injEq, exists_eq_left', hpanic, true_or,
        true_iff]
      exact fun hfits => hp hfits.2
  · simp only [hpanic, true_or, true_iff]
    exact fun hfits => hl hfits.1

theorem namesAuthor_of_openEntry {i : Nat} {caps : MsgCaptures} {entry : ThreadEntry Json}
    (h : openEntry codec i caps = .ok entry) : NamesAuthor caps := by
  obtain ⟨ln, pt, h, -, -, hname, -⟩ := (openEntry_eq_ok_iff codec).mp h
  rcases h.valid with hvalid | hsystem
  · exact Or.inr (hname ▸ hvalid)
  · exact Or.inl (hname ▸ hsystem)

theorem openEntry_opens {i : Nat} {caps : MsgCaptures} (hshape : Shaped caps)
    (hfits : NumbersFit caps) (hauthor : NamesAuthor caps) :
    ∃ entry, openEntry codec i caps = .ok entry := by
  obtain ⟨hlne, hpne⟩ := shaped_numbers_ne_nil hshape
  obtain ⟨ln, hln⟩ : ∃ n, parseU64 caps.lineNumber = .ok n :=
    (parseU64_cases hlne).elim (fun h => h.2) (fun h => absurd hfits.1 h.1)
  obtain ⟨pt, hpt⟩ : ∃ n, parseU64 caps.pointTo = .ok n :=
    (parseU64_cases hpne).elim (fun h => h.2) (fun h => absurd hfits.2 h.1)
  exact ⟨_, (openEntry_eq_ok_iff codec).mpr
    ⟨ln, pt, ⟨caps.handler, hauthor.symm⟩, hln, hpt, rfl, rfl⟩⟩

/-- The parser reaches a header line whose numbers it cannot convert. -/
def Unreadable (start : Bool) (ls : List Text) : Prop :=
  ∃ before line after caps, ls = before ++ line :: after ∧ Passable start before ∧
    msgCaptures line = some caps ∧ ¬ NumbersFit caps

theorem not_unreadable_nil (start : Bool) : ¬ Unreadable start [] := by
  rintro ⟨before, line, after, caps, hsplit, -⟩
  simp at hsplit

theorem passable_nil (start : Bool) : Passable start [] := by
  constructor <;> simp

theorem passable_cons_iff {start : Bool} {l : Text} {ls : List Text} :
    Passable start (l :: ls) ↔ (start = true → msgCaptures l ≠ none) ∧
      (∀ caps, msgCaptures l = some caps → NamesAuthor caps) ∧ Passable false ls := by
  constructor
  · rintro ⟨hfirst, hauthors⟩
    refine ⟨fun hs => hfirst l hs rfl, hauthors l List.mem_cons_self, ?_, ?_⟩
    · intro _ hs
      cases hs
    · exact fun k hk => hauthors k (List.mem_cons_of_mem l hk)
  · rintro ⟨hfirst, hauthor, -, hauthors⟩
    refine ⟨?_, ?_⟩
    · intro k hs hk
      cases hk
      exact hfirst hs
    · intro k hk
      rcases List.mem_cons.mp hk with rfl | hk
      · exact hauthor
      · exact hauthors k hk

/-- The first line is the one that cannot be read, or it is passed. -/
theorem unreadable_cons_iff {start : Bool} {l : Text} {ls : List Text} :
    Unreadable start (l :: ls) ↔ (∃ caps, msgCaptures l = some caps ∧ ¬ NumbersFit caps) ∨
      (Passable start [l] ∧ Unreadable false ls) := by
  constructor
  · rintro ⟨before, line, after, caps, hsplit, hpass, hcaps, hfits⟩
    cases before with
    | nil =>
      cases hsplit
      exact Or.inl ⟨caps, hcaps, hfits⟩
    | cons k before =>
      cases hsplit
      obtain ⟨hfirst, hauthor, hrest⟩ := passable_cons_iff.mp hpass
      exact Or.inr ⟨passable_cons_iff.mpr ⟨hfirst, hauthor, passable_nil false⟩,
        before, line, after, caps, rfl, hrest, hcaps, hfits⟩
  · rintro (⟨caps, hcaps, hfits⟩ | ⟨hpass, before, line, after, caps, rfl, hrest, hcaps, hfits⟩)
    · exact ⟨[], l, ls, caps, rfl, passable_nil start, hcaps, hfits⟩
    · obtain ⟨hfirst, hauthor, -⟩ := passable_cons_iff.mp hpass
      exact ⟨l :: before, line, after, caps, rfl, passable_cons_iff.mpr ⟨hfirst, hauthor, hrest⟩,
        hcaps, hfits⟩

theorem parseLine_panics_iff {i : Nat} {line : Text} {st : ParseState Json} :
    Panics (parseLine codec i line st) ↔
      ∃ caps, msgCaptures line = some caps ∧ ¬ NumbersFit caps := by
  cases hm : msgCaptures line with
  | none =>
    simp only [parseLine, hm, reduceCtorEq, false_and, exists_false, iff_false]
    rintro ⟨d, hd⟩
    split at hd <;> cases hd
  | some caps =>
    have hshape := (msgCaptures_eq_some_iff.mp hm).2
    simp only [parseLine, hm, panics_bind_iff, openEntry_panics_iff codec hshape, not_panics_ok,
      and_false, exists_false, or_false, Option.some.injEq, exists_eq_left']

/-- A line that is read leaves the first content line behind. -/
theorem parseLine_passable {i : Nat} {line : Text} {st st' : ParseState Json}
    (h : parseLine codec i line st = .ok st') :
    Passable st.firstContentLine [line] ∧ st'.firstContentLine = false := by
  cases hm : msgCaptures line with
  | none =>
    simp only [parseLine, hm] at h
    split at h
    · cases h
    · rename_i hstart
      cases h
      refine ⟨passable_cons_iff.mpr ⟨fun hs => absurd hs hstart, ?_, passable_nil false⟩, ?_⟩
      · simp [hm]
      · simpa using hstart
  | some caps =>
    have hshape := (msgCaptures_eq_some_iff.mp hm).2
    simp only [parseLine, hm, bind_eq_ok_iff] at h
    obtain ⟨entry, hopen, hst⟩ := h
    cases hst
    have hauthor : NamesAuthor caps := namesAuthor_of_openEntry codec hopen
    refine ⟨passable_cons_iff.mpr ⟨fun _ => by simp [hm], ?_, passable_nil false⟩, rfl⟩
    intro caps' hcaps'
    rw [hm] at hcaps'
    cases hcaps'
    exact hauthor

theorem parseLine_of_passable {i : Nat} {line : Text} {st : ParseState Json}
    (hfits : ∀ caps, msgCaptures line = some caps → NumbersFit caps)
    (hpass : Passable st.firstContentLine [line]) :
    ∃ st', parseLine codec i line st = .ok st' := by
  obtain ⟨hfirst, hauthor, -⟩ := passable_cons_iff.mp hpass
  cases hm : msgCaptures line with
  | none =>
    have hstart : ¬ st.firstContentLine = true := fun hs => hfirst hs hm
    simp only [parseLine, hm, if_neg hstart]
    exact ⟨_, rfl⟩
  | some caps =>
    have hshape := (msgCaptures_eq_some_iff.mp hm).2
    obtain ⟨entry, hopen⟩ := openEntry_opens codec hshape (hfits caps hm) (hauthor caps hm)
    exact ⟨_, parseLine_header codec hm hopen st⟩

theorem parseLines_panics_iff {ls : List Text} {i : Nat} {st : ParseState Json} :
    Panics (parseLines codec i ls st) ↔ Unreadable st.firstContentLine ls := by
  induction ls generalizing i st with
  | nil => simp [parseLines, not_panics_ok, not_unreadable_nil]
  | cons l ls ih =>
    rw [parseLines, panics_bind_iff, parseLine_panics_iff, unreadable_cons_iff]
    by_cases hbad : ∃ caps, msgCaptures l = some caps ∧ ¬ NumbersFit caps
    · simp only [hbad, true_or]
    · have hfits : ∀ caps, msgCaptures l = some caps → NumbersFit caps :=
        fun caps hcaps => not_not.mp fun hnot => hbad ⟨caps, hcaps, hnot⟩
      simp only [hbad, false_or]
      constructor
      · rintro ⟨st', hline, hpanics⟩
        obtain ⟨hpass, hstart⟩ := parseLine_passable codec hline
        exact ⟨hpass, hstart ▸ ih.mp hpanics⟩
      · rintro ⟨hpass, hrest⟩
        obtain ⟨st', hline⟩ := parseLine_of_passable codec (i := i) hfits hpass
        have hstart := (parseLine_passable codec hline).2
        exact ⟨st', hline, ih.mpr (hstart.symm ▸ hrest)⟩

theorem panics_parseThread_iff (input : Text) :
    Panics (parseThread codec input) ↔ Unreadable true (normalizedLines input) := by
  rw [parseThread]
  split
  · rename_i hnil
    have hinput : input = [] := (replaceCrLf_eq_nil_iff input).mp hnil
    simp [hinput, not_panics_ok, not_unreadable_nil]
  · simp only [panics_bind_iff, parseLines_panics_iff, not_panics_ok, and_false, exists_false,
      or_false]

/-- `parse_thread` ends with a thread or an error value exactly if every header line it reaches
has two numbers in ASCII digits that fit into 64 bits. -/
theorem parseThread_total_iff (input : Text) :
    (∀ digits, parseThread codec input ≠ .error (.panicParseU64 digits)) ↔
      ∀ before line after caps, normalizedLines input = before ++ line :: after →
        Passable true before → msgCaptures line = some caps → NumbersFit caps := by
  have hpanics := panics_parseThread_iff codec input
  constructor
  · intro htotal before line after caps hsplit hpass hcaps
    by_contra hfits
    obtain ⟨digits, hdigits⟩ := hpanics.mpr ⟨before, line, after, caps, hsplit, hpass, hcaps, hfits⟩
    exact htotal digits hdigits
  · intro hall digits hdigits
    obtain ⟨before, line, after, caps, hsplit, hpass, hcaps, hfits⟩ := hpanics.mp ⟨digits, hdigits⟩
    exact hfits (hall before line after caps hsplit hpass hcaps)

/-- A line number of twenty digits, the first one that does not fit. -/
def oversizedThread : Text :=
  "[L18446744073709551616][P000000][@alice][20260101T000000Z] hello\n".toList

theorem parseThread_panics :
    parseThread smallCodec oversizedThread =
      .error (.panicParseU64 "18446744073709551616".toList) := by
  decide +kernel

/-- Arabic digits are digits of the pattern and no number of the conversion. -/
example : parseThread smallCodec
    ("[L\u0660\u0660\u0660\u0660\u0660\u0661][P000000][@alice][20260101T000000Z] hello").toList =
      .error (.panicParseU64 "\u0660\u0660\u0660\u0660\u0660\u0661".toList) := by
  decide +kernel

end Panics

section Bodies
variable {Json : Type} (codec : JsonCodec Json)

theorem lines_no_lf {t l : Text} (h : l ∈ lines t) : '\n' ∉ l := by
  induction t using lines_induction with
  | nil => simp at h
  | last u hne hu =>
    rw [lines_last u hne hu, List.mem_singleton] at h
    exact h ▸ hu
  | line u t hu ih =>
    rw [lines_line u t hu] at h
    rcases List.mem_cons.mp h with rfl | h
    · exact not_mem_stripCr hu
    · exact ih h

theorem normalizedLines_unlines_map (ls : List Text) (hlf : ∀ l ∈ ls, '\n' ∉ l) :
    normalizedLines (unlines ls) = ls.map fun l => stripCr (stripCr l) := by
  induction ls with
  | nil => rfl
  | cons l ls ih =>
    rw [unlines_cons, normalizedLines_line l _ (hlf l List.mem_cons_self), List.map_cons,
      ih (fun m hm => hlf m (List.mem_cons_of_mem l hm))]

/-- The message prefix is decided by the front of a line. -/
theorem hasMsgPrefix_of_front {a b : Text} (hab : a <+: b) (h : hasMsgPrefix a = true) :
    hasMsgPrefix b = true := by
  obtain ⟨more, rfl⟩ := hab
  rw [hasMsgPrefix, Option.isSome_iff_exists] at h ⊢
  simp only [Option.bind_eq_bind, Option.bind_eq_some_iff, Prod.exists, scan_eq_some_iff,
    stripPrefix_eq_some_iff] at h ⊢
  obtain ⟨rest, t, rfl, digits, u, ⟨rfl, hdigits, hlength, hstops⟩, rfl⟩ := h
  refine ⟨rest ++ more, digits ++ ([']'] ++ (rest ++ more)), by simp, digits,
    [']'] ++ (rest ++ more), ⟨rfl, hdigits, hlength, ?_⟩, rfl⟩
  simpa using hstops

/-- However many carriage returns a reader takes off, an escaped line opens no message. -/
theorem msgCaptures_escaped_prefix {line front : Text} (h : front <+: escapeContinuation line) :
    msgCaptures front = none := by
  cases hm : msgCaptures front with
  | none => rfl
  | some caps =>
    have hfront := hasMsgPrefix_of_msgCaptures hm
    rw [escapeContinuation] at h
    split at h
    · obtain ⟨rest, rfl⟩ := bracket_of_hasMsgPrefix hfront
      obtain ⟨more, hmore⟩ := h
      simp at hmore
    · rename_i hno
      exact absurd (hasMsgPrefix_of_front h hfront) hno

/-- A header line that ends behind its blank is no message. -/
theorem msgCaptures_bare (ln pt : Nat) (author : Handler) {ts : Text} (hts : TimestampShape ts) :
    msgCaptures (formatPrefix ln pt author ts ++ [' ']) = none := by
  cases hm : msgCaptures (formatPrefix ln pt author ts ++ [' ']) with
  | none => rfl
  | some caps =>
    obtain ⟨hline, hshape⟩ := msgCaptures_eq_some_iff.mp hm
    -- with one more character behind it, the same line would be read in two ways
    have hlonger : msgCaptures (formatPrefix ln pt author ts ++ (eventText none ++ ' ' :: ['x'])) =
        some { caps with body := caps.body ++ ['x'] } := by
      refine msgCaptures_eq_some_iff.mpr ⟨?_, { hshape with body := by simp, bodyLine := ?_ }⟩
      · have happend : formatPrefix ln pt author ts ++ [' '] ++ ['x'] = render caps ++ ['x'] := by
          rw [hline]
        simpa [eventText, render] using happend
      · simp [hshape.bodyLine]
    rw [msgCaptures_formatted ln pt author hts (by simp) (by simp) (by simp)] at hlonger
    have hbody := congrArg MsgCaptures.body (Option.some.inj hlonger)
    have hnil : caps.body = [] := by simpa [formattedCaptures] using hbody
    exact absurd hnil hshape.body

theorem formatMessage_eq (ln pt : Nat) (author : Handler) (ts body : Text) :
    formatMessage ln pt author ts body =
      unlines ((formatPrefix ln pt author ts ++ ' ' :: (lines body).headD []) ::
        (lines body).tail.map escapeContinuation) := by
  rw [formatMessage]
  cases lines body with
  | nil => simp
  | cons first rest => simp

theorem headD_no_lf (body : Text) : '\n' ∉ (lines body).headD [] := by
  cases h : lines body with
  | nil => simp
  | cons first rest => exact lines_no_lf (t := body) (by simp [h])

/-- The lines a reader sees in a formatted message: the header, and continuations that open
no message. -/
theorem normalizedLines_formatMessage (ln pt : Nat) (author : Handler) {ts : Text} (body : Text)
    (hts : TimestampShape ts) :
    ∃ conts, normalizedLines (formatMessage ln pt author ts body) =
        (formatPrefix ln pt author ts ++ ' ' :: stripCr (stripCr ((lines body).headD []))) :: conts ∧
      ∀ c ∈ conts, msgCaptures c = none := by
  have hblank : ' ' ≠ '\r' := by decide
  refine ⟨((lines body).tail.map escapeContinuation).map fun l => stripCr (stripCr l), ?_, ?_⟩
  · rw [formatMessage_eq, normalizedLines_unlines_map, List.map_cons]
    · rw [stripCr_append_cons, stripCr_cons hblank, stripCr_append_cons, stripCr_cons hblank]
    · intro l hl
      rcases List.mem_cons.mp hl with rfl | hl
      · exact formatPrefix_no_lf ln pt author hts _ (headD_no_lf body)
      · obtain ⟨k, hk, rfl⟩ := List.mem_map.mp hl
        exact escapeContinuation_no_lf (lines_no_lf (List.mem_of_mem_tail hk))
  · intro c hc
    obtain ⟨k, hk, rfl⟩ := List.mem_map.mp hc
    obtain ⟨l, -, rfl⟩ := List.mem_map.mp hk
    exact msgCaptures_escaped_prefix ((stripCr_isPrefix _).trans (stripCr_isPrefix _))

/-- A header whose other lines open no message is one block. -/
theorem derives_single {header : Text} {caps : MsgCaptures} {conts : List Text}
    {es : List (ThreadEntry Json)} (h : Derives codec (header :: conts) es)
    (hheader : msgCaptures header = some caps) (hplain : ∀ c ∈ conts, msgCaptures c = none) :
    ∃ entry, openEntry codec 0 caps = .ok entry ∧
      es = [entry.withBody codec (blockBody caps conts)] := by
  generalize hall : header :: conts = all at h
  cases h with
  | nil => cases hall
  | @block line caps' entry conts' rest entries header' opened plain tail =>
    obtain ⟨rfl, hconts⟩ := List.cons.inj hall
    rw [hheader] at header'
    cases header'
    cases tail with
    | nil =>
      rw [List.append_nil] at hconts
      exact ⟨entry, opened, by rw [hconts]⟩
    | @block line' caps' entry' conts'' rest' entries' hdr _ _ _ =>
      have hmem : line' ∈ conts := by simp [hconts]
      rw [hplain line' hmem] at hdr
      cases hdr

/-- Whatever its body, a formatted message that is read at all is read as that one message. -/
theorem derives_formatMessage_any {ln pt : Nat} {author : Handler} {ts body : Text}
    {es : List (ThreadEntry Json)} (hln : ln < u64Bound) (hpt : pt < u64Bound)
    (hts : TimestampShape ts)
    (h : Derives codec (normalizedLines (formatMessage ln pt author ts body)) es) :
    ∃ text, es = [.message ⟨ln, pt, author, ts, text⟩] := by
  obtain ⟨conts, hlines, hplain⟩ := normalizedLines_formatMessage ln pt author body hts
  rw [hlines] at h
  by_cases hfirst : stripCr (stripCr ((lines body).headD [])) = []
  · rw [hfirst] at h
    generalize hall : (formatPrefix ln pt author ts ++ [' ']) :: conts = all at h
    cases h with
    | nil => cases hall
    | block header _ _ _ =>
      obtain ⟨rfl, -⟩ := List.cons.inj hall
      rw [msgCaptures_bare ln pt author hts] at header
      cases header
  · have hlf := not_mem_stripCr (not_mem_stripCr (headD_no_lf body))
    have hheader := msgCaptures_formatted ln pt author (e := none) hts (by simp) hfirst hlf
    obtain ⟨entry, hopen, rfl⟩ := derives_single codec h hheader hplain
    obtain ⟨ln', pt', h', hln', hpt', hname, rfl⟩ := (openEntry_eq_ok_iff codec).mp hopen
    have hl : ln' = ln := by
      simpa [formattedCaptures, parseU64_padNumber _ _ hln] using hln'.symm
    have hp : pt' = pt := by
      simpa [formattedCaptures, parseU64_padNumber _ _ hpt] using hpt'.symm
    have ha : h' = author := Handler.ext hname
    subst hl hp ha
    exact ⟨_, rfl⟩

/-- No body forges an entry or swallows one: behind a thread that ends in a line feed, a formatted
message adds exactly itself. -/
theorem formatMessage_appends_one (thread : Text) (file own : ThreadFile Json) (ln pt : Nat)
    (author : Handler) (ts body : Text) (hthread : parseThread codec thread = .ok file)
    (hend : thread = [] ∨ EndsInLf thread) (hln : ln < u64Bound) (hpt : pt < u64Bound)
    (hts : TimestampShape ts)
    (hown : parseThread codec (formatMessage ln pt author ts body) = .ok own) :
    ∃ text, parseThread codec (thread ++ formatMessage ln pt author ts body) =
      .ok ⟨file.entries ++ [.message ⟨ln, pt, author, ts, text⟩]⟩ := by
  obtain ⟨text, hentries⟩ :=
    derives_formatMessage_any codec hln hpt hts ((parseThread_eq_ok_iff codec).mp hown)
  refine ⟨text, ?_⟩
  rw [← hentries]
  exact parseThread_append codec hthread hown hend

def forgingBody : Text :=
  "hi\r\n[L000003][P000000][@alice][20260101T000000Z][E:leave] \x7b\x7d\r\r\nbye".toList

theorem formatMessage_appends_one_forging :
    parseThread smallCodec baseText = .ok ⟨[sampleMessage 1 0 "hello".toList]⟩ ∧
      ∃ text, parseThread smallCodec (baseText ++ formatMessage 2 1 alice newYear forgingBody) =
        .ok ⟨[sampleMessage 1 0 "hello".toList] ++ [sampleMessage 2 1 text]⟩ := by
  have hbase : parseThread smallCodec baseText =
      .ok ⟨[sampleMessage 1 0 "hello".toList]⟩ := by decide +kernel
  have hown : parseThread smallCodec (formatMessage 2 1 alice newYear forgingBody) =
      .ok ⟨[sampleMessage 2 1
        "hi\n[L000003][P000000][@alice][20260101T000000Z][E:leave] \x7b\x7d\nbye".toList]⟩ := by
    decide +kernel
  exact ⟨hbase, formatMessage_appends_one smallCodec _ _ _ 2 1 alice newYear forgingBody hbase
    (Or.inr (by decide)) (by decide) (by decide) newYear_shape hown⟩

theorem mem_of_mem_lines {t l : Text} {c : Char} (hl : l ∈ lines t) (hc : c ∈ l) : c ∈ t := by
  induction t using lines_induction with
  | nil => simp at hl
  | last u hne hu =>
    rw [lines_last u hne hu, List.mem_singleton] at hl
    exact hl ▸ hc
  | line u t hu ih =>
    rw [lines_line u t hu] at hl
    rcases List.mem_cons.mp hl with rfl | hl
    · exact List.mem_append_left _ (mem_of_mem_stripCr hc)
    · exact List.mem_append_right _ (List.mem_cons_of_mem _ (ih hl))

/-- A text without carriage returns that does not end in a line feed is the join of its lines,
and the last of them is not empty. -/
theorem joinLines_lines {t : Text} (hcr : '\r' ∉ t) (hend : ¬ EndsInLf t) :
    joinLines (lines t) = t ∧ (lines t).getLast? ≠ some [] := by
  induction t using lines_induction with
  | nil => exact ⟨rfl, by simp⟩
  | last l hne hl =>
    rw [lines_last l hne hl, joinLines_singleton]
    exact ⟨rfl, by simpa using hne⟩
  | line l t hl ih =>
    have hnocr : ¬ EndsInCr l := fun h => hcr (by simp [List.mem_of_getLast? h])
    have hne : t ≠ [] := by
      rintro rfl
      exact hend (by simp [EndsInLf])
    have hendt : ¬ EndsInLf t := by
      obtain ⟨c, u, rfl⟩ := List.exists_cons_of_ne_nil hne
      simpa [EndsInLf, List.getLast?_append] using hend
    obtain ⟨hjoin, hlast⟩ := ih (fun h => hcr (by simp [h])) hendt
    rw [lines_line l t hl, stripCr_of_not_endsInCr hnocr]
    cases hlines : lines t with
    | nil =>
      rw [hlines] at hjoin
      exact absurd hjoin.symm hne
    | cons m ms =>
      rw [hlines] at hjoin hlast
      rw [joinLines_cons_cons, hjoin]
      exact ⟨rfl, by simpa using hlast⟩

theorem writableLines_of_body {body first : Text} {rest : List Text}
    (hlines : lines body = first :: rest) (hfirst : first ≠ []) (hcr : '\r' ∉ body)
    (hend : ¬ EndsInLf body) : WritableLines first rest := by
  refine ⟨hfirst, fun l hl => lines_no_lf (hlines ▸ hl), fun l hl hl' => hcr ?_, ?_⟩
  · exact mem_of_mem_lines (hlines ▸ hl) (List.mem_of_getLast? hl')
  · rw [← hlines]
    exact (joinLines_lines hcr hend).2

theorem unescape_escape_eq_iff (line : Text) :
    unescapeContinuation (escapeContinuation line) = line ↔ ¬ " [L".toList <+: line := by
  constructor
  · rintro h ⟨rest, rfl⟩
    have hno : hasMsgPrefix (" [L".toList ++ rest) ≠ true := by
      intro hp
      obtain ⟨more, hmore⟩ := bracket_of_hasMsgPrefix hp
      simp at hmore
    rw [escapeContinuation, if_neg hno, unescapeContinuation, if_pos ⟨rest, rfl⟩] at h
    have hlength := congrArg List.length h
    simp at hlength
  · exact unescape_escape

/-- The first line feed splits a text in one way. -/
theorem append_lf_inj {a b x y : Text} (ha : '\n' ∉ a) (hb : '\n' ∉ b)
    (h : a ++ '\n' :: x = b ++ '\n' :: y) : a = b ∧ x = y := by
  have hall : ∀ t : Text, '\n' ∉ t → t.all (· != '\n') = true := by
    intro t ht
    rw [List.all_eq_true]
    intro c hc
    have hne : c ≠ '\n' := fun heq => ht (heq ▸ hc)
    simpa using hne
  have hfront : a = b := by
    rw [← takeWhile_of_stops (b := '\n' :: x) (hall a ha) (by simp), h,
      takeWhile_of_stops (hall b hb) (by simp)]
  subst hfront
  exact ⟨rfl, (List.cons.inj (List.append_cancel_left h)).2⟩

theorem joinLines_injective {as bs : List Text} (hlength : as.length = bs.length)
    (ha : ∀ m ∈ as, '\n' ∉ m) (hb : ∀ m ∈ bs, '\n' ∉ m) (h : joinLines as = joinLines bs) :
    as = bs := by
  induction as generalizing bs with
  | nil => exact (List.length_eq_zero_iff.mp hlength.symm).symm
  | cons a as ih =>
    cases bs with
    | nil => cases hlength
    | cons b bs =>
      have hrest := ih (Nat.succ.inj hlength) (fun m hm => ha m (List.mem_cons_of_mem a hm))
        (fun m hm => hb m (List.mem_cons_of_mem b hm))
      cases as with
      | nil =>
        cases bs with
        | nil => simpa using h
        | cons b' bs => cases hlength
      | cons a' as =>
        cases bs with
        | nil => cases hlength
        | cons b' bs =>
          rw [joinLines_cons_cons, joinLines_cons_cons] at h
          obtain ⟨rfl, hjoin⟩ := append_lf_inj (ha a List.mem_cons_self) (hb b List.mem_cons_self) h
          rw [hrest hjoin]

/-- The lines of a body come back exactly if none behind the first looks escaped. -/
theorem joinLines_unescaped_iff {l : Text} {ls : List Text} (hlf : ∀ m ∈ l :: ls, '\n' ∉ m) :
    joinLines (l :: (ls.map escapeContinuation).map unescapeContinuation) = joinLines (l :: ls) ↔
      ∀ m ∈ ls, ¬ " [L".toList <+: m := by
  rw [List.map_map]
  constructor
  · intro h m hm
    have hback : l :: ls.map (unescapeContinuation ∘ escapeContinuation) = l :: ls := by
      refine joinLines_injective (by simp) ?_ hlf h
      intro k hk
      rcases List.mem_cons.mp hk with rfl | hk
      · exact hlf k List.mem_cons_self
      · obtain ⟨j, hj, rfl⟩ := List.mem_map.mp hk
        exact unescapeContinuation_no_lf
          (escapeContinuation_no_lf (hlf j (List.mem_cons_of_mem l hj)))
    have hsame := List.map_inj_left.mp ((List.cons.inj hback).2.trans (List.map_id ls).symm) m hm
    exact (unescape_escape_eq_iff m).mp hsame
  · intro h
    have hback : ls.map (unescapeContinuation ∘ escapeContinuation) = ls.map id :=
      List.map_congr_left fun m hm => unescape_escape (h m hm)
    rw [hback, List.map_id]

/-- Formatting and parsing give a message back exactly if no line behind the first starts with a
blank and `[L`. -/
theorem formatMessage_round_trip_iff (ln pt : Nat) (author : Handler) (ts body first : Text)
    (rest : List Text) (hln : ln < u64Bound) (hpt : pt < u64Bound) (hts : TimestampShape ts)
    (hlines : lines body = first :: rest) (hfirst : first ≠ []) (hcr : '\r' ∉ body)
    (hend : ¬ EndsInLf body) :
    parseThread codec (formatMessage ln pt author ts body) =
        .ok ⟨[.message ⟨ln, pt, author, ts, body⟩]⟩ ↔
      ∀ line ∈ rest, ¬ " [L".toList <+: line := by
  have hwritable := writableLines_of_body hlines hfirst hcr hend
  have hjoin : joinLines (first :: rest) = body := hlines ▸ (joinLines_lines hcr hend).1
  have hparsed : parseThread codec (formatMessage ln pt author ts body) =
      .ok ⟨[.message ⟨ln, pt, author, ts, joinLines
        (first :: (rest.map escapeContinuation).map unescapeContinuation)⟩]⟩ := by
    have hder := derives_writable codec author hln hpt hts hwritable
    rw [hjoin] at hder
    exact (parseThread_eq_ok_iff codec).mpr hder
  rw [hparsed, ← joinLines_unescaped_iff hwritable.noLf, hjoin]
  simp

theorem formatMessage_round_trip_escaped :
    parseThread smallCodec (formatMessage 7 3 alice newYear "see\n[L000001] above".toList) =
      .ok ⟨[sampleMessage 7 3 "see\n[L000001] above".toList]⟩ := by
  refine (formatMessage_round_trip_iff smallCodec 7 3 alice newYear _ "see".toList
    ["[L000001] above".toList] (by decide) (by decide) newYear_shape (by decide) (by decide)
    (by decide) (by decide)).mpr ?_
  decide

/-- A body whose second line starts with a blank and `[L` loses the blank. -/
theorem formatMessage_loses_blank :
    lines "see\n [L1] above".toList = ["see".toList, " [L1] above".toList] ∧
      '\r' ∉ "see\n [L1] above".toList ∧ ¬ EndsInLf "see\n [L1] above".toList ∧
      parseThread smallCodec (formatMessage 7 3 alice newYear "see\n [L1] above".toList) ≠
        .ok ⟨[sampleMessage 7 3 "see\n [L1] above".toList]⟩ := by
  decide +kernel

end Bodies

end ThreadReading
