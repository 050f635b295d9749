import GitIM.ThreadMerge

/-!
# Checks of the writer and of the reader

`validate_append` checks new lines against a thread before they are written,
`check_thread_integrity` checks a thread that is read. The writer sees the two texts
apart and the reader their concatenation. Both checks are folds over entries with the
lines seen so far and the line number that comes next.
-/

namespace ThreadValidation

open TextLines TextScan Checked ThreadFormat ThreadGrammar ThreadRoundTrip ThreadMerge

section Mentions

/-- A mention at the front of a text: `<@`, a run of handler characters that neither starts nor
ends in a hyphen, and `>`. No group can give a character back, since the run ends in front
of `>`. -/
def mentionAt (t : Text) : Option Text := do
  let t ← stripPrefix "<@".toList t
  let (name, t) ← scan isHandlerChar 1 t
  let _ ← stripPrefix ['>'] t
  if name.head? ≠ some '-' ∧ name.getLast? ≠ some '-' then some name else none

/-- The matches of `MENTION_RE`. A match holds no second `<`, so the next one can be looked for
right behind the first character. -/
def mentionMatches : Text → List Text
  | [] => []
  | c :: rest => (mentionAt (c :: rest)).toList ++ mentionMatches rest

def extractMentions (body : Text) : List Text :=
  ((mentionMatches body).filter fun name => handlerError name = none).eraseDups

end Mentions

variable {Json : Type}

inductive ComplianceError where
  | parse (source : ParseFault)
  | lineNumberGap (expected got : Nat)
  | unknownAuthor (author : Text)
  | invalidPointTo (line : Nat)
  | emptyBody (line : Nat)
  | unknownMention (handler : Text) (line : Nat)
  | eventNonZeroPointTo (line : Nat)
  | eventInvalidJson (line : Nat)
  | notMember (author : Text)
  deriving DecidableEq

inductive IntegrityIssue where
  | lineNumberGap (expected got : Nat)
  | unknownAuthor (author : Text)
  | invalidPointTo (line : Nat)
  | emptyBody (line : Nat)
  | unknownMention (handler : Text) (line : Nat)
  | parseError (text : Text)
  deriving DecidableEq

def lastLineNumber (entries : List (ThreadEntry Json)) : Nat :=
  (entries.getLast?.map ThreadEntry.lineNumber).getD 0

/-- The successor of a line number in 64 bits. -/
def nextLine (n : Nat) : Nat := (n + 1) % u64Bound

/-- What both checks carry from entry to entry. -/
structure Seen where
  knownLines : List Nat
  expectedNext : Nat

def Seen.after (seen : Seen) (entry : ThreadEntry Json) : Seen :=
  ⟨seen.knownLines ++ [entry.lineNumber], nextLine entry.lineNumber⟩

section Writer
variable (codec : JsonCodec Json) (isObject : Json → Bool) (users senders : List Text)

def checkMessage (seen : Seen) (msg : Message) : Except ComplianceError Unit := do
  refuse (msg.pointTo ≠ 0 ∧ msg.pointTo ∉ seen.knownLines) (.invalidPointTo msg.pointTo)
  checkSome ((extractMentions msg.body).find? (· ∉ users))
    fun mention => .error (.unknownMention mention msg.lineNumber)
  refuse (trim msg.body = []) (.emptyBody msg.lineNumber)

def checkEvent (ev : ChannelEvent Json) : Except ComplianceError Unit := do
  refuse (ev.pointTo ≠ 0) (.eventNonZeroPointTo ev.lineNumber)
  refuse (isObject ev.info = false) (.eventInvalidJson ev.lineNumber)

def checkEntry (seen : Seen) (entry : ThreadEntry Json) : Except ComplianceError Unit := do
  refuse (entry.lineNumber ≠ seen.expectedNext)
    (.lineNumberGap seen.expectedNext entry.lineNumber)
  refuse (entry.author.name ∉ users) (.unknownAuthor entry.author.name)
  refuse (senders ≠ [] ∧ entry.author.name ∉ senders) (.notMember entry.author.name)
  match entry with
  | .message msg => checkMessage users seen msg
  | .event ev => checkEvent isObject ev

def checkEntries (seen : Seen) : List (ThreadEntry Json) → Except ComplianceError Unit
  | [] => .ok ()
  | entry :: rest => do
    checkEntry isObject users senders seen entry
    checkEntries (seen.after entry) rest

def validateAppend (existing newLines : Text) : Except ComplianceError Unit := do
  let existingFile ← (parseThread codec existing).mapError .parse
  let newFile ← (parseThread codec newLines).mapError .parse
  checkEntries isObject users senders
    ⟨existingFile.entries.map ThreadEntry.lineNumber, nextLine (lastLineNumber existingFile.entries)⟩
    newFile.entries

end Writer

section Reader
variable (codec : JsonCodec Json) (isObject : Json → Bool) (users : List Text)

/-- One issue if the condition holds. -/
def report (c : Prop) [Decidable c] (issue : IntegrityIssue) : List IntegrityIssue :=
  if c then [issue] else []

def entryIssues (seen : Seen) (entry : ThreadEntry Json) : List IntegrityIssue :=
  report (entry.lineNumber ≠ seen.expectedNext)
    (.lineNumberGap seen.expectedNext entry.lineNumber) ++
  report (entry.author.name ∉ users) (.unknownAuthor entry.author.name) ++
  match entry with
  | .message msg =>
    report (msg.pointTo ≠ 0 ∧ msg.pointTo ∉ seen.knownLines) (.invalidPointTo msg.pointTo) ++
    report (trim msg.body = []) (.emptyBody msg.lineNumber) ++
    ((extractMentions msg.body).filter (· ∉ users)).map
      fun mention => .unknownMention mention msg.lineNumber
  | .event ev =>
    report (ev.pointTo ≠ 0) (.lineNumberGap 0 ev.pointTo) ++
    report (isObject ev.info = false) (.emptyBody ev.lineNumber)

def issuesFrom (seen : Seen) : List (ThreadEntry Json) → List IntegrityIssue
  | [] => []
  | entry :: rest => entryIssues isObject users seen entry ++ issuesFrom (seen.after entry) rest

/-- The issues of a thread, or the digits that the parser panics on. -/
def checkThreadIntegrity (input : Text) : Except Text (List IntegrityIssue) :=
  match parseThread codec input with
  | .ok file => .ok (issuesFrom isObject users ⟨[], 1⟩ file.entries)
  | .error (.error e) => .ok [.parseError (parseErrorText e)]
  | .error (.panicParseU64 digits) => .error digits

end Reader

section Headers
variable {codec : JsonCodec Json}

def isHeader (line : Text) : Bool := (msgCaptures line).isSome

theorem not_isHeader_iff {line : Text} : ¬ isHeader line = true ↔ msgCaptures line = none := by
  rw [isHeader, Bool.not_eq_true, Option.isSome_eq_false_iff, Option.isNone_iff_eq_none]

/-- A thread has one entry for each header line. -/
theorem derives_length {ls : List Text} {es : List (ThreadEntry Json)}
    (h : Derives codec ls es) : es.length = ls.countP isHeader := by
  induction h with
  | nil => rfl
  | @block line caps entry conts rest entries header opened plain _ ih =>
    have hconts : conts.countP isHeader = 0 := by
      rw [List.countP_eq_zero]
      exact fun c hc => not_isHeader_iff.mpr (plain c hc)
    have hline : isHeader line = true := by rw [isHeader, header]; rfl
    rw [List.length_cons, ih, List.countP_cons_of_pos hline, List.countP_append, hconts,
      Nat.zero_add]

/-- A derivation can be cut in front of any header line. -/
theorem derives_cut {before rest : List Text} {line : Text} {es : List (ThreadEntry Json)}
    (h : Derives codec (before ++ line :: rest) es) (hline : isHeader line = true) :
    ∃ es₁ es₂, es = es₁ ++ es₂ ∧ Derives codec before es₁ ∧ Derives codec (line :: rest) es₂ := by
  generalize hall : before ++ line :: rest = all at h
  induction h generalizing before with
  | nil => simp at hall
  | @block first caps entry conts more entries header opened plain tail ih =>
    cases before with
    | nil =>
      rw [List.nil_append] at hall
      refine ⟨[], _, rfl, .nil, ?_⟩
      rw [hall]
      exact .block header opened plain tail
    | cons l before =>
      rw [List.cons_append] at hall
      obtain ⟨rfl, hsplit⟩ := List.cons.inj hall
      -- the header stands behind the continuation lines of the first block
      rcases List.append_eq_append_iff.mp hsplit with ⟨k, hconts, hline'⟩ | ⟨k, hbefore, hmore⟩
      · cases k with
        | nil =>
          rw [List.append_nil] at hconts
          rw [List.nil_append] at hline'
          refine ⟨[_], entries, rfl, ?_, hline' ▸ tail⟩
          rw [← List.append_nil before, ← hconts]
          exact .block header opened plain .nil
        | cons c k =>
          obtain ⟨rfl, -⟩ := List.cons.inj hline'
          have hmem : line ∈ conts := by simp [hconts]
          exact absurd hline (not_isHeader_iff.mpr (plain line hmem))
      · obtain ⟨es₁, es₂, rfl, h₁, h₂⟩ := ih hmore.symm
        rw [hbefore]
        exact ⟨_ :: es₁, es₂, rfl, .block header opened plain h₁, h₂⟩

/-- The first block of a thread: its header and the lines up to the next one. -/
theorem derives_cons {line : Text} {rest : List Text} {es : List (ThreadEntry Json)}
    (h : Derives codec (line :: rest) es) :
    ∃ caps entry more, msgCaptures line = some caps ∧ openEntry codec 0 caps = .ok entry ∧
      es = entry.withBody codec (blockBody caps (rest.takeWhile fun l => !isHeader l)) :: more := by
  generalize hall : line :: rest = all at h
  cases h with
  | nil => cases hall
  | @block first caps entry conts later entries header opened plain tail =>
    obtain ⟨rfl, rfl⟩ := List.cons.inj hall
    refine ⟨caps, entry, entries, header, opened, ?_⟩
    have hconts : ∀ c ∈ conts, (!isHeader c) = true := by
      intro c hc
      simpa using not_isHeader_iff.mpr (plain c hc)
    have hlater : later.takeWhile (fun l => !isHeader l) = [] := by
      cases tail with
      | nil => rfl
      | block header' _ _ _ => simp [isHeader, header']
    rw [List.takeWhile_append_of_pos hconts, hlater, List.append_nil]

/-- A rendered header line without its body. -/
def headPart (c : MsgCaptures) : Text :=
  "[L".toList ++ (c.lineNumber ++ ("][P".toList ++ (c.pointTo ++ ("][@".toList ++
    (c.handler ++ ("][".toList ++ (c.timestamp ++ ([']'] ++ (eventText c.eventType ++ [' '])))))))))

theorem render_eq (c : MsgCaptures) : render c = headPart c ++ c.body := by
  simp [render, headPart]

theorem not_mem_of_all {p : Char → Bool} {t : Text} {c : Char} (h : t.all p = true)
    (hc : p c = false) : c ∉ t := by
  intro hmem
  rw [List.all_eq_true.mp h c hmem] at hc
  cases hc

/-- The capital `L` of the line number is the only one in front of the body. -/
theorem count_headPart {c : MsgCaptures} (h : Shaped c) : (headPart c).count 'L' = 1 := by
  have hdigit : isRegexDigit 'L' = false := by decide
  have hevent : 'L' ∉ eventText c.eventType := by
    cases he : c.eventType with
    | none => simp [eventText]
    | some e =>
      obtain ⟨x, more, rfl, hx, hmore⟩ := h.eventType e he
      have hmem := not_mem_of_all hmore (by decide : isEventChar 'L' = false)
      have hne : 'L' ≠ x := by
        rintro rfl
        cases hx
      simp [eventText, hne, hmem]
  have hstamp : 'L' ∉ c.timestamp := by
    obtain ⟨day, time, hts, hday, -, htime, -⟩ := h.timestamp
    have hd := not_mem_of_all hday hdigit
    have ht := not_mem_of_all htime hdigit
    simp [hts, hd, ht]
  have hline := not_mem_of_all h.lineDigits hdigit
  have hpoint := not_mem_of_all h.pointDigits hdigit
  have hname := not_mem_of_all h.handlerChars (by decide : isHandlerChar 'L' = false)
  simp [headPart, List.count_eq_zero_of_not_mem, hevent, hstamp, hline, hpoint,
    hname]

theorem headPart_front (c : MsgCaptures) : ∃ rest, headPart c = '[' :: 'L' :: rest :=
  ⟨_, rfl⟩

theorem headPart_last (c : MsgCaptures) : (headPart c).getLast? = some ' ' := by
  have hconcat : headPart c = "[L".toList ++ (c.lineNumber ++ ("][P".toList ++ (c.pointTo ++
      ("][@".toList ++ (c.handler ++ ("][".toList ++ (c.timestamp ++ ([']'] ++
        eventText c.eventType)))))))) ++ [' '] := by
    simp [headPart]
  rw [hconcat, List.getLast?_concat]

theorem header_front {line : Text} {caps : MsgCaptures} (h : msgCaptures line = some caps) :
    ∃ rest, line = '[' :: 'L' :: rest :=
  ⟨_, (msgCaptures_eq_some_iff.mp h).1⟩

/-- A header line cannot start inside the front part of another one. -/
theorem headPart_not_inside {c : MsgCaptures} (hc : Shaped c) {e k body h : Text} (he : e ≠ [])
    (hk : k ≠ []) (hsplit : headPart c = e ++ k) (hfront : ∃ rest, h = '[' :: 'L' :: rest)
    (hh : h = k ++ body) : False := by
  obtain ⟨y, e', rfl⟩ := List.exists_cons_of_ne_nil he
  obtain ⟨x, k', rfl⟩ := List.exists_cons_of_ne_nil hk
  obtain ⟨r, hr⟩ := headPart_front c
  obtain ⟨q, hq⟩ := hfront
  have hx : x = '[' := by simpa [hq] using congrArg List.head? hh.symm
  have hlast := headPart_last c
  have hcount := count_headPart hc
  rw [hsplit] at hcount hlast
  rw [hr] at hsplit
  cases e' with
  | nil =>
    have hL : 'L' = x := by simpa using congrArg (fun t : Text => t.tail.head?) hsplit
    rw [hx] at hL
    cases hL
  | cons z e' =>
    have hz : 'L' = z := by simpa using congrArg (fun t : Text => t.tail.head?) hsplit
    subst hz
    cases k' with
    | nil =>
      rw [hx, List.getLast?_concat] at hlast
      simp at hlast
    | cons w k' =>
      have hw : 'L' = w := by
        simpa [hq] using congrArg (fun t : Text => t.tail.head?) hh
      subst hw
      simp [List.count_cons] at hcount
      omega

/-- Two texts glued together inside a line: if a line that opens no message becomes a header by
the header that follows it, the whole second header is the body of the first. -/
theorem body_of_glued {e h : Text} {glued caps : MsgCaptures} (he : e ≠ [])
    (hplain : msgCaptures e = none) (hglued : msgCaptures (e ++ h) = some glued)
    (hh : msgCaptures h = some caps) : glued.body = h := by
  obtain ⟨hline, hshape⟩ := msgCaptures_eq_some_iff.mp hglued
  rw [render_eq] at hline
  rcases List.append_eq_append_iff.mp hline with ⟨k, hhead, hrest⟩ | ⟨k, hhead, hrest⟩
  · by_cases hk : k = []
    · simpa [hk] using hrest.symm
    · exact (headPart_not_inside hshape he hk hhead (header_front hh) hrest).elim
  · by_cases hk : k = []
    · simpa [hk] using hrest
    · have hheader : msgCaptures e = some { glued with body := k } := by
        refine msgCaptures_eq_some_iff.mpr ⟨by rw [render_eq]; exact hhead,
          { hshape with body := hk, bodyLine := fun hm => hshape.bodyLine (by simp [hrest, hm]) }⟩
      rw [hplain] at hheader
      cases hheader

end Headers

section Agreement
variable {codec : JsonCodec Json} {isObject : Json → Bool} {users senders : List Text}

theorem report_eq_nil_iff {c : Prop} [Decidable c] {issue : IntegrityIssue} :
    report c issue = [] ↔ ¬ c := by
  rw [report]
  split <;> simp_all

theorem checkMessage_ok_iff {seen : Seen} {msg : Message} {u : Unit} :
    checkMessage users seen msg = .ok u ↔
      ¬ (msg.pointTo ≠ 0 ∧ msg.pointTo ∉ seen.knownLines) ∧
      (∀ mention ∈ extractMentions msg.body, mention ∈ users) ∧ trim msg.body ≠ [] := by
  rw [checkMessage, then_eq_ok_iff, then_eq_ok_iff, refuse_eq_ok_iff, refuse_eq_ok_iff,
    checkSome_eq_ok_iff]
  have hfind : (∀ a, (extractMentions msg.body).find? (· ∉ users) = some a →
      (.error (.unknownMention a msg.lineNumber) : Except ComplianceError Unit) = .ok ()) ↔
        ∀ mention ∈ extractMentions msg.body, mention ∈ users := by
    cases hm : (extractMentions msg.body).find? (· ∉ users) with
    | none => simpa using List.find?_eq_none.mp hm
    | some a =>
      have hmem := List.mem_of_find?_eq_some hm
      have hnot := List.find?_some hm
      simp only [Option.some.injEq, reduceCtorEq, imp_false, forall_eq', false_iff]
      exact fun hall => absurd (hall a hmem) (by simpa using hnot)
  rw [hfind]

/-- What the writer lets pass the reader does not report. -/
theorem entryIssues_of_checkEntry {seen : Seen} {entry : ThreadEntry Json}
    (h : checkEntry isObject users senders seen entry = .ok ()) :
    entryIssues isObject users seen entry = [] := by
  rw [checkEntry.eq_def, then_eq_ok_iff, then_eq_ok_iff, then_eq_ok_iff, refuse_eq_ok_iff,
    refuse_eq_ok_iff] at h
  obtain ⟨hline, hauthor, -, hrest⟩ := h
  rw [entryIssues.eq_def, List.append_eq_nil_iff, List.append_eq_nil_iff, report_eq_nil_iff,
    report_eq_nil_iff]
  refine ⟨⟨hline, hauthor⟩, ?_⟩
  cases entry with
  | message msg =>
    obtain ⟨hpoint, hmentions, hbody⟩ := checkMessage_ok_iff.mp hrest
    rw [List.append_eq_nil_iff, List.append_eq_nil_iff, report_eq_nil_iff, report_eq_nil_iff,
      List.map_eq_nil_iff, List.filter_eq_nil_iff]
    exact ⟨⟨hpoint, hbody⟩, fun mention hm => by simpa using hmentions mention hm⟩
  | event ev =>
    simp only [checkEvent, then_eq_ok_iff, refuse_eq_ok_iff] at hrest
    rw [List.append_eq_nil_iff, report_eq_nil_iff, report_eq_nil_iff]
    exact hrest

theorem issuesFrom_of_checkEntries {seen : Seen} {es : List (ThreadEntry Json)}
    (h : checkEntries isObject users senders seen es = .ok ()) :
    issuesFrom isObject users seen es = [] := by
  induction es generalizing seen with
  | nil => rfl
  | cons entry rest ih =>
    rw [checkEntries, then_eq_ok_iff] at h
    rw [issuesFrom, entryIssues_of_checkEntry h.1, ih h.2]
    rfl

theorem issuesFrom_append (seen : Seen) (es fs : List (ThreadEntry Json)) :
    issuesFrom isObject users seen (es ++ fs) =
      issuesFrom isObject users seen es ++
        issuesFrom isObject users (es.foldl Seen.after seen) fs := by
  induction es generalizing seen with
  | nil => rfl
  | cons entry rest ih => rw [List.cons_append, issuesFrom, issuesFrom, ih, List.foldl_cons,
      List.append_assoc]

/-- Where the reader stands behind a thread is where the writer starts. -/
theorem foldl_after (es : List (ThreadEntry Json)) :
    es.foldl Seen.after ⟨[], 1⟩ =
      ⟨es.map ThreadEntry.lineNumber, nextLine (lastLineNumber es)⟩ := by
  induction es using List.reverseRecOn with
  | nil => rfl
  | append_singleton es entry ih =>
    rw [List.foldl_append, ih]
    simp [Seen.after, lastLineNumber]

theorem validateAppend_ok_iff {existing newLines : Text} {u : Unit} :
    validateAppend codec isObject users senders existing newLines = .ok u ↔
      ∃ old new, parseThread codec existing = .ok old ∧ parseThread codec newLines = .ok new ∧
        checkEntries isObject users senders (old.entries.foldl Seen.after ⟨[], 1⟩) new.entries =
          .ok () := by
  rw [validateAppend, bind_eq_ok_iff]
  simp only [mapError_eq_ok_iff, bind_eq_ok_iff, foldl_after]
  constructor
  · rintro ⟨old, hold, new, hnew, hcheck⟩
    exact ⟨old, new, hold, hnew, hcheck⟩
  · rintro ⟨old, new, hold, hnew, hcheck⟩
    exact ⟨old, hold, new, hnew, hcheck⟩

theorem checkThreadIntegrity_clean_iff {input : Text} {file : ThreadFile Json}
    (h : parseThread codec input = .ok file) :
    checkThreadIntegrity codec isObject users input = .ok [] ↔
      issuesFrom isObject users ⟨[], 1⟩ file.entries = [] := by
  rw [checkThreadIntegrity, h]
  simp

theorem object_of_checkEntries {seen : Seen} {es : List (ThreadEntry Json)}
    (h : checkEntries isObject users senders seen es = .ok ()) :
    ∀ ev, .event ev ∈ es → isObject ev.info = true := by
  induction es generalizing seen with
  | nil => simp
  | cons entry rest ih =>
    rw [checkEntries, then_eq_ok_iff] at h
    intro ev hev
    rcases List.mem_cons.mp hev with rfl | hev
    · have hentry := h.1
      simp only [checkEntry, checkEvent, then_eq_ok_iff, refuse_eq_ok_iff] at hentry
      simpa using hentry.2.2.2.2
    · exact ih h.2 ev hev

/-- Null is no object, and neither is a JSON text that starts with a bracket. -/
structure ObjectTest (codec : JsonCodec Json) (isObject : Json → Bool) : Prop where
  null : isObject codec.null = false
  array : ∀ t v, codec.fromStr ('[' :: t) = some v → isObject v = false

/-- A block whose body starts with a whole header is not the block of that header. -/
theorem withBody_ne_glued (hobject : ObjectTest codec isObject) {header : Text}
    {caps glued : MsgCaptures} {conts : List Text} {entry entry' : ThreadEntry Json}
    (hheader : msgCaptures header = some caps) (hglued : glued.body = header)
    (hobj : ∀ ev, entry.withBody codec (blockBody caps conts) = .event ev →
      isObject ev.info = true) :
    entry'.withBody codec (blockBody glued conts) ≠ entry.withBody codec (blockBody caps conts) := by
  intro heq
  cases entry with
  | message m =>
    cases entry' with
    | event ev' => cases heq
    | message m' =>
      have hbody : blockBody glued conts = blockBody caps conts :=
        congrArg Message.body (ThreadEntry.message.inj heq)
      have hlength := congrArg List.length hbody
      rw [blockBody, blockBody, length_joinLines, length_joinLines, hglued, List.map_cons,
        List.map_cons, List.sum_cons, List.sum_cons] at hlength
      have hlonger := congrArg List.length (msgCaptures_eq_some_iff.mp hheader).1
      rw [render_eq, List.length_append] at hlonger
      have hpos : 0 < (headPart caps).length := by simp [headPart]
      omega
  | event ev =>
    cases entry' with
    | message m' => cases heq
    | event ev' =>
      have hinfo := hobj _ heq.symm
      obtain ⟨rest, hrest⟩ := header_front hheader
      obtain ⟨t, ht⟩ : ∃ t, blockBody glued conts = '[' :: t := by
        rw [blockBody, hglued, hrest]
        cases conts with
        | nil => exact ⟨_, rfl⟩
        | cons c conts => exact ⟨_, by rw [List.map_cons, joinLines_cons_cons]; rfl⟩
      simp only [ht] at hinfo
      cases hv : codec.fromStr ('[' :: t) with
      | none => simp [hv, hobject.null] at hinfo
      | some v => simp [hv, hobject.array t v hv] at hinfo

/-- Behind an unterminated line, the first header of the new text is lost as a header. -/
theorem append_glued (hobject : ObjectTest codec isObject) {existing newLines : Text}
    {old new : ThreadFile Json} (hold : parseThread codec existing = .ok old)
    (hnew : parseThread codec newLines = .ok new)
    (hobj : ∀ ev, .event ev ∈ new.entries → isObject ev.info = true) (hne : existing ≠ [])
    (hend : ¬ EndsInLf existing) (hnonempty : newLines ≠ []) :
    parseThread codec (existing ++ newLines) ≠ .ok ⟨old.entries ++ new.entries⟩ := by
  intro hall
  rw [parseThread_eq_ok_iff] at hold hnew hall
  obtain ⟨front, last, hlast, hlines, happend⟩ := normalizedLines_append_unterminated hne hend
  cases hfirst : normalizedLines newLines with
  | nil => exact hnonempty ((normalizedLines_eq_nil_iff newLines).mp hfirst)
  | cons first rest =>
    rw [hfirst] at hnew
    obtain ⟨caps, entry, more, hcaps, -, hentries⟩ := derives_cons hnew
    have hheader : isHeader first = true := by rw [isHeader, hcaps]; rfl
    have hfirstne : first ≠ [] := by
      obtain ⟨r, hr⟩ := header_front hcaps
      simp [hr]
    rw [happend newLines first rest hfirst hfirstne] at hall
    rw [hlines] at hold
    -- one header line is missing unless the glued line is one and the old last line is not
    have hcount := derives_length hall
    have hcountOld := derives_length hold
    have hcountNew := derives_length hnew
    simp only [List.length_append, List.countP_append, List.countP_cons, List.countP_nil, hheader,
      if_true] at hcount hcountOld hcountNew
    have hplain : ¬ isHeader last = true := by
      intro h
      rw [if_pos h] at hcountOld
      split at hcount <;> omega
    have hgluedHeader : isHeader (last ++ first) = true := by
      by_contra h
      rw [if_neg h] at hcount
      rw [if_neg hplain] at hcountOld
      omega
    rw [if_neg hplain] at hcountOld
    obtain ⟨es₁, es₂, hes, hbefore, hbehind⟩ := derives_cut hall hgluedHeader
    have hlength : old.entries.length = es₁.length :=
      hcountOld.trans (derives_length hbefore).symm
    obtain ⟨-, hnewEntries⟩ := List.append_inj hes hlength
    rw [← hnewEntries] at hbehind
    obtain ⟨glued, entry', more', hglued, -, hentries'⟩ := derives_cons hbehind
    have hbody := body_of_glued hlast (not_isHeader_iff.mp hplain) hglued hcaps
    refine withBody_ne_glued hobject hcaps hbody (fun ev hev => hobj ev ?_)
      (List.cons.inj (hentries'.symm.trans hentries)).1
    rw [hentries, hev]
    exact List.mem_cons_self

/-- The file that `handle_send` leaves behind reads as the old entries followed by the new ones,
and a thread without issues stays one. -/
def Appended (codec : JsonCodec Json) (isObject : Json → Bool) (users : List Text)
    (existing newLines : Text) : Prop :=
  (∃ old new, parseThread codec existing = .ok old ∧ parseThread codec newLines = .ok new ∧
    parseThread codec (existing ++ newLines) = .ok ⟨old.entries ++ new.entries⟩) ∧
  (checkThreadIntegrity codec isObject users existing = .ok [] →
    checkThreadIntegrity codec isObject users (existing ++ newLines) = .ok [])

theorem appended_of_parse {existing newLines : Text} {old new : ThreadFile Json}
    (hold : parseThread codec existing = .ok old) (hnew : parseThread codec newLines = .ok new)
    (hcheck : checkEntries isObject users senders (old.entries.foldl Seen.after ⟨[], 1⟩)
      new.entries = .ok ())
    (hall : parseThread codec (existing ++ newLines) = .ok ⟨old.entries ++ new.entries⟩) :
    Appended codec isObject users existing newLines := by
  refine ⟨⟨old, new, hold, hnew, hall⟩, fun hclean => ?_⟩
  rw [checkThreadIntegrity_clean_iff hold] at hclean
  rw [checkThreadIntegrity_clean_iff hall, issuesFrom_append, hclean,
    issuesFrom_of_checkEntries hcheck]
  rfl

/-- An accepted append is an append exactly if the thread is empty or ends in a line feed, or
nothing is appended. -/
theorem validated_append_iff (hobject : ObjectTest codec isObject) (existing newLines : Text)
    (haccept : validateAppend codec isObject users senders existing newLines = .ok ()) :
    Appended codec isObject users existing newLines ↔
      existing = [] ∨ EndsInLf existing ∨ newLines = [] := by
  obtain ⟨old, new, hold, hnew, hcheck⟩ := validateAppend_ok_iff.mp haccept
  constructor
  · rintro ⟨⟨old', new', hold', hnew', hall⟩, -⟩
    rw [hold] at hold'
    rw [hnew] at hnew'
    cases hold'
    cases hnew'
    by_contra hcond
    simp only [not_or] at hcond
    exact append_glued hobject hold hnew (object_of_checkEntries hcheck) hcond.1 hcond.2.1
      hcond.2.2 hall
  · rintro (hend | hend | rfl)
    · exact appended_of_parse hold hnew hcheck (parseThread_append codec hold hnew (Or.inl hend))
    · exact appended_of_parse hold hnew hcheck (parseThread_append codec hold hnew (Or.inr hend))
    · have hempty : new.entries = [] := by
        cases hnew
        rfl
      refine appended_of_parse hold hnew hcheck ?_
      rw [hempty, List.append_nil, List.append_nil]
      exact hold

end Agreement

section Samples

def smallObject : SmallJson → Bool
  | .null => false
  | .object => true

theorem smallCodec_objectTest : ObjectTest smallCodec smallObject where
  null := rfl
  array t v hv := by
    have hnone : smallCodec.fromStr ('[' :: t) = none := by simp [smallCodec]
    rw [hnone] at hv
    cases hv

def sampleReply : Text := formatMessage 2 1 alice newYear "hi <@alice>".toList

theorem validated_append_terminated :
    validateAppend smallCodec smallObject ["alice".toList] [] baseText sampleReply = .ok () ∧
      Appended smallCodec smallObject ["alice".toList] baseText sampleReply := by
  have haccept : validateAppend smallCodec smallObject ["alice".toList] [] baseText sampleReply =
      .ok () := by decide +kernel
  exact ⟨haccept, (validated_append_iff smallCodec_objectTest _ _ haccept).mpr
    (Or.inr (Or.inl (by decide)))⟩

/-- The same thread without its final line feed: the reply is accepted, and the file that is
written has one entry. -/
theorem validated_append_swallowed :
    validateAppend smallCodec smallObject ["alice".toList] [] baseText.dropLast sampleReply =
        .ok () ∧
      parseThread smallCodec (baseText.dropLast ++ sampleReply) =
        .ok ⟨[sampleMessage 1 0
          "hello[L000002][P000001][@alice][20260101T000000Z] hi <@alice>".toList]⟩ ∧
      ¬ Appended smallCodec smallObject ["alice".toList] baseText.dropLast sampleReply := by
  have hswallowed : parseThread smallCodec (baseText.dropLast ++ sampleReply) =
      .ok ⟨[sampleMessage 1 0
        "hello[L000002][P000001][@alice][20260101T000000Z] hi <@alice>".toList]⟩ := by
    decide +kernel
  refine ⟨by decide +kernel, hswallowed, ?_⟩
  rintro ⟨⟨old, new, hold, hnew, hall⟩, -⟩
  have hbase : parseThread smallCodec baseText.dropLast =
      .ok ⟨[sampleMessage 1 0 "hello".toList]⟩ := by decide +kernel
  rw [hbase] at hold
  cases hold
  rw [hswallowed] at hall
  have hentries := congrArg ThreadFile.entries (Except.ok.inj hall)
  have hbody := (List.cons.inj hentries).1
  simp [sampleMessage] at hbody

end Samples

end ThreadValidation
