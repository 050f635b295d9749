import GitIM.ThreadGrammar

/-!
# Formatted entries are parsed back

A parsed entry carries more than its fields show: its body is a join of lines
none of which looks escaped, and its timestamp and event type have the shape of
their pattern groups. `format_message` and `format_event` are inverse to the parser
on such entries, as long as no carriage return or final line feed of a body is lost.
-/

namespace ThreadRoundTrip

open TextLines TextScan ThreadFormat ThreadGrammar

theorem isRegexDigit_of_isDigit {c : Char} (h : c.isDigit = true) : isRegexDigit c = true := by
  have hc : 48 ≤ c.toNat ∧ c.toNat ≤ 57 := by
    simpa [Char.isDigit, UInt32.le_iff_toNat_le, ← Char.toNat_val] using h
  have hz : decide (0x30 ≤ c.toNat) && decide (c.toNat < 0x30 + 10) := by
    rw [Bool.and_eq_true, decide_eq_true_eq, decide_eq_true_eq]
    omega
  exact List.any_eq_true.mpr ⟨0x30, List.mem_cons_self, hz⟩

theorem padNumber_isDigit (width n : Nat) : (padNumber width n).all Char.isDigit = true := by
  rw [List.all_eq_true]
  intro c hc
  rcases List.mem_append.mp hc with hc | hc
  · rw [(List.mem_replicate.mp hc).2]
    rfl
  · exact Nat.isDigit_of_mem_toDigits (by decide) (by decide) hc

theorem padNumber_regexDigits (width n : Nat) : (padNumber width n).all isRegexDigit = true := by
  rw [List.all_eq_true]
  intro c hc
  exact isRegexDigit_of_isDigit (List.all_eq_true.mp (padNumber_isDigit width n) c hc)

theorem length_padNumber (width n : Nat) (h : 6 ≤ width) : 6 ≤ (padNumber width n).length := by
  simp only [padNumber, List.length_append, List.length_replicate]
  omega

theorem parseU64_padNumber (width n : Nat) (h : n < u64Bound) :
    parseU64 (padNumber width n) = .ok n := by
  have hval : Nat.ofDigitChars 10 (padNumber width n) 0 = n := by
    rw [padNumber, Nat.ofDigitChars_append, Nat.ofDigitChars_replicate_zero, Nat.mul_zero]
    exact Nat.ofDigitChars_ten_toDigits
  have hne : padNumber width n ≠ [] := by simp [padNumber]
  rw [parseU64, hval, if_pos ⟨hne, padNumber_isDigit width n, h⟩]

theorem parseU64_lt {s : Text} {n : Nat} (h : parseU64 s = .ok n) : n < u64Bound := by
  rw [parseU64] at h
  split at h
  · rename_i hs
    exact Except.ok.inj h ▸ hs.2.2
  · cases h

theorem handlerChar_range {c : Char} (h : isHandlerChar c = true) :
    (97 ≤ c.toNat ∧ c.toNat ≤ 122) ∨ (48 ≤ c.toNat ∧ c.toNat ≤ 57) ∨ c.toNat = 45 := by
  rw [isHandlerChar, Bool.or_eq_true, Bool.or_eq_true, or_assoc] at h
  rcases h with lower | digit | hyphen
  · left
    have bounds : (decide (c.val ≥ 97) && decide (c.val ≤ 122)) = true := lower
    simpa [UInt32.le_iff_toNat_le, ← Char.toNat_val] using bounds
  · right; left
    simpa [Char.isDigit, UInt32.le_iff_toNat_le, ← Char.toNat_val] using digit
  · right; right
    rw [beq_iff_eq] at hyphen
    rw [hyphen]
    rfl

/-- Every handler name, the reserved one included, is a run of handler characters. -/
theorem handler_chars (h : Handler) : h.name.all isHandlerChar = true ∧ 1 ≤ h.name.length := by
  rcases h.valid with hv | hs
  · rw [handlerError] at hv
    split at hv
    · cases hv
    · rename_i hne
      split at hv
      · cases hv
      · split at hv
        · cases hv
        · split at hv
          · cases hv
          · rename_i hfind
            refine ⟨?_, List.length_pos_iff.mpr hne⟩
            rw [List.all_eq_true]
            intro c hc
            have := List.find?_eq_none.mp hfind c hc
            simpa using this
  · rw [hs]
    decide

theorem lineWidth_ge (n : Nat) : 6 ≤ lineWidth n := Nat.le_max_right _ _

/-- The capture groups of a formatted header line. -/
def formattedCaptures (ln pt : Nat) (author : Handler) (ts : Text) (e : Option Text)
    (body : Text) : MsgCaptures :=
  ⟨padNumber (lineWidth ln) ln, padNumber (lineWidth ln) pt, author.name, ts, e, body⟩

theorem msgCaptures_formatted (ln pt : Nat) (author : Handler) {ts : Text} {e : Option Text}
    {body : Text} (hts : TimestampShape ts) (he : ∀ x, e = some x → EventShape x)
    (hbody : body ≠ []) (hlf : '\n' ∉ body) :
    msgCaptures (formatPrefix ln pt author ts ++ (eventText e ++ ' ' :: body)) =
      some (formattedCaptures ln pt author ts e body) := by
  have hh := handler_chars author
  refine msgCaptures_eq_some_iff.mpr ⟨?_, ?_⟩
  · simp [render, formatPrefix, formattedCaptures]
  · exact ⟨padNumber_regexDigits _ _, length_padNumber _ _ (lineWidth_ge ln),
      padNumber_regexDigits _ _, length_padNumber _ _ (lineWidth_ge ln), hh.1, hh.2, hts, he,
      hbody, hlf⟩

theorem hasMsgPrefix_of_msgCaptures {line : Text} {caps : MsgCaptures}
    (h : msgCaptures line = some caps) : hasMsgPrefix line = true := by
  obtain ⟨rfl, hs⟩ := msgCaptures_eq_some_iff.mp h
  rw [hasMsgPrefix, Option.isSome_iff_exists]
  simp only [Option.bind_eq_bind, Option.bind_eq_some_iff, Prod.exists, scan_eq_some_iff,
    stripPrefix_eq_some_iff]
  refine ⟨_, _, rfl, caps.lineNumber, _, ⟨rfl, hs.lineDigits, hs.lineLength, ?_⟩, rfl⟩
  simp [isRegexDigit_bracket]

theorem bracket_of_hasMsgPrefix {line : Text} (h : hasMsgPrefix line = true) :
    ∃ rest, line = '[' :: 'L' :: rest := by
  rw [hasMsgPrefix, Option.isSome_iff_exists] at h
  simp only [Option.bind_eq_bind, Option.bind_eq_some_iff, Prod.exists,
    stripPrefix_eq_some_iff] at h
  obtain ⟨_, t, rfl, _⟩ := h
  exact ⟨t, rfl⟩

/-- The text of an escaped continuation line never opens a message. -/
theorem msgCaptures_escapeContinuation (line : Text) :
    msgCaptures (escapeContinuation line) = none := by
  cases h : msgCaptures (escapeContinuation line) with
  | none => rfl
  | some caps =>
    rw [escapeContinuation] at h
    split at h
    · have hrender := (msgCaptures_eq_some_iff.mp h).1
      simp [render] at hrender
    · rename_i hno
      exact absurd (hasMsgPrefix_of_msgCaptures h) hno

/-- No line of a parsed body carries the escape any more. -/
theorem unescaped_no_escape (line : Text) : ¬ " [L".toList <+: unescapeContinuation line := by
  intro hp
  rw [unescapeContinuation] at hp
  split at hp
  · rename_i hl
    obtain ⟨r, rfl⟩ := hl
    obtain ⟨s, hs⟩ := hp
    simp at hs
  · rename_i hl
    exact hl hp

theorem unescape_escape {line : Text} (h : ¬ " [L".toList <+: line) :
    unescapeContinuation (escapeContinuation line) = line := by
  by_cases hp : hasMsgPrefix line = true
  · obtain ⟨rest, rfl⟩ := bracket_of_hasMsgPrefix hp
    rw [escapeContinuation, if_pos hp, unescapeContinuation, if_pos ⟨rest, rfl⟩]
    rfl
  · rw [escapeContinuation, if_neg hp, unescapeContinuation, if_neg h]

theorem escapeContinuation_no_lf {line : Text} (h : '\n' ∉ line) :
    '\n' ∉ escapeContinuation line := by
  rw [escapeContinuation]
  split
  · simpa using h
  · exact h

theorem escapeContinuation_endsInCr {line : Text} (h : ¬ EndsInCr line) :
    ¬ EndsInCr (escapeContinuation line) := by
  rw [escapeContinuation]
  split
  · cases line with
    | nil => simp [EndsInCr]
    | cons c l => simpa [EndsInCr] using h
  · exact h

/-- Lines of a body that `format_message` writes out one by one: no line feeds or final
carriage returns, the first and the last line not empty. -/
structure WritableLines (l : Text) (ls : List Text) : Prop where
  first : l ≠ []
  noLf : ∀ m ∈ l :: ls, '\n' ∉ m
  noCr : ∀ m ∈ l :: ls, ¬ EndsInCr m
  last : (l :: ls).getLast? ≠ some []

/-- A body that survives formatting and parsing: lines without line feeds or final
carriage returns, the first and the last not empty, none of them escaped. -/
structure CleanLines (l : Text) (ls : List Text) : Prop where
  first : l ≠ []
  noLf : ∀ m ∈ l :: ls, '\n' ∉ m
  noCr : ∀ m ∈ l :: ls, ¬ EndsInCr m
  noEscape : ∀ m ∈ ls, ¬ " [L".toList <+: m
  last : (l :: ls).getLast? ≠ some []

theorem CleanLines.writable {l : Text} {ls : List Text} (h : CleanLines l ls) :
    WritableLines l ls :=
  ⟨h.first, h.noLf, h.noCr, h.last⟩

section RoundTrip
variable {Json : Type} (codec : JsonCodec Json)

theorem formatMessage_eq_unlines (ln pt : Nat) (author : Handler) (ts : Text) {l : Text}
    {ls : List Text} (h : WritableLines l ls) :
    formatMessage ln pt author ts (joinLines (l :: ls)) =
      unlines ((formatPrefix ln pt author ts ++ ' ' :: l) :: ls.map escapeContinuation) := by
  rw [formatMessage, lines_joinLines l ls h.noLf h.noCr h.last]
  simp

theorem formatPrefix_no_lf (ln pt : Nat) (author : Handler) {ts : Text}
    (hts : TimestampShape ts) (rest : Text) (hrest : '\n' ∉ rest) :
    '\n' ∉ formatPrefix ln pt author ts ++ ' ' :: rest := by
  intro hmem
  have hpad : ∀ w n, '\n' ∉ padNumber w n := fun w n hm => by
    have := List.all_eq_true.mp (padNumber_isDigit w n) _ hm
    simp at this
  have hname : '\n' ∉ author.name := fun hm => by
    have := List.all_eq_true.mp (handler_chars author).1 _ hm
    simp [isHandlerChar] at this
  have hnum : isRegexDigit '\n' = false := by decide
  have hstamp : '\n' ∉ ts := by
    obtain ⟨day, time, rfl, hd, -, hm, -⟩ := hts
    intro hin
    rcases List.mem_append.mp hin with hin | hin
    · rw [List.all_eq_true.mp hd _ hin] at hnum
      cases hnum
    · have htime : '\n' ∈ time := by simpa using hin
      rw [List.all_eq_true.mp hm _ htime] at hnum
      cases hnum
  simp [formatPrefix, hpad, hname, hstamp, hrest] at hmem

theorem endsInCr_append_cons {a : Text} {c : Char} {b : Text} :
    EndsInCr (a ++ c :: b) ↔ EndsInCr (c :: b) := by
  simp [EndsInCr, List.getLast?_append]

theorem blank_endsInCr {l : Text} (h : ¬ EndsInCr l) : ¬ EndsInCr (' ' :: l) := by
  cases l with
  | nil => simp [EndsInCr]
  | cons c l => simpa [EndsInCr] using h

/-- Formatting a message and reading the text back yields one message; its continuation lines
have gone through the escape and back. -/
theorem derives_writable {ln pt : Nat} (author : Handler) {ts l : Text} {ls : List Text}
    (hln : ln < u64Bound) (hpt : pt < u64Bound) (hts : TimestampShape ts)
    (h : WritableLines l ls) :
    Derives codec (normalizedLines (formatMessage ln pt author ts (joinLines (l :: ls))))
      [.message ⟨ln, pt, author, ts, joinLines
        (l :: (ls.map escapeContinuation).map unescapeContinuation)⟩] := by
  have hl : l ∈ l :: ls := List.mem_cons_self
  rw [formatMessage_eq_unlines ln pt author ts h, normalizedLines_unlines]
  · have hcap := msgCaptures_formatted ln pt author (e := none) hts (by simp) h.first
      (h.noLf l hl)
    have hopen : openEntry codec 0 (formattedCaptures ln pt author ts none l) =
        .ok (.message ⟨ln, pt, author, ts, []⟩) :=
      (openEntry_eq_ok_iff codec).mpr ⟨ln, pt, author, parseU64_padNumber _ _ hln,
        parseU64_padNumber _ _ hpt, rfl, rfl⟩
    have hplain : ∀ c ∈ ls.map escapeContinuation, msgCaptures c = none := by
      intro c hc
      obtain ⟨m, -, rfl⟩ := List.mem_map.mp hc
      exact msgCaptures_escapeContinuation m
    have hder := Derives.block hcap hopen hplain (.nil : Derives codec [] [])
    rw [List.append_nil] at hder
    exact hder
  · intro m hm
    rcases List.mem_cons.mp hm with rfl | hm
    · exact formatPrefix_no_lf ln pt author hts l (h.noLf l hl)
    · obtain ⟨k, hk, rfl⟩ := List.mem_map.mp hm
      exact escapeContinuation_no_lf (h.noLf k (List.mem_cons_of_mem l hk))
  · intro m hm
    rcases List.mem_cons.mp hm with rfl | hm
    · rw [endsInCr_append_cons]
      exact blank_endsInCr (h.noCr l hl)
    · obtain ⟨k, hk, rfl⟩ := List.mem_map.mp hm
      exact escapeContinuation_endsInCr (h.noCr k (List.mem_cons_of_mem l hk))

/-- Formatting a clean message and reading the text back yields that message alone. -/
theorem derives_formatMessage {ln pt : Nat} (author : Handler) {ts l : Text} {ls : List Text}
    (hln : ln < u64Bound) (hpt : pt < u64Bound) (hts : TimestampShape ts) (h : CleanLines l ls) :
    Derives codec (normalizedLines (formatMessage ln pt author ts (joinLines (l :: ls))))
      [.message ⟨ln, pt, author, ts, joinLines (l :: ls)⟩] := by
  have hback : (ls.map escapeContinuation).map unescapeContinuation = ls := by
    rw [List.map_map]
    conv_rhs => rw [← List.map_id ls]
    exact List.map_congr_left fun m hm => unescape_escape (h.noEscape m hm)
  have hder := derives_writable codec author hln hpt hts h.writable
  rwa [hback] at hder

theorem eventText_no_lf {e : Text} (he : EventShape e) : '\n' ∉ eventText (some e) := by
  obtain ⟨c, more, rfl, hc, hm⟩ := he
  intro hin
  have hcases : '\n' = c ∨ '\n' ∈ more := by simpa [eventText] using hin
  rcases hcases with hin | hin
  · rw [← hin] at hc
    simp at hc
  · have := List.all_eq_true.mp hm _ hin
    simp [isEventChar] at this

/-- Formatting an event and reading it back yields the event with a zero point-to, when
the JSON library reads back what it writes. -/
theorem derives_formatEvent (hcodec : codec.OneLine) {ln : Nat} (author : Handler)
    {ts e : Text} {info : Json} (hln : ln < u64Bound) (hts : TimestampShape ts)
    (he : EventShape e) (hinfo : codec.fromStr (codec.toStr info) = some info) :
    Derives codec (normalizedLines (formatEvent codec ln author ts e info))
      [.event ⟨ln, 0, author, ts, e, info⟩] := by
  have hsplit : formatEvent codec ln author ts e info =
      unlines [formatPrefix ln 0 author ts ++ (eventText (some e) ++ ' ' :: codec.toStr info)] := by
    simp [formatEvent, eventText]
  rw [hsplit, normalizedLines_unlines]
  · have hcap := msgCaptures_formatted ln 0 author (e := some e) hts
      (by rintro x hx; exact Option.some.inj hx ▸ he) (hcodec.nonempty info) (hcodec.noLf info)
    have hopen : openEntry codec 0 (formattedCaptures ln 0 author ts (some e) (codec.toStr info)) =
        .ok (.event ⟨ln, 0, author, ts, e, codec.null⟩) :=
      (openEntry_eq_ok_iff codec).mpr ⟨ln, 0, author, parseU64_padNumber _ _ hln,
        parseU64_padNumber _ _ (by decide), rfl, rfl⟩
    have hplain : ∀ c ∈ ([] : List Text), msgCaptures c = none := by simp
    have hder := Derives.block hcap hopen hplain (.nil : Derives codec [] [])
    simpa [ThreadEntry.withBody, blockBody, formattedCaptures, hinfo] using hder
  · intro m hm
    rw [List.mem_singleton.mp hm]
    have hp := formatPrefix_no_lf ln 0 author hts [] (by simp)
    have hev := eventText_no_lf he
    have hjson := hcodec.noLf info
    simp only [List.mem_append, List.mem_cons, not_or] at hp hev ⊢
    exact ⟨hp.1, hev, by decide, hjson⟩
  · intro m hm
    rw [List.mem_singleton.mp hm, ← List.append_assoc, endsInCr_append_cons]
    apply blank_endsInCr
    intro hcr
    exact hcodec.noCr info (List.mem_of_getLast? hcr)

/-- What every parsed entry satisfies beyond its type. -/
inductive WellFormed : ThreadEntry Json → Prop
  | message {m : Message} {l : Text} {ls : List Text} (line : m.lineNumber < u64Bound)
      (point : m.pointTo < u64Bound) (stamp : TimestampShape m.timestamp)
      (body : m.body = joinLines (l :: ls)) (first : l ≠ []) (noLf : ∀ k ∈ l :: ls, '\n' ∉ k)
      (noEscape : ∀ k ∈ ls, ¬ " [L".toList <+: k) : WellFormed (.message m)
  | event {e : ChannelEvent Json} (line : e.lineNumber < u64Bound) (point : e.pointTo < u64Bound)
      (stamp : TimestampShape e.timestamp) (kind : EventShape e.eventType) : WellFormed (.event e)

theorem unescapeContinuation_no_lf {c : Text} (h : '\n' ∉ c) : '\n' ∉ unescapeContinuation c := by
  rw [unescapeContinuation]
  split
  · exact fun hm => h (List.mem_of_mem_drop hm)
  · exact h

theorem derives_wellFormed {ls : List Text} {es : List (ThreadEntry Json)}
    (h : Derives codec ls es) (hlf : ∀ l ∈ ls, '\n' ∉ l) : ∀ e ∈ es, WellFormed e := by
  induction h with
  | nil => simp
  | @block line caps entry conts rest entries header opened plain _ ih =>
    intro e he
    rcases List.mem_cons.mp he with rfl | he
    · have hs := (msgCaptures_eq_some_iff.mp header).2
      obtain ⟨ln, pt, h, hln, hpt, -, rfl⟩ := (openEntry_eq_ok_iff codec).mp opened
      cases hev : caps.eventType with
      | some kind =>
        exact .event (parseU64_lt hln) (parseU64_lt hpt) hs.timestamp (hs.eventType kind hev)
      | none =>
        refine .message (parseU64_lt hln) (parseU64_lt hpt) hs.timestamp rfl hs.body ?_ ?_
        · intro k hk
          rcases List.mem_cons.mp hk with rfl | hk
          · exact hs.bodyLine
          · obtain ⟨c, hc, rfl⟩ := List.mem_map.mp hk
            exact unescapeContinuation_no_lf (hlf c (by simp [hc]))
        · intro k hk
          obtain ⟨c, -, rfl⟩ := List.mem_map.mp hk
          exact unescaped_no_escape c
    · exact ih (fun l hl => hlf l (by simp [hl])) e he

theorem parseThread_wellFormed {input : Text} {file : ThreadFile Json}
    (h : parseThread codec input = .ok file) : ∀ e ∈ file.entries, WellFormed e :=
  derives_wellFormed codec ((parseThread_eq_ok_iff codec).mp h)
    fun _ hl => mem_normalizedLines_no_lf hl

end RoundTrip

end ThreadRoundTrip
