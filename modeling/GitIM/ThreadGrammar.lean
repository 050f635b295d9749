import GitIM.Checked
import GitIM.ThreadFormat
import Mathlib.Data.List.ModifyLast

/-!
# What the thread parser accepts

The message pattern is read as a decomposition of the line, and a successful
parse as a derivation: a thread is a sequence of blocks, each a header line and
the continuation lines up to the next header. Every proof about parsed threads
works with derivations and not with the parser's loop.
-/

namespace ThreadGrammar

open TextLines TextScan Checked ThreadFormat

def TimestampShape (ts : Text) : Prop :=
  ∃ day time, ts = day ++ 'T' :: (time ++ ['Z']) ∧ day.all isRegexDigit = true ∧
    day.length = 8 ∧ time.all isRegexDigit = true ∧ time.length = 6

def EventShape (e : Text) : Prop :=
  ∃ c more, e = c :: more ∧ c.isLower = true ∧ more.all isEventChar = true

def eventText : Option Text → Text
  | none => []
  | some e => "[E:".toList ++ (e ++ [']'])

/-- The line a list of capture groups stands for. -/
def render (c : MsgCaptures) : Text :=
  "[L".toList ++ (c.lineNumber ++ ("][P".toList ++ (c.pointTo ++ ("][@".toList ++
    (c.handler ++ ("][".toList ++ (c.timestamp ++ ([']'] ++ (eventText c.eventType ++
      ([' '] ++ c.body))))))))))

structure Shaped (c : MsgCaptures) : Prop where
  lineDigits : c.lineNumber.all isRegexDigit = true
  lineLength : 6 ≤ c.lineNumber.length
  pointDigits : c.pointTo.all isRegexDigit = true
  pointLength : 6 ≤ c.pointTo.length
  handlerChars : c.handler.all isHandlerChar = true
  handlerLength : 1 ≤ c.handler.length
  timestamp : TimestampShape c.timestamp
  eventType : ∀ e, c.eventType = some e → EventShape e
  body : c.body ≠ []
  bodyLine : '\n' ∉ c.body

theorem timestampGroup_eq_some_iff {t ts rest : Text} :
    timestampGroup t = some (ts, rest) ↔ t = ts ++ rest ∧ TimestampShape ts := by
  simp only [timestampGroup, Option.bind_eq_bind, Option.bind_eq_some_iff, Prod.exists,
    scanExact_eq_some_iff, stripPrefix_eq_some_iff, Option.some.injEq, Prod.mk.injEq]
  constructor
  · rintro ⟨day, t1, ⟨rfl, hd, hdl⟩, t2, rfl, time, t3, ⟨rfl, hm, hml⟩, t4, rfl, rfl, rfl⟩
    exact ⟨by simp, day, time, rfl, hd, hdl, hm, hml⟩
  · rintro ⟨rfl, day, time, rfl, hd, hdl, hm, hml⟩
    exact ⟨day, 'T' :: (time ++ ['Z']) ++ rest, ⟨by simp, hd, hdl⟩, time ++ ['Z'] ++ rest,
      by simp, time, ['Z'] ++ rest, ⟨by simp, hm, hml⟩, rest, by simp, rfl, rfl⟩

theorem eventGroup_eq_some_iff {t e rest : Text} :
    eventGroup t = some (e, rest) ↔ t = "[E:".toList ++ (e ++ ([']'] ++ rest)) ∧ EventShape e := by
  simp only [eventGroup, Option.bind_eq_bind, Option.bind_eq_some_iff, Prod.exists,
    scan_eq_some_iff, scanExact_eq_some_iff, stripPrefix_eq_some_iff, Option.some.injEq,
    Prod.mk.injEq]
  constructor
  · rintro ⟨t1, rfl, ini, t2, ⟨rfl, hi, hil⟩, more, t3, ⟨rfl, hm, -, -⟩, t4, rfl, rfl, rfl⟩
    obtain ⟨c, rfl⟩ := List.length_eq_one_iff.mp hil
    exact ⟨by simp, c, more, rfl, by simpa using hi, hm⟩
  · rintro ⟨rfl, c, more, rfl, hc, hm⟩
    exact ⟨c :: more ++ ([']'] ++ rest), rfl, [c], more ++ ([']'] ++ rest), ⟨rfl, by simpa using hc, rfl⟩,
      more, [']'] ++ rest, ⟨rfl, hm, Nat.zero_le _, by simp [isEventChar]⟩, rest, rfl, rfl, rfl⟩

theorem eventGroup_of_blank (t : Text) : eventGroup (' ' :: t) = none := by
  cases h : eventGroup (' ' :: t) with
  | none => rfl
  | some r =>
    have heq := (eventGroup_eq_some_iff.mp h).1
    simp at heq

theorem optionalEventGroup_blank_iff {t body : Text} {e : Option Text} :
    optionalEventGroup t = (e, ' ' :: body) ↔
      t = eventText e ++ ' ' :: body ∧ ∀ x, e = some x → EventShape x := by
  rw [optionalEventGroup]
  constructor
  · intro h
    cases hg : eventGroup t with
    | none =>
      simp only [hg, Prod.mk.injEq] at h
      obtain ⟨rfl, rfl⟩ := h
      exact ⟨rfl, by simp⟩
    | some r =>
      obtain ⟨x, rest⟩ := r
      simp only [hg, Prod.mk.injEq] at h
      obtain ⟨rfl, rfl⟩ := h
      obtain ⟨rfl, hx⟩ := eventGroup_eq_some_iff.mp hg
      refine ⟨by simp [eventText], ?_⟩
      rintro y hy
      exact Option.some.inj hy ▸ hx
  · rintro ⟨rfl, hshape⟩
    cases e with
    | none => simp [eventText, eventGroup_of_blank]
    | some x =>
      have hg : eventGroup (eventText (some x) ++ ' ' :: body) = some (x, ' ' :: body) :=
        eventGroup_eq_some_iff.mpr ⟨by simp [eventText], hshape x rfl⟩
      rw [hg]

theorem isRegexDigit_bracket : isRegexDigit ']' = false := by decide

/-- A line matches the message pattern exactly when it is the rendering of its groups. -/
theorem msgCaptures_eq_some_iff {line : Text} {c : MsgCaptures} :
    msgCaptures line = some c ↔ line = render c ∧ Shaped c := by
  simp only [msgCaptures, Option.bind_eq_bind, Option.bind_eq_some_iff, Prod.exists,
    scan_eq_some_iff, stripPrefix_eq_some_iff, timestampGroup_eq_some_iff]
  constructor
  · rintro ⟨t1, rfl, ln, t2, ⟨rfl, hl, hll, -⟩, t3, rfl, pt, t4, ⟨rfl, hp, hpl, -⟩, t5, rfl,
      h, t6, ⟨rfl, hh, hhl, -⟩, t7, rfl, ts, t8, ⟨rfl, hts⟩, t9, rfl, body, hbody, hif⟩
    split at hif
    · rename_i hb
      obtain ⟨ht9, hev⟩ := optionalEventGroup_blank_iff.mp
        (Prod.ext rfl hbody : optionalEventGroup t9 = ((optionalEventGroup t9).1, ' ' :: body))
      cases Option.some.inj hif
      refine ⟨?_, ⟨hl, hll, hp, hpl, hh, hhl, hts, hev, hb.1, hb.2⟩⟩
      rw [render]
      conv_lhs => rw [ht9]
      simp
    · cases hif
  · rintro ⟨rfl, hs⟩
    have hev : optionalEventGroup (eventText c.eventType ++ ' ' :: c.body) =
        (c.eventType, ' ' :: c.body) :=
      optionalEventGroup_blank_iff.mpr ⟨rfl, hs.eventType⟩
    refine ⟨_, rfl, c.lineNumber, _, ⟨rfl, hs.lineDigits, hs.lineLength, ?_⟩, _, rfl,
      c.pointTo, _, ⟨rfl, hs.pointDigits, hs.pointLength, ?_⟩, _, rfl,
      c.handler, _, ⟨rfl, hs.handlerChars, hs.handlerLength, ?_⟩, _, rfl,
      c.timestamp, _, ⟨rfl, hs.timestamp⟩, _, rfl, c.body, ?_, ?_⟩
    · simp [isRegexDigit_bracket]
    · simp [isRegexDigit_bracket]
    · simp [isHandlerChar]
    · rw [List.singleton_append, hev]
    · rw [List.singleton_append, hev]
      simp [hs.body, hs.bodyLine]

section Derivations
variable {Json : Type} (codec : JsonCodec Json)

/-- The body of a block: the rest of its header line and its unescaped continuations. -/
def blockBody (caps : MsgCaptures) (conts : List Text) : Text :=
  joinLines (caps.body :: conts.map unescapeContinuation)

/-- A thread is a sequence of blocks; each block yields one entry. -/
inductive Derives : List Text → List (ThreadEntry Json) → Prop
  | nil : Derives [] []
  | block {line : Text} {caps : MsgCaptures} {entry : ThreadEntry Json} {conts rest : List Text}
      {entries : List (ThreadEntry Json)} (header : msgCaptures line = some caps)
      (opened : openEntry codec 0 caps = .ok entry)
      (plain : ∀ c ∈ conts, msgCaptures c = none) (tail : Derives rest entries) :
      Derives (line :: (conts ++ rest))
        (entry.withBody codec (blockBody caps conts) :: entries)

theorem Derives.append {a b : List Text} {es fs : List (ThreadEntry Json)}
    (ha : Derives codec a es) (hb : Derives codec b fs) : Derives codec (a ++ b) (es ++ fs) := by
  induction ha with
  | nil => exact hb
  | block header opened plain _ ih =>
    rw [List.cons_append, List.append_assoc]
    exact .block header opened plain ih

theorem headerAuthor_eq_ok_iff {i : Nat} {raw : Text} {h : Handler} :
    headerAuthor i raw = .ok h ↔ h.name = raw := by
  rw [headerAuthor]
  constructor
  · intro heq
    split at heq
    · rename_i hs
      exact Except.ok.inj heq ▸ hs.symm
    · split at heq
      · rename_i h' hn
        rw [Handler.new] at hn
        split at hn
        · cases hn
        · rw [← Except.ok.inj heq, ← Except.ok.inj hn]
      · cases heq
  · rintro rfl
    by_cases hs : h.name = systemName
    · rw [if_pos hs]
      exact congrArg _ (Handler.ext hs.symm)
    · have hv : handlerError h.name = none := h.valid.resolve_right hs
      have hn : Handler.new h.name = .ok h := by
        rw [Handler.new]
        split
        · rename_i e he
          rw [hv] at he
          cases he
        · rfl
      rw [if_neg hs, hn]

theorem openEntry_eq_ok_iff {i : Nat} {caps : MsgCaptures} {entry : ThreadEntry Json} :
    openEntry codec i caps = .ok entry ↔
      ∃ ln pt h, parseU64 caps.lineNumber = .ok ln ∧ parseU64 caps.pointTo = .ok pt ∧
        h.name = caps.handler ∧ entry = match caps.eventType with
          | some e => .event ⟨ln, pt, h, caps.timestamp, e, codec.null⟩
          | none => .message ⟨ln, pt, h, caps.timestamp, []⟩ := by
  simp only [openEntry, bind_eq_ok_iff, headerAuthor_eq_ok_iff]
  constructor
  · rintro ⟨ln, hl, pt, hp, h, hh, heq⟩
    refine ⟨ln, pt, h, hl, hp, hh, ?_⟩
    cases he : caps.eventType <;> simp only [he] at heq ⊢ <;> exact (Except.ok.inj heq).symm
  · rintro ⟨ln, pt, h, hl, hp, hh, rfl⟩
    refine ⟨ln, hl, pt, hp, h, hh, ?_⟩
    cases caps.eventType <;> rfl

/-- The file position of a header only occurs in errors. -/
theorem openEntry_ok_of_ok {i j : Nat} {caps : MsgCaptures} {entry : ThreadEntry Json}
    (h : openEntry codec i caps = .ok entry) : openEntry codec j caps = .ok entry :=
  (openEntry_eq_ok_iff codec).mpr ((openEntry_eq_ok_iff codec).mp h)

theorem finalizeEntry_concat (es : List (ThreadEntry Json)) (e : ThreadEntry Json) (b : Text) :
    finalizeEntry codec (es ++ [e]) (some b) = es ++ [e.withBody codec b] := by
  rw [finalizeEntry, List.modifyLast_concat]

theorem parseLine_header {i : Nat} {line : Text} {caps : MsgCaptures} {entry : ThreadEntry Json}
    (header : msgCaptures line = some caps) (opened : openEntry codec i caps = .ok entry)
    (st : ParseState Json) :
    parseLine codec i line st =
      .ok ⟨finalizeEntry codec st.entries st.currentBody ++ [entry], some caps.body, false⟩ := by
  simp [parseLine, header, opened, bind, Except.bind]

theorem parseLine_continuation {i : Nat} {line : Text} (h : msgCaptures line = none)
    (es : List (ThreadEntry Json)) (b : Text) :
    parseLine codec i line ⟨es, some b, false⟩ =
      .ok ⟨es, some (b ++ '\n' :: unescapeContinuation line), false⟩ := by
  simp [parseLine, h]

theorem parseLines_continuations {conts : List Text} (plain : ∀ c ∈ conts, msgCaptures c = none)
    (rest : List Text) (i : Nat) (es : List (ThreadEntry Json)) (l : Text) (ls : List Text) :
    parseLines codec i (conts ++ rest) ⟨es, some (joinLines (l :: ls)), false⟩ =
      parseLines codec (i + conts.length) rest
        ⟨es, some (joinLines (l :: ls ++ conts.map unescapeContinuation)), false⟩ := by
  induction conts generalizing i ls with
  | nil => simp
  | cons c conts ih =>
    have hc := parseLine_continuation codec (i := i) (plain c List.mem_cons_self) es
      (joinLines (l :: ls))
    rw [List.cons_append, parseLines, hc]
    have hstep := ih (fun d hd => plain d (List.mem_cons_of_mem c hd)) (i + 1)
      (ls ++ [unescapeContinuation c])
    rw [← joinLines_concat]
    simp only [bind, Except.bind]
    rw [List.cons_append, hstep]
    congr 1
    · simp; omega
    · simp

/-- Derivations are parsed: from any state, the derived entries are appended. -/
theorem parseLines_of_derives {ls : List Text} {es : List (ThreadEntry Json)}
    (h : Derives codec ls es) (i : Nat) (st : ParseState Json) :
    ∃ st', parseLines codec i ls st = .ok st' ∧
      finalizeEntry codec st'.entries st'.currentBody =
        finalizeEntry codec st.entries st.currentBody ++ es := by
  induction h generalizing i st with
  | nil => exact ⟨st, rfl, by simp⟩
  | @block line caps entry conts rest entries header opened plain _ ih =>
    have hl := parseLine_header codec header (openEntry_ok_of_ok codec (j := i) opened) st
    have hconts := parseLines_continuations codec plain rest (i + 1)
      (finalizeEntry codec st.entries st.currentBody ++ [entry]) caps.body []
    rw [joinLines_singleton] at hconts
    obtain ⟨st', hrun, hfin⟩ := ih (i + 1 + conts.length)
      ⟨finalizeEntry codec st.entries st.currentBody ++ [entry],
        some (joinLines ([caps.body] ++ conts.map unescapeContinuation)), false⟩
    refine ⟨st', ?_, ?_⟩
    · rw [parseLines, hl]
      simp only [bind, Except.bind]
      rw [hconts]
      exact hrun
    · rw [hfin, finalizeEntry_concat]
      simp [blockBody]

/-- Conversely, a parse that started inside an entry splits the remaining lines into
the continuations of that entry and a derivation. -/
theorem derives_of_parseLines_open {ls : List Text} {i : Nat} {es : List (ThreadEntry Json)}
    {e : ThreadEntry Json} {l : Text} {ks : List Text} {st' : ParseState Json}
    (h : parseLines codec i ls ⟨es ++ [e], some (joinLines (l :: ks)), false⟩ = .ok st') :
    ∃ conts rest fs, ls = conts ++ rest ∧ (∀ c ∈ conts, msgCaptures c = none) ∧
      Derives codec rest fs ∧ finalizeEntry codec st'.entries st'.currentBody =
        es ++ e.withBody codec (joinLines (l :: ks ++ conts.map unescapeContinuation)) :: fs := by
  induction ls generalizing i es e l ks with
  | nil =>
    cases Except.ok.inj h
    exact ⟨[], [], [], rfl, by simp, .nil, by simp [finalizeEntry_concat]⟩
  | cons line ls ih =>
    rw [parseLines, bind_eq_ok_iff] at h
    obtain ⟨st, hline, hrest⟩ := h
    cases hm : msgCaptures line with
    | none =>
      rw [parseLine_continuation codec hm, ← joinLines_concat] at hline
      cases Except.ok.inj hline
      obtain ⟨conts, rest, fs, rfl, hplain, hder, hfin⟩ := ih hrest
      refine ⟨line :: conts, rest, fs, rfl, ?_, hder, ?_⟩
      · intro c hc
        rcases List.mem_cons.mp hc with rfl | hc
        · exact hm
        · exact hplain c hc
      · rw [hfin]
        simp
    | some caps =>
      simp only [parseLine, hm, bind_eq_ok_iff] at hline
      obtain ⟨entry, hopen, hst⟩ := hline
      cases Except.ok.inj hst
      rw [← joinLines_singleton caps.body] at hrest
      obtain ⟨conts, rest, fs, rfl, hplain, hder, hfin⟩ := ih hrest
      refine ⟨[], line :: (conts ++ rest), _, rfl, by simp,
        .block hm (openEntry_ok_of_ok codec hopen) hplain hder, ?_⟩
      rw [hfin, finalizeEntry_concat]
      simp [blockBody]

theorem derives_of_parseLines {ls : List Text} {st' : ParseState Json}
    (h : parseLines codec 0 ls ⟨[], none, true⟩ = .ok st') :
    Derives codec ls (finalizeEntry codec st'.entries st'.currentBody) := by
  cases ls with
  | nil =>
    cases Except.ok.inj h
    exact .nil
  | cons line ls =>
    rw [parseLines, bind_eq_ok_iff] at h
    obtain ⟨st, hline, hrest⟩ := h
    cases hm : msgCaptures line with
    | none => simp [parseLine, hm] at hline
    | some caps =>
      simp only [parseLine, hm, bind_eq_ok_iff] at hline
      obtain ⟨entry, hopen, hst⟩ := hline
      cases Except.ok.inj hst
      rw [← joinLines_singleton caps.body] at hrest
      obtain ⟨conts, rest, fs, rfl, hplain, hder, hfin⟩ := derives_of_parseLines_open codec hrest
      rw [hfin]
      exact .block hm hopen hplain hder

/-- `parse_thread` succeeds exactly on the derivable line sequences. -/
theorem parseThread_eq_ok_iff {input : Text} {file : ThreadFile Json} :
    parseThread codec input = .ok file ↔ Derives codec (normalizedLines input) file.entries := by
  rw [parseThread]
  by_cases hnil : replaceCrLf input = []
  · have hinput : input = [] := (replaceCrLf_eq_nil_iff input).mp hnil
    rw [if_pos hnil, hinput]
    constructor
    · intro h
      cases Except.ok.inj h
      exact .nil
    · intro h
      cases file with
      | mk entries =>
        cases h with
        | nil => rfl
  · rw [if_neg hnil]
    constructor
    · intro h
      obtain ⟨st, hrun, hfile⟩ := bind_eq_ok_iff.mp h
      cases Except.ok.inj hfile
      exact derives_of_parseLines codec hrun
    · intro h
      obtain ⟨st, hrun, hfin⟩ := parseLines_of_derives codec h 0 ⟨[], none, true⟩
      refine bind_eq_ok_iff.mpr ⟨st, hrun, ?_⟩
      rw [hfin]
      rfl

/-- Behind a thread that is empty or ends in a line feed, the entries of a text follow. -/
theorem parseThread_append {a b : Text} {old new : ThreadFile Json}
    (hold : parseThread codec a = .ok old) (hnew : parseThread codec b = .ok new)
    (hend : a = [] ∨ EndsInLf a) :
    parseThread codec (a ++ b) = .ok ⟨old.entries ++ new.entries⟩ := by
  rw [parseThread_eq_ok_iff] at hold hnew ⊢
  rw [normalizedLines_append _ hend]
  exact Derives.append codec hold hnew

end Derivations

end ThreadGrammar
