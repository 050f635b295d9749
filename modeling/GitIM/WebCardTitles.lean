import GitIM.WebCardYaml

/-!
# What a card keeps when the web client rewrites it

The client reads a card that the serializer wrote, changes the archive stamp and writes the card
again. The checked fields come through. A title comes through, after one reading or after two,
exactly if it is written as it is, or between apostrophes without one inside.
-/

namespace WebCardTitles

open TextLines TextScan FileTree Checked ThreadFormat Channels Cards WebStrings PlainYaml WebCardYaml
open WebJoins (JsValue)

section Titles

/-- What the client may take for a title that was written. -/
def Reads (scalar : Text → Text) (title v : Text) : Prop :=
  (IsClean title → v = readScalar (scalar title)) ∧
    (¬ IsClean title → '\n' ∉ v ∧ (IsClean v ∨ title.length < v.length ∨ '\n' ∈ title))

def readTitle (scalar : Text → Text) (title : Text) : JsObject :=
  (Reader.readAll ⟨[], none⟩ ("title: ".toList ++ scalar title)).save

theorem put_text {r : Reader} {key value : Text} {k t : Text}
    (h : (k, .text t) ∈ (r.put key value).save) :
    (k, .text t) ∈ r.save ∨ t = stripQuotes value := by
  rw [Reader.put] at h
  split at h
  · rw [Reader.save] at h
    split at h
    · rename_i key' items same
      cases same
      split at h
      · exact .inl h
      · rcases List.mem_cons.mp h with same | h
        · cases same
        · exact .inl h
    · exact .inl h
  · split at h
    · rcases List.mem_cons.mp h with same | h
      · cases same
      · exact .inl h
    · rcases List.mem_cons.mp h with same | h
      · cases same
        exact .inr rfl
      · exact .inl h

theorem readPair_text {r : Reader} {trimmed : Text} {k t : Text}
    (h : (k, .text t) ∈ (r.readPair trimmed).save) :
    (k, .text t) ∈ r.save ∨ t <:+: trimmed := by
  rw [Reader.readPair] at h
  split at h
  · exact .inl h
  · rename_i front back split
    rcases put_text h with h | same
    · exact .inl h
    · right
      obtain ⟨rfl, -⟩ := splitOnce_eq_some_iff.mp split
      have part : jsTrim back <:+: front ++ ':' :: back :=
        (jsTrim_part back).trans ⟨front ++ [':'], [], by simp⟩
      rw [same]
      exact (stripQuotes_part _).trans part

/-- Every text that a line adds is a part of the line without the white space around it. -/
theorem readLine_text {r : Reader} {line : Text} {k t : Text}
    (h : (k, .text t) ∈ (r.readLine line).save) :
    (k, .text t) ∈ r.save ∨ t <:+: jsTrim line := by
  rw [Reader.readLine] at h
  split at h
  · exact .inl h
  · split at h
    · rename_i item key items _ pending
      split at h
      · exact readPair_text h
      · rename_i named
        left
        rw [Reader.save] at h ⊢
        rw [pending]
        simp only [if_neg named] at h ⊢
        rcases List.mem_cons.mp h with same | h
        · cases same
        · exact List.mem_cons_of_mem _ h
    · exact readPair_text h

theorem readAll_text {lines : List Text} {r : Reader} {k t : Text}
    (h : (k, .text t) ∈ (lines.foldl Reader.readLine r).save) :
    (k, .text t) ∈ r.save ∨ ∃ line ∈ lines, t <:+: jsTrim line := by
  induction lines generalizing r with
  | nil => exact .inl h
  | cons line lines ih =>
    rcases ih h with h | ⟨line', hline, part⟩
    · rcases readLine_text h with h | part
      · exact .inl h
      · exact .inr ⟨line, List.mem_cons_self, part⟩
    · exact .inr ⟨line', List.mem_cons_of_mem line hline, part⟩

theorem not_mem_of_mem_splitOn {c : Char} {t part : Text} (h : part ∈ t.splitOn c) : c ∉ part := by
  induction hn : t.length using Nat.strong_induction_on generalizing t with
  | _ n ih =>
    by_cases found : c ∈ t
    · obtain ⟨first, rest, rfl, free⟩ := List.eq_append_cons_of_mem found
      rw [List.splitOn_append_cons_self, List.splitOn_eq_singleton free] at h
      rcases List.mem_cons.mp h with rfl | h
      · exact free
      · refine ih rest.length ?_ h rfl
        rw [← hn, List.length_append, List.length_cons]
        omega
    · rw [List.splitOn_eq_singleton found, List.mem_singleton] at h
      rwa [h]

variable {scalar : Text → Text}

/-- A title that is written on one line is read from it. -/
theorem readTitle_of_oneLine {title v : Text} (oneLine : '\n' ∉ scalar title)
    (found : (readTitle scalar title).lookup "title".toList = some (.text v)) :
    v = readScalar (scalar title) := by
  have single : '\n' ∉ "title: ".toList ++ scalar title := by
    rw [List.mem_append]
    exact fun h => h.elim (by decide) oneLine
  have line : readTitle scalar title =
      (Reader.put ⟨[], none⟩ "title".toList (jsTrim (scalar title))).save := by
    rw [readTitle, readAll_single single]
    exact congrArg Reader.save
      (readLine_pair (by decide : IsKey "title".toList) ⟨[], none⟩ (' ' :: scalar title))
  rw [line] at found
  rcases put_text (mem_of_lookup found) with none | same
  · cases none
  · exact same

/-- What is read stands on one line. -/
theorem readTitle_noBreak {title v : Text}
    (found : (readTitle scalar title).lookup "title".toList = some (.text v)) : '\n' ∉ v := by
  rcases readAll_text (mem_of_lookup found) with none | ⟨line, hline, part⟩
  · cases none
  · exact fun h => not_mem_of_mem_splitOn hline ((part.trans (jsTrim_part line)).subset h)

variable {yaml : CardCodec} (writes : WritesCards yaml scalar)
include writes

/-- A title without special characters is read from its one line. What is read of another title has
none, or is longer, unless the title has several lines. -/
theorem reads_of_lookup {title v : Text}
    (found : (readTitle scalar title).lookup "title".toList = some (.text v)) : Reads scalar title v := by
  refine ⟨fun clean => ?_, fun unclean => ⟨readTitle_noBreak found, ?_⟩⟩
  · exact readTitle_of_oneLine ((writes.scalars title).isClean clean).oneLine found
  · cases writes.scalars title with
    | plain clean _ _ _ => exact absurd clean unclean
    | single clean _ => exact absurd clean unclean
    | separated more oneLine same =>
      refine .inr (.inl ?_)
      have single : '\n' ∉ scalar title := by
        rw [same]
        intro h
        rcases List.mem_cons.mp h with h | h
        · cases h
        · rcases List.mem_append.mp h with h | h
          · rcases mem_of_mem_indented (mem_of_mem_escape h) with h | h
            · exact oneLine h
            · cases h
          · cases List.mem_singleton.mp h
      have read := readTitle_of_oneLine single found
      rw [same, readScalar_quoted] at read
      rw [read, length_escape]
      exact Nat.lt_add_right _ (length_lt_indented more)
    | escaped _ clean =>
      rw [readTitle_of_oneLine clean.oneLine found]
      exact .inl (clean.of_part (readScalar_part _))
    | lines more => exact .inr (.inr more)

end Titles

section Cycles

/-- The title is written as it is, with nothing at its ends that a reader takes away, or between
apostrophes and without one. -/
def KeptTitle (scalar : Text → Text) (title : Text) : Prop :=
  IsClean title ∧
    ((scalar title = title ∧ jsTrim title = title ∧ ∀ c ∈ title.getLast?, isQuote c = false) ∨
      (scalar title = quoted title ∧ '\'' ∉ title))

theorem startsPlain_of_denotes {t : Text} (self : DenotesItself t) (nonempty : t ≠ []) :
    startsPlain t = true := by
  have line := self.1
  rw [isLineValue, Bool.or_eq_true, decide_eq_true_eq, Bool.and_eq_true] at line
  rcases line with empty | ⟨starts, -⟩
  · exact absurd empty nonempty
  · exact starts

/-- A text that denotes itself does not start with a quote mark. -/
theorem noQuote_of_denotes {c : Char} {rest : Text} (self : DenotesItself (c :: rest)) :
    isQuote c = false := by
  have starts := startsPlain_of_denotes self (List.cons_ne_nil c rest)
  have indicator : ∀ q, isIndicator q = true → q ∉ ['-', '?', ':'] → startsPlain (q :: rest) = false := by
    intro q sign other
    rw [startsPlain, sign, decide_eq_false other]
    simp
  rw [isQuote, decide_eq_false_iff_not]
  rintro (rfl | rfl)
  · rw [indicator '"' (by decide) (by decide)] at starts
    cases starts
  · rw [indicator '\'' (by decide) (by decide)] at starts
    cases starts

theorem dropQuote_of_head {t : Text} (free : ∀ c ∈ t.head?, isQuote c = false) : dropQuote t = t := by
  cases t with
  | nil => rfl
  | cons c rest => rw [dropQuote, free c rfl, if_neg (by simp)]

theorem dropQuote_eq_iff {t : Text} : dropQuote t = t ↔ ∀ c ∈ t.head?, isQuote c = false := by
  refine ⟨fun same c hc => ?_, dropQuote_of_head⟩
  cases t with
  | nil => cases hc
  | cons d rest =>
    obtain rfl : d = c := Option.some.inj hc
    cases quote : isQuote d with
    | false => rfl
    | true =>
      rw [dropQuote, quote, if_pos rfl] at same
      exact absurd (congrArg List.length same) (by simp)

/-- A text that denotes itself is read as it is, when it does not end in a quote mark or white
space. -/
theorem readScalar_eq_iff {t : Text} (self : DenotesItself t) :
    readScalar t = t ↔ jsTrim t = t ∧ ∀ c ∈ t.getLast?, isQuote c = false := by
  have front : dropQuote t = t := by
    cases t with
    | nil => rfl
    | cons c rest => exact dropQuote_of_head fun d hd => by cases hd; exact noQuote_of_denotes self
  constructor
  · intro same
    have shorter : t.length ≤ (jsTrim t).length := by
      conv_lhs => rw [← same]
      exact (stripQuotes_part _).length_le
    have trimmed : jsTrim t = t := (jsTrim_part t).eq_of_length_le shorter
    refine ⟨trimmed, ?_⟩
    rw [readScalar, trimmed, stripQuotes, front] at same
    have back : dropQuote t.reverse = t.reverse := List.reverse_eq_iff.mp same
    rw [dropQuote_eq_iff, List.head?_reverse] at back
    exact back
  · rintro ⟨trimmed, last⟩
    rw [readScalar, trimmed, stripQuotes, front, dropQuote_of_head (by rwa [List.head?_reverse]),
      List.reverse_reverse]

variable {yaml : CardCodec} {scalar : Text → Text} (writes : WritesCards yaml scalar)
include writes

/-- Dropping the quotes of a text that needed them would have left a text that needs none. -/
theorem scalar_of_escape {v : Text} (quote : '\'' ∈ v) (clean : IsClean v)
    (self : DenotesItself (escape v)) (inside : ¬ StartsDocument (escape v))
    (part : v <:+: escape v) : scalar v = v := by
  obtain ⟨a, b, whole⟩ := part
  have counts : a.count '\'' + b.count '\'' = v.count '\'' := by
    have twice := count_escape v
    rw [← whole, List.count_append, List.count_append] at twice
    omega
  have lengths : a.length + b.length = v.count '\'' := by
    have more := length_escape v
    rw [← whole, List.length_append, List.length_append] at more
    omega
  have small := List.count_le_length (a := '\'') (l := a)
  have small' := List.count_le_length (a := '\'') (l := b)
  have some : 0 < v.count '\'' := List.count_pos_iff.mpr quote
  have noFront : a = [] := by
    cases a with
    | nil => rfl
    | cons c a =>
      have all : (c :: a).count '\'' = (c :: a).length := by omega
      have first : '\'' = c := List.count_eq_length.mp all c List.mem_cons_self
      rw [← whole, List.append_assoc, List.cons_append, ← first] at self
      exact absurd (noQuote_of_denotes self) (by decide)
  subst noFront
  rw [List.nil_append] at whole
  -- What is left behind `v` are apostrophes, so `v` ends in one itself.
  have ends : ∃ w, v = w ++ ['\''] := by
    have nonempty : v ≠ [] := List.ne_nil_of_mem quote
    obtain ⟨w, z, rfl⟩ := (List.eq_nil_or_concat' v).resolve_left nonempty
    have lastB : b.getLast? = Option.some '\'' := by
      have all : b.count '\'' = b.length := by
        simp only [List.length_nil, List.count_nil] at counts lengths
        omega
      obtain ⟨b', y, rfl⟩ := (List.eq_nil_or_concat' b).resolve_left fun h => by
        subst h
        simp only [List.length_nil, List.count_nil] at counts lengths
        omega
      have last : '\'' = y := List.count_eq_length.mp all y (by simp)
      rw [← last, List.getLast?_concat]
    have lastE : (escape (w ++ [z])).getLast? = Option.some z := by
      rw [escape, List.flatMap_append, List.flatMap_singleton]
      split
      · rename_i same
        rw [same]
        simp
      · simp
    have lasts := congrArg List.getLast? whole
    rw [lastE, List.getLast?_append, lastB] at lasts
    refine ⟨w, ?_⟩
    rw [Option.some.inj lasts.symm]
  obtain ⟨w, rfl⟩ := ends
  rw [← whole, List.append_assoc, List.singleton_append] at self
  have nonempty : w ≠ [] := by
    rintro rfl
    exact absurd (noQuote_of_denotes self) (by decide)
  have part : w ++ ['\''] <+: escape (w ++ ['\'']) := ⟨b, whole⟩
  refine writes.apostrophes _ quote clean (denotesItself_of_append nonempty (by decide) (by decide) self) ?_
  intro starts
  exact inside (starts.imp (·.trans part) (·.trans part))

/-- A title that comes back after two readings has come back after one. -/
theorem keptTitle_of_reads {t u : Text} (first : Reads scalar t u) (second : Reads scalar u t) :
    KeptTitle scalar t := by
  have cleanOf : ∀ {a b : Text}, Reads scalar a b → IsClean a → IsClean b := by
    intro a b reads clean
    rw [reads.1 clean]
    exact ((writes.scalars a).isClean clean).of_part (readScalar_part _)
  have cleanT : IsClean t := by
    by_contra unclean
    have unclean' : ¬ IsClean u := fun clean => unclean (cleanOf second clean)
    obtain ⟨breakU, firstU⟩ := first.2 unclean
    obtain ⟨breakT, secondT⟩ := second.2 unclean'
    have longer := (firstU.resolve_left unclean').resolve_right breakT
    have longer' := (secondT.resolve_left unclean).resolve_right breakU
    omega
  have cleanU := cleanOf first cleanT
  have toU := first.1 cleanT
  have toT := second.1 cleanU
  refine ⟨cleanT, ?_⟩
  rcases (writes.scalars t).clean cleanT with ⟨plainT, selfT, insideT⟩ | quotedT
  · left
    rw [plainT] at toU
    have partU : u <:+: t := toU ▸ readScalar_part t
    have same : u = t := by
      rcases (writes.scalars u).clean cleanU with ⟨plainU, -, -⟩ | quotedU
      · rw [plainU] at toT
        have partT : t <:+: u := by
          conv_lhs => rw [toT]
          exact readScalar_part u
        exact partU.eq_of_length_le partT.length_le
      · rw [quotedU, readScalar_quoted] at toT
        by_cases quote : '\'' ∈ u
        · rw [toT] at selfT insideT partU
          have plainU := scalar_of_escape writes quote cleanU selfT insideT partU
          rw [plainU] at quotedU
          exact absurd quotedU.symm (quoted_ne u)
        · rw [toT, escape_eq_iff.mpr quote]
    rw [same] at toU
    exact ⟨plainT, (readScalar_eq_iff selfT).mp toU.symm⟩
  · right
    refine ⟨quotedT, fun quote => ?_⟩
    rw [quotedT, readScalar_quoted] at toU
    rcases (writes.scalars u).clean cleanU with ⟨plainU, selfU, insideU⟩ | quotedU
    · rw [plainU] at toT
      have partT : t <:+: u := by
        conv_lhs => rw [toT]
        exact readScalar_part u
      rw [toU] at selfU insideU partT
      have plainT := scalar_of_escape writes quote cleanT selfU insideU partT
      rw [plainT] at quotedT
      exact quoted_ne t quotedT.symm
    · rw [quotedU, readScalar_quoted, toU] at toT
      have once := length_escape t
      have twice := length_escape (escape t)
      have some : 0 < t.count '\'' := List.count_pos_iff.mpr quote
      rw [← toT] at twice
      omega

theorem KeptTitle.reads {t v : Text} (kept : KeptTitle scalar t) (reads : Reads scalar t v) : v = t := by
  obtain ⟨clean, plain | ⟨quotedT, free⟩⟩ := kept
  · obtain ⟨plainT, trimmed, last⟩ := plain
    rcases (writes.scalars t).clean clean with ⟨-, self, -⟩ | quotedT
    · rw [reads.1 clean, plainT]
      exact (readScalar_eq_iff self).mpr ⟨trimmed, last⟩
    · rw [plainT] at quotedT
      exact absurd quotedT.symm (quoted_ne t)
  · rw [reads.1 clean, quotedT, readScalar_quoted, escape_eq_iff.mpr free]

end Cycles

section Metas

theorem label_of_valid {labels seen : List Text} (valid : validateLabelsFrom seen labels = .ok ()) :
    ∀ l ∈ labels, l ≠ [] ∧ ∀ c ∈ l, isLabelChar c = true := by
  induction labels generalizing seen with
  | nil => exact fun l hl => by cases hl
  | cons l labels ih =>
    obtain ⟨first, rest⟩ := then_eq_ok_iff.mp valid
    obtain ⟨-, rest⟩ := then_eq_ok_iff.mp rest
    exact List.forall_mem_cons.mpr ⟨word_of_label first, ih rest⟩

/-- What the checks of a card say about the texts in it. -/
structure Checked (info : CardMeta) : Prop where
  channel : IsWord info.channel
  createdBy : IsWord info.createdBy
  assignee : ∀ a, info.assignee = some a → IsWord a
  labels : ∀ l ∈ info.labels, l ≠ [] ∧ ∀ c ∈ l, isLabelChar c = true
  createdAt : IsWord info.createdAt
  updatedAt : IsWord info.updatedAt

theorem handler_of_valid {name : Text} (valid : validateHandler name = .ok ()) : IsWord name := by
  apply word_of_handler
  cases h : handlerError name with
  | none => rfl
  | some e =>
    rw [validateHandler, h] at valid
    cases valid

theorem timestamp_of_valid {t : Text} (valid : validateTimestamp t = .ok ()) : IsWord t :=
  word_of_timestamp (by simpa using refuse_eq_ok_iff.mp valid)

theorem checked_of_valid {info : CardMeta} (valid : validateCardMeta info = .ok ()) : Checked info := by
  obtain ⟨-, valid⟩ := then_eq_ok_iff.mp valid
  obtain ⟨channel, valid⟩ := then_eq_ok_iff.mp valid
  obtain ⟨createdBy, valid⟩ := then_eq_ok_iff.mp valid
  obtain ⟨assignee, valid⟩ := then_eq_ok_iff.mp valid
  obtain ⟨labels, valid⟩ := then_eq_ok_iff.mp valid
  obtain ⟨createdAt, updatedAt⟩ := then_eq_ok_iff.mp valid
  refine ⟨word_of_channel ?_, handler_of_valid createdBy, fun a ha => ?_, ?_,
    timestamp_of_valid createdAt, timestamp_of_valid updatedAt⟩
  · cases h : channelNameError info.channel with
    | none => rfl
    | some e =>
      rw [checkChannelName, h] at channel
      cases channel
  · exact handler_of_valid (checkSome_eq_ok_iff.mp assignee a ha)
  · have each := mapError_eq_ok_iff.mp labels
    obtain ⟨-, each⟩ := then_eq_ok_iff.mp each
    exact label_of_valid each

def fieldsBehind (scalar : Text → Text) (info : CardMeta) : JsObject :=
  (info.archivedVia.map fun via => ("archived_via".toList, JsValue.text via.asStr)).toList ++
    [("updated_at".toList, .text info.updatedAt), ("created_at".toList, .text info.createdAt),
      ("created_by".toList, .text info.createdBy),
      ("assignee".toList, .text (info.assignee.getD "null".toList)),
      ("labels".toList, .list (info.labels.map scalar)),
      ("status".toList, .text info.status.asStr), ("channel".toList, .text info.channel)]

theorem status_bare (s : CardStatus) :
    IsWord s.asStr ∧ DenotesItself s.asStr ∧ ¬ StartsDocument s.asStr := by
  cases s <;> exact ⟨by decide, by decide, by decide⟩

theorem via_bare (via : ArchivedVia) :
    IsWord via.asStr ∧ DenotesItself via.asStr ∧ ¬ StartsDocument via.asStr := by
  cases via <;> exact ⟨by decide, by decide, by decide⟩

variable {yaml : CardCodec} {scalar : Text → Text} (writes : WritesCards yaml scalar)
include writes

theorem readAll_assignee {info : CardMeta} (checked : Checked info) (r : Reader) (rest : Text) :
    r.readAll (field "assignee" ((info.assignee.map scalar).getD "null".toList) ++ rest) =
      (⟨("assignee".toList, .text (info.assignee.getD "null".toList)) :: r.save, none⟩ :
        Reader).readAll rest := by
  cases h : info.assignee with
  | none =>
    have word : IsWord "null".toList := by decide
    exact readAll_bare (by decide : IsKey "assignee".toList) word (by decide) (by decide) r rest
  | some a => exact readAll_word writes (by decide : IsKey "assignee".toList) (checked.assignee a h) r rest

/-- The client reads every field but the title as it was written; an assignee that is null has a
name. -/
theorem parseYaml_toStr {info : CardMeta} (checked : Checked info) :
    parseYaml (yaml.toStr info) = fieldsBehind scalar info ++ readTitle scalar info.title := by
  have title : ∀ rest, Reader.readAll ⟨[], none⟩ (field "title" (scalar info.title) ++ rest) =
      (Reader.readAll ⟨[], none⟩ ("title: ".toList ++ scalar info.title)).readAll rest := by
    intro rest
    have split : field "title" (scalar info.title) ++ rest =
        ("title: ".toList ++ scalar info.title) ++ '\n' :: rest := by
      simp [field]
    rw [split, readAll_line]
  obtain ⟨selfStatus, denotes, inside⟩ := status_bare info.status
  rw [writes.layout, parseYaml, document, title, readAll_word writes (by decide) checked.channel,
    readAll_bare (by decide) selfStatus denotes inside]
  obtain ⟨r, read, saved⟩ := readAll_labels writes checked.labels _ _
  rw [read, readAll_assignee writes checked, readAll_word writes (by decide) checked.createdBy,
    readAll_word writes (by decide) checked.createdAt, readAll_word writes (by decide) checked.updatedAt,
    saved]
  cases h : info.archivedVia with
  | none =>
    simp only [fieldsBehind, h]
    rfl
  | some via =>
    obtain ⟨selfVia, denotes, inside⟩ := via_bare via
    have last := readAll_bare (by decide : IsKey "archived_via".toList) selfVia denotes inside
    simp only [fieldsBehind, h]
    rw [← List.append_nil (field "archived_via" via.asStr), last]
    rfl

end Metas

section Rewriting

/-- `{ ...card, archived_via: "channel" }`. -/
def stamped (card : JsObject) : JsObject := ("archived_via".toList, .text "channel".toList) :: card

/-- `delete card.archived_via`. -/
def cleaned (card : JsObject) : JsObject := card.filter fun e => e.1 ≠ "archived_via".toList

/-- The metadata behind a reading of the client: the title and the labels as they were read, and a
name for a missing assignee. -/
def asRead (info : CardMeta) (title : Text) (labels : List Text) (via : Option ArchivedVia) : CardMeta :=
  { info with
    title := title
    labels := labels
    assignee := some (info.assignee.getD "null".toList)
    archivedVia := via }

theorem fromValue_fields {card : JsObject} {info : CardMeta} {labels : List Text}
    {via : Option ArchivedVia}
    (channel : card.lookup "channel".toList = some (.text info.channel))
    (status : card.lookup "status".toList = some (.text info.status.asStr))
    (labelled : card.lookup "labels".toList = some (.list labels))
    (assignee : card.lookup "assignee".toList = some (.text (info.assignee.getD "null".toList)))
    (createdBy : card.lookup "created_by".toList = some (.text info.createdBy))
    (createdAt : card.lookup "created_at".toList = some (.text info.createdAt))
    (updatedAt : card.lookup "updated_at".toList = some (.text info.updatedAt))
    (archived : archivedViaField card = some via) :
    fromValue card = (textField card "title").map fun title => asRead info title labels via := by
  have parsed : (CardStatus.parse info.status.asStr).toOption = some info.status := by
    rw [CardStatus.parse_asStr]
    rfl
  simp only [fromValue, textField, labelsField, assigneeField, channel, status, labelled, assignee,
    createdBy, createdAt, updatedAt, archived, parsed, Option.bind_eq_bind, Option.bind_some]
  cases card.lookup "title".toList with
  | none => rfl
  | some value => cases value <;> rfl

variable {yaml : CardCodec} {scalar : Text → Text}

theorem lookup_behind (scalar : Text → Text) (info : CardMeta) (base : JsObject) :
    let card := fieldsBehind scalar info ++ base
    card.lookup "channel".toList = some (.text info.channel) ∧
      card.lookup "status".toList = some (.text info.status.asStr) ∧
      card.lookup "labels".toList = some (.list (info.labels.map scalar)) ∧
      card.lookup "assignee".toList = some (.text (info.assignee.getD "null".toList)) ∧
      card.lookup "created_by".toList = some (.text info.createdBy) ∧
      card.lookup "created_at".toList = some (.text info.createdAt) ∧
      card.lookup "updated_at".toList = some (.text info.updatedAt) ∧
      card.lookup "title".toList = base.lookup "title".toList := by
  cases h : info.archivedVia with
  | none =>
    simp only [fieldsBehind, h]
    exact ⟨rfl, rfl, rfl, rfl, rfl, rfl, rfl, rfl⟩
  | some via =>
    simp only [fieldsBehind, h]
    exact ⟨rfl, rfl, rfl, rfl, rfl, rfl, rfl, rfl⟩

theorem lookup_cleaned {card : JsObject} {key : Text} (other : key ≠ "archived_via".toList) :
    (cleaned card).lookup key = card.lookup key := by
  rw [cleaned, lookup_filter_key (fun k => k ≠ "archived_via".toList), if_pos other]

theorem fromValue_stamped (info : CardMeta) (base : JsObject) :
    fromValue (stamped (fieldsBehind scalar info ++ base)) = (textField base "title").map fun title =>
      asRead info title (info.labels.map scalar) (some .channel) := by
  obtain ⟨channel, status, labels, assignee, createdBy, createdAt, updatedAt, title⟩ :=
    lookup_behind scalar info base
  have same : textField (stamped (fieldsBehind scalar info ++ base)) "title" = textField base "title" := by
    rw [textField, textField, ← title]
    rfl
  rw [← same]
  exact fromValue_fields channel status labels assignee createdBy createdAt updatedAt rfl

theorem fromValue_cleaned (info : CardMeta) (base : JsObject) :
    fromValue (cleaned (fieldsBehind scalar info ++ base)) = (textField base "title").map fun title =>
      asRead info title (info.labels.map scalar) none := by
  obtain ⟨channel, status, labels, assignee, createdBy, createdAt, updatedAt, title⟩ :=
    lookup_behind scalar info base
  have keep : ∀ {key : Text}, key ≠ "archived_via".toList →
      (cleaned (fieldsBehind scalar info ++ base)).lookup key =
        (fieldsBehind scalar info ++ base).lookup key := fun other => lookup_cleaned other
  have same : textField (cleaned (fieldsBehind scalar info ++ base)) "title" = textField base "title" := by
    rw [textField, textField, keep (by decide), title]
  have gone : archivedViaField (cleaned (fieldsBehind scalar info ++ base)) = some none := by
    rw [archivedViaField, cleaned, lookup_filter_key (fun k => k ≠ "archived_via".toList),
      if_neg (by simp)]
  rw [← same]
  exact fromValue_fields (by rw [keep (by decide), channel]) (by rw [keep (by decide), status])
    (by rw [keep (by decide), labels]) (by rw [keep (by decide), assignee])
    (by rw [keep (by decide), createdBy]) (by rw [keep (by decide), createdAt])
    (by rw [keep (by decide), updatedAt]) gone

variable (writes : WritesCards yaml scalar)
include writes

/-- Labels that were written with quotes are refused, so an accepted list is the one written. -/
theorem labels_unquoted {labels : List Text}
    (valid : ∀ l ∈ labels, l ≠ [] ∧ ∀ c ∈ l, isLabelChar c = true)
    (read : ∀ l ∈ labels.map scalar, l ≠ [] ∧ ∀ c ∈ l, isLabelChar c = true) :
    labels.map scalar = labels := by
  conv_rhs => rw [← List.map_id labels]
  apply List.map_congr_left
  intro l hl
  have word : IsWord l := ⟨(valid l hl).1, fun c hc => wordChar_of_labelChar ((valid l hl).2 c hc)⟩
  rcases (writes.scalars l).clean word.isClean with ⟨same, -, -⟩ | quoted
  · exact same
  · have chars := (read _ (List.mem_map_of_mem hl)).2
    rw [quoted] at chars
    exact absurd (chars '\'' List.mem_cons_self) (by decide)

theorem stringify_reads (rewrite : JsObject → JsObject) (via : Option ArchivedVia) {refusal : Text}
    {info : CardMeta} (valid : validateCardMeta info = .ok ())
    (rewritten : ∀ base, fromValue (rewrite (fieldsBehind scalar info ++ base)) =
      (textField base "title").map fun title =>
        asRead info title (info.labels.map scalar) via)
    {text : Text}
    (h : stringifyCardMeta yaml refusal (rewrite (parseYaml (yaml.toStr info))) = .ok text) :
    ∃ title, Reads scalar info.title title ∧ text = yaml.toStr (asRead info title info.labels via) ∧
      validateCardMeta (asRead info title info.labels via) = .ok () := by
  have checked := checked_of_valid valid
  rw [parseYaml_toStr writes checked, stringifyCardMeta, rewritten] at h
  cases found : textField (readTitle scalar info.title) "title" with
  | none =>
    rw [found] at h
    cases h
  | some title =>
    rw [found] at h
    obtain ⟨accepted, same⟩ := then_eq_ok_iff.mp h
    have unquoted := labels_unquoted writes checked.labels (checked_of_valid accepted).labels
    rw [unquoted] at accepted same
    have lookup : (readTitle scalar info.title).lookup "title".toList = some (.text title) := by
      rw [textField] at found
      split at found
      · rename_i t h
        rw [h, Option.some.inj found]
      · cases found
    exact ⟨title, reads_of_lookup writes lookup, (Except.ok.inj same).symm, accepted⟩

end Rewriting

end WebCardTitles
