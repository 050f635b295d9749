import GitIM.Cards
import GitIM.WebJoins

/-!
# Card metadata in the web client

The web client reads the metadata of a card line by line with a parser of its own, and writes it
with the daemon's serializer. The parser takes a value as it stands on its line, less one quote mark
at each end; the serializer quotes where YAML needs it. Words need no quotes in either.
-/

namespace WebCardYaml

open TextLines TextScan FileTree Checked ThreadFormat Channels Cards WebStrings PlainYaml
open WebJoins (JsValue)

section Reader

def isQuote (c : Char) : Bool := c = '"' ∨ c = '\''

def dropQuote : Text → Text
  | [] => []
  | c :: rest => if isQuote c then rest else c :: rest

/-- One quote mark in front and one at the end go. -/
def stripQuotes (value : Text) : Text := (dropQuote (dropQuote value).reverse).reverse

abbrev JsObject := List (Text × JsValue)

/-- What was read, the last entry first, and the list that is still open under its key. -/
structure Reader where
  result : JsObject
  pending : Option (Text × List Text)

/-- The empty key counts as none. -/
def Reader.save (r : Reader) : JsObject :=
  match r.pending with
  | some (key, items) => if key = [] then r.result else (key, .list items) :: r.result
  | none => r.result

def Reader.put (r : Reader) (key value : Text) : Reader :=
  if value = [] then ⟨r.save, some (key, [])⟩
  else if value = "[]".toList then ⟨(key, .list []) :: r.save, none⟩
  else ⟨(key, .text (stripQuotes value)) :: r.save, none⟩

def Reader.readPair (r : Reader) (trimmed : Text) : Reader :=
  match splitOnce ':' trimmed with
  | none => r
  | some (front, back) => r.put (jsTrim front) (jsTrim back)

def Reader.readLine (r : Reader) (line : Text) : Reader :=
  let trimmed := jsTrim line
  if trimmed = [] ∨ trimmed.head? = some '#' then r
  else
    match stripPrefix "- ".toList trimmed, r.pending with
    | some item, some (key, items) =>
      if key = [] then r.readPair trimmed else { r with pending := some (key, items ++ [jsTrim item]) }
    | _, _ => r.readPair trimmed

def Reader.readAll (r : Reader) (text : Text) : Reader := (text.splitOn '\n').foldl Reader.readLine r

def parseYaml (yaml : Text) : JsObject := (Reader.readAll ⟨[], none⟩ yaml).save

end Reader

section Wasm

def textField (card : JsObject) (key : String) : Option Text :=
  match card.lookup key.toList with
  | some (.text t) => some t
  | _ => none

def labelsField (card : JsObject) : Option (List Text) :=
  match card.lookup "labels".toList with
  | none => some []
  | some (.list ts) => some ts
  | some (.text _) => none

def assigneeField (card : JsObject) : Option (Option Text) :=
  match card.lookup "assignee".toList with
  | none => some none
  | some (.text t) => some (some t)
  | some (.list _) => none

def archivedViaField (card : JsObject) : Option (Option ArchivedVia) :=
  match card.lookup "archived_via".toList with
  | none => some none
  | some (.text t) =>
    if t = "channel".toList then some (some .channel)
    else if t = "manual".toList then some (some .manual) else none
  | some (.list _) => none

/-- The derived deserializer over the object. -/
def fromValue (card : JsObject) : Option CardMeta := do
  let title ← textField card "title"
  let channel ← textField card "channel"
  let status ← (textField card "status").bind fun t => (CardStatus.parse t).toOption
  let labels ← labelsField card
  let assignee ← assigneeField card
  let createdBy ← textField card "created_by"
  let createdAt ← textField card "created_at"
  let updatedAt ← textField card "updated_at"
  let archivedVia ← archivedViaField card
  some ⟨title, channel, status, labels, assignee, createdBy, createdAt, updatedAt, archivedVia⟩

def isTimestamp (t : Text) : Bool :=
  t.length = 16 ∧ (t.take 8).all Char.isDigit ∧ t[8]? = some 'T' ∧
    ((t.drop 9).take 6).all Char.isDigit ∧ t[15]? = some 'Z'

def validateHandler (handler : Text) : Except Text Unit :=
  checkSome (handlerError handler) fun e => .error ("invalid handler: ".toList ++ handlerErrorText e)

def validateTimestamp (t : Text) : Except Text Unit :=
  refuse (isTimestamp t = false) ("invalid timestamp '".toList ++ (t ++ ['\'']))

def validateCardMeta (info : CardMeta) : Except Text Unit := do
  refuse (trim info.title = []) "title cannot be empty".toList
  checkChannelName info.channel
  validateHandler info.createdBy
  checkSome info.assignee validateHandler
  (validateLabels info.labels cardMaxLabels).mapError LabelError.text
  validateTimestamp info.createdAt
  validateTimestamp info.updatedAt

variable (yaml : CardCodec)

def stringifyCardMeta (refusal : Text) (card : JsObject) : Except Text Text :=
  match fromValue card with
  | none => .error refusal
  | some info => do
    validateCardMeta info
    .ok (yaml.toStr info)

end Wasm

section Writer

/-- The characters that YAML writes only as an escape or not at all on one line. -/
def isSpecial (c : Char) : Bool := !isPrintable c || isBreak c || c.toNat ∈ [0x9, 0xfeff]

def escape (t : Text) : Text := t.flatMap fun c => if c = '\'' then ['\'', '\''] else [c]

def quoted (t : Text) : Text := '\'' :: (escape t ++ ['\''])

def StartsDocument (t : Text) : Prop := "---".toList <+: t ∨ "...".toList <+: t

instance (t : Text) : Decidable (StartsDocument t) := inferInstanceAs (Decidable (_ ∨ _))

def IsClean (t : Text) : Prop := ∀ c ∈ t, isSpecial c = false

instance (t : Text) : Decidable (IsClean t) := List.decidableBAll (fun c => isSpecial c = false) t

/-- The separators of lines and of paragraphs. -/
def isSeparator (c : Char) : Bool := c.toNat ∈ [0x2028, 0x2029]

/-- A run of separators breaks the line, and the indentation follows it. -/
def indented : Text → Text
  | [] => []
  | c :: rest =>
    if isSeparator c && !rest.head?.any isSeparator then c :: ' ' :: ' ' :: indented rest
    else c :: indented rest

/-- How the text of a scalar may be written: as it is, between apostrophes, there with its separators
as line breaks, or between double quotes with its special characters as escapes. How a text with line
feeds is laid out is left open. -/
inductive Written (t s : Text) : Prop where
  | plain (clean : IsClean t) (self : DenotesItself t) (inside : ¬ StartsDocument t) (same : s = t)
  | single (clean : IsClean t) (same : s = quoted t)
  | separated (found : ∃ c ∈ t, isSeparator c = true) (oneLine : '\n' ∉ t)
      (same : s = quoted (indented t))
  | escaped (found : ∃ c ∈ t, isSpecial c = true) (clean : IsClean s)
  | lines (found : '\n' ∈ t)

def field (key : String) (value : Text) : Text := key.toList ++ (": ".toList ++ (value ++ ['\n']))

variable (scalar : Text → Text)

def labelLines (labels : List Text) : Text :=
  if labels = [] then "labels: []\n".toList
  else "labels:\n".toList ++ labels.flatMap fun l => "- ".toList ++ (scalar l ++ ['\n'])

/-- The block mapping of the fields, in the order of the type. -/
def document (info : CardMeta) : Text :=
  field "title" (scalar info.title) ++ (field "channel" (scalar info.channel) ++
    (field "status" info.status.asStr ++ (labelLines scalar info.labels ++
      (field "assignee" ((info.assignee.map scalar).getD "null".toList) ++
        (field "created_by" (scalar info.createdBy) ++ (field "created_at" (scalar info.createdAt) ++
          (field "updated_at" (scalar info.updatedAt) ++
            (match info.archivedVia with
            | none => []
            | some via => field "archived_via" via.asStr))))))))

/-- The serializer writes block mappings that the daemon reads back. A text that denotes itself and
holds an apostrophe spells no number and no word of YAML, and stays without quotes. -/
structure WritesCards (yaml : CardCodec) (scalar : Text → Text) : Prop where
  layout : ∀ info, yaml.toStr info = document scalar info
  scalars : ∀ t, Written t (scalar t)
  apostrophes : ∀ t, '\'' ∈ t → IsClean t → DenotesItself t → ¬ StartsDocument t → scalar t = t
  reads : ∀ info, yaml.fromStr (yaml.toStr info) = some info

end Writer

section Lines

def IsKey (key : Text) : Prop := key ≠ [] ∧ ∀ c ∈ key, isKeyChar c = true

instance (key : Text) : Decidable (IsKey key) :=
  @instDecidableAnd _ _ _ (List.decidableBAll (fun c => isKeyChar c = true) key)

theorem keyChar_range {c : Char} (h : isKeyChar c = true) :
    (97 ≤ c.toNat ∧ c.toNat ≤ 122) ∨ c.toNat = 95 := by
  rw [isKeyChar, Bool.or_eq_true] at h
  rcases h with lower | underscore
  · left
    have bounds : (decide (c.val ≥ 97) && decide (c.val ≤ 122)) = true := lower
    simpa [UInt32.le_iff_toNat_le, ← Char.toNat_val] using bounds
  · right
    rw [decide_eq_true_eq] at underscore
    rw [underscore]
    rfl

theorem keyChar_solid {c : Char} (h : isKeyChar c = true) : isJsSpace c = false := by
  have range := keyChar_range h
  rw [isJsSpace, decide_eq_false_iff_not]
  simp only [List.mem_cons, List.not_mem_nil, or_false]
  omega

theorem ne_of_keyChar {c d : Char} (h : isKeyChar c = true) (other : isKeyChar d = false) : c ≠ d := by
  rintro rfl
  rw [h] at other
  cases other

/-- A line with a key is taken apart at the first colon. -/
theorem readLine_pair {key : Text} (word : IsKey key) (r : Reader) (w : Text) :
    r.readLine (key ++ ':' :: w) = r.put key (jsTrim w) := by
  obtain ⟨nonempty, chars⟩ := word
  obtain ⟨c, rest, rfl⟩ := List.exists_cons_of_ne_nil nonempty
  have first := chars c List.mem_cons_self
  have trimmed : jsTrim (c :: rest ++ ':' :: w) = c :: (rest ++ ':' :: jsTrimEnd w) := by
    rw [List.cons_append]
    refine (jsTrim_append_cons (a := []) (by simp) (keyChar_solid first) _).trans ?_
    rw [jsTrimEnd_append_cons (by decide)]
  have noHash : c ≠ '#' := ne_of_keyChar first (by decide)
  have noDash : stripPrefix "- ".toList (c :: (rest ++ ':' :: jsTrimEnd w)) = none := by
    rw [Option.eq_none_iff_forall_ne_some]
    intro more h
    exact ne_of_keyChar first (by decide : isKeyChar '-' = false)
      (List.cons.inj (stripPrefix_eq_some_iff.mp h)).1
  have noColon : ':' ∉ c :: rest := fun h => ne_of_keyChar (chars _ h) (by decide) rfl
  have pair : splitOnce ':' (c :: (rest ++ ':' :: jsTrimEnd w)) = some (c :: rest, jsTrimEnd w) :=
    splitOnce_eq_some_iff.mpr ⟨rfl, noColon⟩
  have whole : jsTrim (c :: rest) = c :: rest := jsTrim_of_free fun d hd => keyChar_solid (chars d hd)
  rw [Reader.readLine, trimmed, if_neg (by simpa using noHash), noDash]
  simp only [Reader.readPair, pair, whole, jsTrim_trimEnd]

theorem readAll_line (r : Reader) (line rest : Text) :
    r.readAll (line ++ '\n' :: rest) = (r.readAll line).readAll rest := by
  rw [Reader.readAll, List.splitOn_append_cons_self, List.foldl_append]
  rfl

theorem readAll_single {line : Text} (oneLine : '\n' ∉ line) (r : Reader) :
    r.readAll line = r.readLine line := by
  have single : line.splitOn '\n' = [line] := List.splitOn_eq_singleton oneLine
  rw [Reader.readAll, single]
  rfl

end Lines

section Words

/-- The characters of handlers, of names of channels, of labels and of timestamps. -/
def isWordChar (c : Char) : Bool :=
  (97 ≤ c.toNat ∧ c.toNat ≤ 122) ∨ (48 ≤ c.toNat ∧ c.toNat ≤ 57) ∨ c.toNat ∈ [45, 84, 90, 95]

def IsWord (t : Text) : Prop := t ≠ [] ∧ ∀ c ∈ t, isWordChar c = true

instance (t : Text) : Decidable (IsWord t) :=
  @instDecidableAnd _ _ _ (List.decidableBAll (fun c => isWordChar c = true) t)

theorem wordChar_ordinary {c : Char} (h : isWordChar c = true) :
    isJsSpace c = false ∧ isSpecial c = false ∧ c.toNat ≠ 39 ∧ c.toNat ≠ 34 ∧ c.toNat ≠ 91 ∧
      c.toNat ≠ 10 := by
  rw [isWordChar, decide_eq_true_eq] at h
  simp only [List.mem_cons, List.not_mem_nil, or_false] at h
  refine ⟨?_, ?_, by omega, by omega, by omega, by omega⟩
  · rw [isJsSpace, decide_eq_false_iff_not]
    simp only [List.mem_cons, List.not_mem_nil, or_false]
    omega
  · simp only [isSpecial, isPrintable, isBreak, Bool.or_eq_false_iff, Bool.not_eq_false',
      decide_eq_true_eq, decide_eq_false_iff_not, List.mem_cons, List.not_mem_nil, or_false]
    omega

theorem wordChar_of_handlerChar {c : Char} (h : isHandlerChar c = true) : isWordChar c = true := by
  have range := ThreadRoundTrip.handlerChar_range h
  rw [isWordChar, decide_eq_true_eq]
  simp only [List.mem_cons, List.not_mem_nil, or_false]
  omega

theorem wordChar_of_labelChar {c : Char} (h : isLabelChar c = true) : isWordChar c = true := by
  have range : ('a' ≤ c ∧ c ≤ 'z') ∨ ('0' ≤ c ∧ c ≤ '9') ∨ c = '-' ∨ c = '_' := of_decide_eq_true h
  rw [isWordChar, decide_eq_true_eq]
  simp only [List.mem_cons, List.not_mem_nil, or_false]
  rcases range with lower | digit | rfl | rfl
  · exact .inl lower
  · exact .inr (.inl digit)
  · exact .inr (.inr (.inl rfl))
  · exact .inr (.inr (.inr (.inr (.inr rfl))))

theorem word_of_handler {name : Text} (h : handlerError name = none) : IsWord name := by
  obtain ⟨chars, long⟩ := ThreadRoundTrip.handler_chars ⟨name, .inl h⟩
  exact ⟨List.length_pos_iff.mp long,
    fun c hc => wordChar_of_handlerChar (List.all_eq_true.mp chars c hc)⟩

theorem word_of_channel {name : Text} (h : channelNameError name = none) : IsWord name := by
  rw [channelNameError] at h
  split at h
  · cases h
  · rename_i nonempty
    refine ⟨nonempty, fun c hc => ?_⟩
    split at h
    · cases h
    · split at h
      · cases h
      · rename_i found
        have all := List.find?_eq_none.mp found c hc
        exact wordChar_of_handlerChar (by simpa using all)

theorem word_of_label {label : Text} (h : validateLabel label = .ok ()) :
    label ≠ [] ∧ ∀ c ∈ label, isLabelChar c = true := by
  rw [validateLabel] at h
  split at h
  · cases h
  · rename_i bounds
    refine ⟨fun empty => bounds (.inl empty), fun c hc => ?_⟩
    split at h
    · cases h
    · rename_i found
      have all := List.find?_eq_none.mp found c hc
      simpa using all

theorem word_of_timestamp {t : Text} (h : isTimestamp t = true) : IsWord t := by
  obtain ⟨long, date, middle, clock, final⟩ := of_decide_eq_true h
  have digit : ∀ c : Char, c.isDigit = true → isWordChar c = true := fun c hc =>
    wordChar_of_handlerChar (by rw [isHandlerChar, hc, Bool.or_true, Bool.true_or])
  refine ⟨List.length_pos_iff.mp (by omega), fun c hc => ?_⟩
  obtain ⟨i, hi, rfl⟩ := List.mem_iff_getElem.mp hc
  have front : ∀ (n : Nat) (u : Text), u.all Char.isDigit = true → u[n]? = some t[i] →
      isWordChar t[i] = true := fun n u all found =>
    digit _ (List.all_eq_true.mp all _ (List.mem_of_getElem? found))
  rcases Nat.lt_or_ge i 8 with early | late
  · exact front i _ date (by rw [List.getElem?_take, if_pos early, List.getElem?_eq_getElem hi])
  · rcases Nat.eq_or_lt_of_le late with rfl | late
    · rw [List.getElem?_eq_getElem hi] at middle
      rw [Option.some.inj middle]
      decide
    · rcases Nat.lt_or_ge i 15 with mid | last
      · refine front (i - 9) _ clock ?_
        rw [List.getElem?_take, if_pos (by omega), List.getElem?_drop, Nat.add_sub_cancel' (by omega),
          List.getElem?_eq_getElem hi]
      · obtain rfl : i = 15 := by omega
        rw [List.getElem?_eq_getElem hi] at final
        rw [Option.some.inj final]
        decide

end Words

section Scalars

def readScalar (value : Text) : Text := stripQuotes (jsTrim value)

theorem length_escape (t : Text) : (escape t).length = t.length + t.count '\'' := by
  induction t with
  | nil => rfl
  | cons c t ih =>
    have step : escape (c :: t) = (if c = '\'' then ['\'', '\''] else [c]) ++ escape t := rfl
    rw [step, List.length_append, ih]
    by_cases quote : c = '\''
    · subst quote
      rw [if_pos rfl, List.count_cons_self]
      simp only [List.length_cons, List.length_nil]
      omega
    · rw [if_neg quote, List.count_cons_of_ne quote]
      simp only [List.length_cons, List.length_nil]
      omega

theorem count_escape (t : Text) : (escape t).count '\'' = 2 * t.count '\'' := by
  induction t with
  | nil => rfl
  | cons c t ih =>
    have step : escape (c :: t) = (if c = '\'' then ['\'', '\''] else [c]) ++ escape t := rfl
    rw [step, List.count_append, ih]
    by_cases quote : c = '\''
    · have two : List.count '\'' ['\'', '\''] = 2 := rfl
      have more : (c :: t).count '\'' = t.count '\'' + 1 := by rw [quote, List.count_cons_self]
      rw [if_pos quote, two, more]
      omega
    · have none : List.count '\'' [c] = 0 := List.count_cons_of_ne quote
      rw [if_neg quote, none, List.count_cons_of_ne quote]
      omega

theorem escape_eq_iff {t : Text} : escape t = t ↔ '\'' ∉ t := by
  constructor
  · intro same quote
    have more := length_escape t
    have some : 0 < t.count '\'' := List.count_pos_iff.mpr quote
    rw [same] at more
    omega
  · intro free
    induction t with
    | nil => rfl
    | cons c t ih =>
      have step : escape (c :: t) = (if c = '\'' then ['\'', '\''] else [c]) ++ escape t := rfl
      have other : c ≠ '\'' := fun h => free (h ▸ List.mem_cons_self)
      rw [step, if_neg other, ih fun h => free (List.mem_cons_of_mem c h)]
      rfl

theorem mem_of_mem_escape {t : Text} {c : Char} (h : c ∈ escape t) : c ∈ t := by
  obtain ⟨d, hd, hc⟩ := List.mem_flatMap.mp h
  split at hc
  · rename_i quote
    simp only [List.mem_cons, List.not_mem_nil, or_false, or_self] at hc
    rwa [hc, ← quote]
  · rwa [List.mem_singleton.mp hc]

theorem length_quoted (t : Text) : (quoted t).length = t.length + t.count '\'' + 2 := by
  rw [quoted, List.length_cons, List.length_append, length_escape]
  rfl

theorem quoted_ne (t : Text) : quoted t ≠ t := by
  intro same
  have more := length_quoted t
  rw [same] at more
  omega

theorem jsTrim_quoted (t : Text) : jsTrim (quoted t) = quoted t := by
  have solid : isJsSpace '\'' = false := by decide
  refine (jsTrim_append_cons (a := []) (by simp) solid _).trans ?_
  rw [jsTrimEnd_append_cons solid]
  rfl

theorem readScalar_quoted (t : Text) : readScalar (quoted t) = escape t := by
  have quote : isQuote '\'' = true := by decide
  rw [readScalar, jsTrim_quoted, stripQuotes, quoted, dropQuote, if_pos quote, List.reverse_append,
    List.reverse_singleton, List.singleton_append, dropQuote, if_pos quote, List.reverse_reverse]

theorem dropQuote_suffix (t : Text) : dropQuote t <:+ t := by
  cases t with
  | nil => exact List.suffix_rfl
  | cons c rest =>
    rw [dropQuote]
    split
    · exact List.suffix_cons c rest
    · exact List.suffix_rfl

theorem stripQuotes_part (t : Text) : stripQuotes t <:+: t := by
  have back : stripQuotes t <+: dropQuote t :=
    List.reverse_suffix.mp (by rw [stripQuotes, List.reverse_reverse]; exact dropQuote_suffix _)
  exact back.isInfix.trans (dropQuote_suffix t).isInfix

theorem readScalar_part (t : Text) : readScalar t <:+: t :=
  (stripQuotes_part _).trans (jsTrim_part t)

theorem IsClean.of_part {s t : Text} (clean : IsClean t) (part : s <:+: t) : IsClean s :=
  fun c hc => clean c (part.subset hc)

theorem IsClean.oneLine {t : Text} (clean : IsClean t) : '\n' ∉ t := by
  intro break'
  have plain := clean _ break'
  revert plain
  decide

theorem IsClean.quoted {t : Text} (clean : IsClean t) : IsClean (quoted t) := by
  have quote : isSpecial '\'' = false := by decide
  intro c hc
  rcases List.mem_cons.mp hc with rfl | hc
  · exact quote
  · rcases List.mem_append.mp hc with hc | hc
    · exact clean c (mem_of_mem_escape hc)
    · rw [List.mem_singleton.mp hc]
      exact quote

theorem isSpecial_separator {c : Char} (h : isSeparator c = true) : isSpecial c = true := by
  rw [isSeparator, decide_eq_true_eq] at h
  simp only [List.mem_cons, List.not_mem_nil, or_false] at h
  rw [isSpecial, Bool.or_eq_true, Bool.or_eq_true]
  refine .inl (.inr ?_)
  rw [isBreak, decide_eq_true_eq]
  simp only [List.mem_cons, List.not_mem_nil, or_false]
  omega

theorem mem_of_mem_indented {t : Text} {c : Char} (h : c ∈ indented t) : c ∈ t ∨ c = ' ' := by
  induction t with
  | nil => exact .inl h
  | cons d rest ih =>
    rw [indented] at h
    split at h
    · simp only [List.mem_cons] at h ⊢
      rcases h with h | h | h | h
      · exact .inl (.inl h)
      · exact .inr h
      · exact .inr h
      · exact (ih h).imp_left .inr
    · rcases List.mem_cons.mp h with h | h
      · exact .inl (h ▸ List.mem_cons_self)
      · exact (ih h).imp_left (List.mem_cons_of_mem d)

theorem length_le_indented (t : Text) : t.length ≤ (indented t).length := by
  induction t with
  | nil => exact Nat.le_refl _
  | cons c rest ih =>
    rw [indented]
    split <;> simp only [List.length_cons] <;> omega

/-- The indentation makes a text with separators longer. -/
theorem length_lt_indented {t : Text} (found : ∃ c ∈ t, isSeparator c = true) :
    t.length < (indented t).length := by
  induction t with
  | nil =>
    obtain ⟨c, hc, -⟩ := found
    cases hc
  | cons d rest ih =>
    have longer := length_le_indented rest
    rw [indented]
    split
    · simp only [List.length_cons]
      omega
    · rename_i inner
      have more : ∃ c ∈ rest, isSeparator c = true := by
        obtain ⟨c, hc, separates⟩ := found
        rcases List.mem_cons.mp hc with rfl | hc
        · rw [separates, Bool.true_and, Bool.not_eq_true', Bool.not_eq_false, Option.any_eq_true] at inner
          obtain ⟨e, he, separates⟩ := inner
          exact ⟨e, List.mem_of_mem_head? he, separates⟩
        · exact ⟨c, hc, separates⟩
      have more := ih more
      simp only [List.length_cons]
      omega

/-- A scalar without special characters is written on one line. -/
theorem Written.clean {t s : Text} (written : Written t s) (clean : IsClean t) :
    (s = t ∧ DenotesItself t ∧ ¬ StartsDocument t) ∨ s = WebCardYaml.quoted t := by
  cases written with
  | plain _ self inside same => exact .inl ⟨same, self, inside⟩
  | single _ same => exact .inr same
  | separated found _ _ =>
    obtain ⟨c, hc, bad⟩ := found
    have special := clean c hc
    rw [isSpecial_separator bad] at special
    cases special
  | escaped found _ =>
    obtain ⟨c, hc, bad⟩ := found
    rw [clean c hc] at bad
    cases bad
  | lines found => exact absurd found clean.oneLine

theorem Written.isClean {t s : Text} (written : Written t s) (clean : IsClean t) : IsClean s := by
  rcases written.clean clean with ⟨rfl, -, -⟩ | rfl
  · exact clean
  · exact clean.quoted

theorem IsWord.isClean {t : Text} (word : IsWord t) : IsClean t :=
  fun c hc => (wordChar_ordinary (word.2 c hc)).2.1

theorem IsWord.noQuote {t : Text} (word : IsWord t) : ∀ c ∈ t, isQuote c = false := by
  intro c hc
  obtain ⟨-, -, single, double, -, -⟩ := wordChar_ordinary (word.2 c hc)
  rw [isQuote, decide_eq_false_iff_not]
  rintro (rfl | rfl)
  · exact double rfl
  · exact single rfl

theorem dropQuote_of_free {t : Text} (free : ∀ c ∈ t, isQuote c = false) : dropQuote t = t := by
  cases t with
  | nil => rfl
  | cons c rest => rw [dropQuote, free c List.mem_cons_self, if_neg (by simp)]

theorem stripQuotes_of_free {t : Text} (free : ∀ c ∈ t, isQuote c = false) : stripQuotes t = t := by
  rw [stripQuotes, dropQuote_of_free free,
    dropQuote_of_free fun c hc => free c (List.mem_reverse.mp hc), List.reverse_reverse]

theorem IsWord.trimmed {t : Text} (word : IsWord t) : jsTrim t = t :=
  jsTrim_of_free fun c hc => (wordChar_ordinary (word.2 c hc)).1

/-- A word is read as it is, with or without apostrophes around it. -/
theorem IsWord.put {t s : Text} (word : IsWord t) (written : Written t s) (r : Reader) (key : Text) :
    r.put key (jsTrim s) = ⟨(key, .text t) :: r.save, none⟩ := by
  obtain ⟨c, rest, rfl⟩ := List.exists_cons_of_ne_nil word.1
  have noBracket : c ≠ '[' := by
    rintro rfl
    exact (wordChar_ordinary (word.2 _ List.mem_cons_self)).2.2.2.2.1 rfl
  have free : '\'' ∉ c :: rest := fun h => (wordChar_ordinary (word.2 _ h)).2.2.1 rfl
  rcases written.clean word.isClean with ⟨rfl, -, -⟩ | rfl
  · rw [word.trimmed, Reader.put, if_neg (by simp), if_neg (by simpa using fun h => absurd h noBracket),
      stripQuotes_of_free word.noQuote]
  · have read := readScalar_quoted (c :: rest)
    rw [readScalar, jsTrim_quoted, escape_eq_iff.mpr free] at read
    rw [jsTrim_quoted, Reader.put, if_neg (by simp [WebCardYaml.quoted]),
      if_neg (by simp [WebCardYaml.quoted]), read]

end Scalars

section Documents

theorem readAll_nil (r : Reader) : r.readAll [] = r := rfl

theorem readAll_field {key : String} (word : IsKey key.toList) {value : Text} (oneLine : '\n' ∉ value)
    (r : Reader) (rest : Text) :
    r.readAll (field key value ++ rest) = (r.put key.toList (jsTrim value)).readAll rest := by
  have split : field key value ++ rest = (key.toList ++ ':' :: ' ' :: value) ++ '\n' :: rest := by
    simp [field]
  have front : jsTrim (' ' :: value) = jsTrim value := rfl
  have single : '\n' ∉ key.toList ++ ':' :: ' ' :: value := by
    rw [List.mem_append, List.mem_cons, List.mem_cons]
    rintro (inKey | colon | blank | inValue)
    · exact ne_of_keyChar (word.2 _ inKey) (by decide) rfl
    · revert colon
      decide
    · revert blank
      decide
    · exact oneLine inValue
  rw [split, readAll_line, readAll_single single, readLine_pair word, front]

variable {yaml : CardCodec} {scalar : Text → Text} (writes : WritesCards yaml scalar)
include writes

theorem readAll_word {key : String} (key' : IsKey key.toList) {t : Text} (word : IsWord t) (r : Reader)
    (rest : Text) : r.readAll (field key (scalar t) ++ rest) =
      (⟨(key.toList, .text t) :: r.save, none⟩ : Reader).readAll rest := by
  have written := writes.scalars t
  rw [readAll_field key' (written.isClean word.isClean).oneLine, word.put written]

omit writes in
/-- What a field of words holds when nothing is there to quote. -/
theorem readAll_bare {key : String} (key' : IsKey key.toList) {t : Text} (word : IsWord t)
    (self : DenotesItself t) (inside : ¬ StartsDocument t) (r : Reader) (rest : Text) :
    r.readAll (field key t ++ rest) =
      (⟨(key.toList, .text t) :: r.save, none⟩ : Reader).readAll rest := by
  rw [readAll_field key' word.isClean.oneLine, word.put (.plain word.isClean self inside rfl)]

omit writes in
theorem readLine_item {key : Text} (named : key ≠ []) (result : JsObject) (items : List Text) {v : Text}
    (nonempty : v ≠ []) (solid : ∀ c ∈ v, isJsSpace c = false) :
    Reader.readLine ⟨result, some (key, items)⟩ ("- ".toList ++ v) =
      ⟨result, some (key, items ++ [v])⟩ := by
  obtain ⟨c, rest, rfl⟩ := List.exists_cons_of_ne_nil nonempty
  have whole : jsTrim (c :: rest) = c :: rest := jsTrim_of_free solid
  have trimmed : jsTrim ("- ".toList ++ c :: rest) = "- ".toList ++ c :: rest := by
    have back : jsTrimEnd rest = rest := by
      have same := jsTrim_append_cons (a := []) (by simp) (solid c List.mem_cons_self) rest
      rw [List.nil_append, whole] at same
      exact (List.cons.inj same).2.symm
    have dash : "- ".toList ++ c :: rest = '-' :: ([' '] ++ c :: rest) := rfl
    rw [dash]
    refine (jsTrim_append_cons (a := []) (by simp) (by decide) _).trans ?_
    rw [jsTrimEnd_append_cons (solid c List.mem_cons_self), back]
  rw [Reader.readLine, trimmed, if_neg (by simp), stripPrefix_append]
  simp only [if_neg named, whole]

theorem label_solid {l : Text} (valid : l ≠ [] ∧ ∀ c ∈ l, isLabelChar c = true) :
    scalar l ≠ [] ∧ (∀ c ∈ scalar l, isJsSpace c = false) ∧ '\n' ∉ scalar l := by
  have word : IsWord l := ⟨valid.1, fun c hc => wordChar_of_labelChar (valid.2 c hc)⟩
  have solid : ∀ c ∈ l, isJsSpace c = false := fun c hc => (wordChar_ordinary (word.2 c hc)).1
  have oneLine := ((writes.scalars l).isClean word.isClean).oneLine
  rcases (writes.scalars l).clean word.isClean with ⟨same, -, -⟩ | same
  · rw [same]
    exact ⟨word.1, solid, same ▸ oneLine⟩
  · rw [same]
    refine ⟨by simp [quoted], fun c hc => ?_, same ▸ oneLine⟩
    rcases List.mem_cons.mp hc with rfl | hc
    · decide
    · rcases List.mem_append.mp hc with hc | hc
      · exact solid c (mem_of_mem_escape hc)
      · rw [List.mem_singleton.mp hc]
        decide

theorem readAll_items {labels : List Text}
    (valid : ∀ l ∈ labels, l ≠ [] ∧ ∀ c ∈ l, isLabelChar c = true) {key : Text} (named : key ≠ [])
    (result : JsObject) (items : List Text) (rest : Text) :
    Reader.readAll ⟨result, some (key, items)⟩
        ((labels.flatMap fun l => "- ".toList ++ (scalar l ++ ['\n'])) ++ rest) =
      Reader.readAll ⟨result, some (key, items ++ labels.map scalar)⟩ rest := by
  induction labels generalizing items with
  | nil => simp
  | cons l labels ih =>
    obtain ⟨nonempty, solid, oneLine⟩ := label_solid writes (valid l List.mem_cons_self)
    have split : ((l :: labels).flatMap fun l => "- ".toList ++ (scalar l ++ ['\n'])) ++ rest =
        ("- ".toList ++ scalar l) ++ '\n' ::
          ((labels.flatMap fun l => "- ".toList ++ (scalar l ++ ['\n'])) ++ rest) := by
      simp
    have single : '\n' ∉ "- ".toList ++ scalar l := by
      rw [List.mem_append]
      exact fun h => h.elim (by decide) oneLine
    rw [split, readAll_line, readAll_single single, readLine_item named result items nonempty solid,
      ih fun l' h => valid l' (List.mem_cons_of_mem l h)]
    simp

/-- The list of labels holds what was written for each of them. -/
theorem readAll_labels {labels : List Text}
    (valid : ∀ l ∈ labels, l ≠ [] ∧ ∀ c ∈ l, isLabelChar c = true) (r : Reader) (rest : Text) :
    ∃ r' : Reader, r.readAll (labelLines scalar labels ++ rest) = r'.readAll rest ∧
      r'.save = ("labels".toList, .list (labels.map scalar)) :: r.save := by
  by_cases none : labels = []
  · subst none
    refine ⟨⟨("labels".toList, .list []) :: r.save, Option.none⟩, ?_, rfl⟩
    have bracket := readAll_field (by decide : IsKey "labels".toList)
      (by decide : '\n' ∉ "[]".toList) r rest
    exact bracket
  · have head : labelLines scalar labels ++ rest = "labels:".toList ++ '\n' ::
        ((labels.flatMap fun l => "- ".toList ++ (scalar l ++ ['\n'])) ++ rest) := by
      simp [labelLines, none]
    have opened : r.readAll "labels:".toList = ⟨r.save, some ("labels".toList, [])⟩ := by
      rw [readAll_single (by decide)]
      exact readLine_pair (by decide : IsKey "labels".toList) r []
    refine ⟨⟨r.save, some ("labels".toList, labels.map scalar)⟩, ?_, rfl⟩
    rw [head, readAll_line, opened, readAll_items writes valid (by decide)]
    rfl

end Documents

end WebCardYaml
