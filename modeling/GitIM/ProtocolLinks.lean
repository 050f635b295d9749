import GitIM.AssetRefs
import GitIM.Cards
import GitIM.QuickSession
import Mathlib.Data.List.DropRight
import Mathlib.Data.List.Sort

/-!
# The links of a message body

A body is searched for two patterns: bracketed links, whose sigil decides how the content is read, and
references to quick sessions. What is found is put into the order in which it stands in the body.
-/

namespace ProtocolLinks

open TextLines TextScan ThreadFormat ByteOffsets PercentEncoding AssetRefs Channels Cards QuickSession

section Kinds

inductive LinkKind where
  | channel (name : Text)
  | message (channel : Text) (lineNumber : Nat)
  | card (channel cardId : Text) (lineNumber : Option Nat) (label : Option Text)
  | quickSession (sessionId : Text) (lineNumber : Option Nat)
  | userProfile (handler : Handler)
  | softlink (url : Text) (title : Option Text)
  | asset (asset : AssetRef)
  deriving DecidableEq

structure Link where
  kind : LinkKind
  raw : Text
  deriving DecidableEq

def splitLabel (content : Text) : Text × Option Text :=
  match splitOnce '|' content with
  | some (target, label) => (target, some label)
  | none => (content, none)

/-- A text that ends in `:L` and six or more digits. -/
def splitLine (t : Text) : Option (Text × Text) :=
  let digits := t.rtakeWhile isRegexDigit
  match stripSuffix ":L".toList (t.rdropWhile isRegexDigit) with
  | some front => if 6 ≤ digits.length ∧ front ≠ [] then some (front, digits) else none
  | none => none

def parseCardLink (target : Text) (label : Option Text) : Option LinkKind := do
  let (channel, cardTarget) ← splitOnce '/' target
  if '/' ∈ cardTarget then none
  else if channelNameError channel ≠ none then none
  else
    match (splitLine cardTarget).filter fun p => !p.1.contains ':' with
    | some (cardId, digits) => do
      let lineNumber ← parseUnsigned u64Bound digits
      if validateCardId cardId = .ok () then some (.card channel cardId (some lineNumber) label)
      else none
    | none =>
      if validateCardId cardTarget = .ok () then some (.card channel cardTarget none label) else none

def parseChannelOrMessage (content : Text) : Option LinkKind :=
  let (target, label) := splitLabel content
  if '/' ∈ target then parseCardLink target label
  else if label.isSome then none
  else
    match (splitLine target).filter fun p => !p.1.contains '\n' with
    | some (channel, digits) => do
      let lineNumber ← parseUnsigned u64Bound digits
      if channelNameError channel = none then some (.message channel lineNumber) else none
    | none => if channelNameError target = none then some (.channel target) else none

def parseUserProfile (content : Text) : Option LinkKind :=
  match Handler.new content with
  | .ok handler => some (.userProfile handler)
  | .error _ => none

def parseSoftlink (content : Text) : Option LinkKind :=
  match splitOnce '|' content with
  | some (url, title) => if url = [] then none else some (.softlink url (some title))
  | none => some (.softlink content none)

end Kinds

section Extraction
variable (codec : PercentCodec) (isAlphanumeric : Char → Bool)

def parseAsset (raw : Text) : Option LinkKind :=
  match AssetRef.fromStr codec raw with
  | .ok asset => some (.asset asset)
  | .error _ => none

def isLinkChar (c : Char) : Bool := c != '>' && c != '\n'

def isAssetChar (c : Char) : Bool := c != '<' && isLinkChar c

/-- The content of a bracket, up to the sign that closes it. -/
def closedBy (p : Char → Bool) (t : Text) : Option Text :=
  match scan p 1 t with
  | some (content, rest) => if rest.head? = some '>' then some content else none
  | none => none

/-- The bracketed link at the front of a text: its sigil and its content. -/
def bracketAt : Text → Option (Char × Text)
  | '<' :: sigil :: rest =>
    if sigil ∈ ['#', '~', '!'] then (closedBy isLinkChar rest).map fun content => (sigil, content)
    else if sigil = '^' then (closedBy isAssetChar rest).map fun content => (sigil, content)
    else none
  | _ => none

def bracketRaw (sigil : Char) (content : Text) : Text := '<' :: sigil :: (content ++ ['>'])

def linkKind (sigil : Char) (content raw : Text) : Option LinkKind :=
  if sigil = '#' then parseChannelOrMessage content
  else if sigil = '~' then parseUserProfile content
  else if sigil = '!' then parseSoftlink content
  else parseAsset codec raw

/-- The bracketed links of a text with their offsets; characters of a match are skipped. -/
def bracketLinks : Nat → Nat → Text → List (Nat × Link)
  | _, _, [] => []
  | offset, skip + 1, c :: rest => bracketLinks (offset + c.utf8Size) skip rest
  | offset, 0, c :: rest =>
    match bracketAt (c :: rest) with
    | none => bracketLinks (offset + c.utf8Size) 0 rest
    | some (sigil, content) =>
      ((linkKind codec sigil content (bracketRaw sigil content)).map fun kind =>
          (offset, ⟨kind, bracketRaw sigil content⟩)).toList ++
        bracketLinks (offset + c.utf8Size) (content.length + 2) rest

/-- The session reference at the front of a text: the session and the digits of its line. -/
def sessionAt (t : Text) : Option (Text × Option Text) := do
  let t ← stripPrefix "session:".toList t
  let t ← stripPrefix "qs-".toList t
  let (value, t) ← scanExact isOpaqueIdChar 26 t
  let digits := (stripPrefix ":L".toList t).bind (scan Char.isDigit 6)
  some ("qs-".toList ++ value, digits.map Prod.fst)

def sessionRaw (sessionId : Text) (digits : Option Text) : Text :=
  "session:".toList ++ (sessionId ++ (digits.map (":L".toList ++ ·)).getD [])

def validQuickSessionRefBoundaries (previous : Option Char) (following : Text) : Bool :=
  let invalidBoundary := fun c => isAlphanumeric c || "_-/\\".toList.contains c
  !(previous.any invalidBoundary) && !(following.head?.any invalidBoundary) &&
    !decide (":L".toList <+: following)

def sessionLink (previous : Option Char) (following sessionId : Text) (digits : Option Text) :
    Option LinkKind :=
  if validQuickSessionRefBoundaries isAlphanumeric previous following = false then none
  else if validateQuickSessionId sessionId ≠ .ok () then none
  else
    match digits with
    | none => some (.quickSession sessionId none)
    | some value => (parseUnsigned u64Bound value).map fun n => .quickSession sessionId (some n)

def sessionLinks : Nat → Option Char → Nat → Text → List (Nat × Link)
  | _, _, _, [] => []
  | offset, _, skip + 1, c :: rest => sessionLinks (offset + c.utf8Size) (some c) skip rest
  | offset, previous, 0, c :: rest =>
    match sessionAt (c :: rest) with
    | none => sessionLinks (offset + c.utf8Size) (some c) 0 rest
    | some (sessionId, digits) =>
      let raw := sessionRaw sessionId digits
      ((sessionLink isAlphanumeric previous ((c :: rest).drop raw.length) sessionId digits).map
          fun kind => (offset, ⟨kind, raw⟩)).toList ++
        sessionLinks (offset + c.utf8Size) (some c) (raw.length - 1) rest

def extractLinks (body : Text) : List Link :=
  ((bracketLinks codec 0 0 body ++ sessionLinks isAlphanumeric 0 none 0 body).insertionSort
    fun a b => a.1 ≤ b.1).map Prod.snd

end Extraction

section Searching
variable {codec : PercentCodec} {isAlphanumeric : Char → Bool} {t u w : Text}

theorem bracketLinks_skip (skipped t : Text) (offset : Nat) :
    bracketLinks codec offset skipped.length (skipped ++ t) =
      bracketLinks codec (offset + utf8Len skipped) 0 t := by
  induction skipped generalizing offset with
  | nil => rfl
  | cons c skipped ih =>
    rw [List.cons_append, List.length_cons, bracketLinks, ih, utf8Len_cons, Nat.add_assoc]

/-- Text without an opening bracket has no bracketed link. -/
theorem bracketLinks_plain (hplain : '<' ∉ u) (t : Text) (offset : Nat) :
    bracketLinks codec offset 0 (u ++ t) = bracketLinks codec (offset + utf8Len u) 0 t := by
  induction u generalizing offset with
  | nil => rfl
  | cons c u ih =>
    rw [List.mem_cons, not_or] at hplain
    have hnone : bracketAt (c :: (u ++ t)) = none := by
      rw [bracketAt]
      intro sigil rest hc
      exact hplain.1 (List.cons.inj hc).1.symm
    rw [List.cons_append, bracketLinks, hnone]
    simp only []
    rw [ih hplain.2, utf8Len_cons, Nat.add_assoc]

theorem sessionAt_none (h : ¬"session:".toList <+: t) : sessionAt t = none := by
  have hnone : stripPrefix "session:".toList t = none := if_neg h
  rw [sessionAt, hnone]
  rfl

/-- Text without the word of session references has none. -/
theorem sessionLinks_plain (h : ¬"session:".toList <:+: t) (offset : Nat) (previous : Option Char) :
    sessionLinks isAlphanumeric offset previous 0 t = [] := by
  induction t generalizing offset previous with
  | nil => rw [sessionLinks]
  | cons c t ih =>
    have hfront : ¬"session:".toList <+: c :: t := fun hprefix => h hprefix.isInfix
    have hlater : ¬"session:".toList <:+: t := fun hin => h (hin.trans (List.suffix_cons c t).isInfix)
    rw [sessionLinks, sessionAt_none hfront]
    exact ih hlater _ _

/-- A word without a character does not reach over that character. -/
theorem infix_around {c : Char} (hc : c ∉ w) (h : w <:+: u ++ c :: t) : w <:+: u ∨ w <:+: t := by
  obtain ⟨before, behind, hsplit⟩ := h
  have hword : before ++ w <+: u ++ c :: t := ⟨behind, hsplit⟩
  by_cases hshort : (before ++ w).length ≤ u.length
  · obtain ⟨rest, hrest⟩ := List.prefix_of_prefix_length_le hword (List.prefix_append u _) hshort
    exact .inl ⟨before, rest, hrest⟩
  · by_cases hfront : u.length < before.length
    · have hback : u ++ [c] <+: u ++ c :: t := ⟨t, by rw [List.append_assoc]; rfl⟩
      have hbefore : before <+: u ++ c :: t := ⟨w ++ behind, by rw [← List.append_assoc, hsplit]⟩
      have hlength : (u ++ [c]).length ≤ before.length := by
        rw [List.length_append, List.length_singleton]
        exact hfront
      obtain ⟨middle, rfl⟩ := List.prefix_of_prefix_length_le hback hbefore hlength
      refine .inr ⟨middle, behind, ?_⟩
      have hcancel : (u ++ [c]) ++ (middle ++ w ++ behind) = (u ++ [c]) ++ t := by
        rw [← List.append_assoc, ← List.append_assoc, hsplit, List.append_assoc]
        rfl
      exact List.append_cancel_left hcancel
    · exfalso
      apply hc
      simp only [List.length_append] at hshort
      have hat : (before ++ w ++ behind)[u.length]? = some c := by
        rw [hsplit, List.getElem?_append_right (Nat.le_refl _), Nat.sub_self]
        rfl
      rw [List.append_assoc, List.getElem?_append_right (by omega),
        List.getElem?_append_left (by omega)] at hat
      exact List.mem_of_getElem? hat

end Searching

section References
variable {codec : PercentCodec} {isAlphanumeric : Char → Bool} {a : AssetRef}

/-- The text of a reference between its brackets. -/
def innerText (codec : PercentCodec) (a : AssetRef) : Text :=
  "^v".toList ++ (a.path ++ '?' :: a.query codec)

theorem toStr_eq (a : AssetRef) : a.toStr codec = '<' :: (innerText codec a ++ ['>']) := by
  have hopen : "<^v".toList = '<' :: "^v".toList := by decide
  rw [AssetRef.toStr, hopen, innerText]
  simp only [List.append_assoc, List.cons_append]

def isPathChar (c : Char) : Bool := isLowerHex c || "-/:hsv^".toList.contains c

def isQueryChar (c : Char) : Bool := isComponentChar c || "=&".toList.contains c

theorem path_chars (h : Readable codec a) : ("^v".toList ++ a.path).all isPathChar = true := by
  have hlift : ∀ {p : Char → Bool} {t : Text}, t.all p = true →
      (∀ c, p c = true → isPathChar c = true) → t.all isPathChar = true := by
    intro p t ht hp
    exact List.all_eq_true.mpr fun c hc => hp c (List.all_eq_true.mp ht c hc)
  have hversion := hlift (decimal_chars a.version.toNat) fun c hc => by
    rw [isPathChar, isLowerHex, hc]
    rfl
  have horigin := hlift h.origin fun c hc => by
    rw [isPathChar]
    rcases Bool.or_eq_true_iff.mp hc with hhex | hhyphen
    · rw [hhex]
      rfl
    · rw [beq_iff_eq.mp hhyphen]
      decide
  have hdigest := hlift h.digest fun c hc => by
    rw [isPathChar, hc]
    rfl
  simp only [AssetRef.path, List.all_append, List.all_cons, hversion, horigin, hdigest]
  decide

theorem query_chars (h : codec.Documented) : (a.query codec).all isQueryChar = true := by
  have hcomponent : ∀ t : Text, (encodeComponent codec t).all isQueryChar = true := by
    intro t
    apply List.all_eq_true.mpr
    intro c hc
    rw [isQueryChar, List.all_eq_true.mp (component_chars h t) c hc]
    rfl
  have hdecimal : ∀ n, (decimal n).all isQueryChar = true := by
    intro n
    apply List.all_eq_true.mpr
    intro c hc
    have hdigit := List.all_eq_true.mp (decimal_chars n) c hc
    rw [isQueryChar, isComponentChar, Char.isAlphanum, hdigit, Bool.or_true]
    rfl
  have hdimension : ∀ (label : Text) (n : Option UInt32), label.all isQueryChar = true →
      (dimensionField label n).all isQueryChar = true := by
    intro label n hlabel
    cases n with
    | none => rfl
    | some n => rw [dimensionField, List.all_append, hlabel, hdecimal, Bool.true_and]
  have hwidth := hdimension "&width=".toList a.width (by decide)
  have hheight := hdimension "&height=".toList a.height (by decide)
  simp only [AssetRef.query, List.all_append, hcomponent, hdecimal, hwidth, hheight]
  decide

theorem assetChar_of {p : Char → Bool} {c : Char} (hopen : p '<' = false) (hclose : p '>' = false)
    (hline : p '\n' = false) (hc : p c = true) : isAssetChar c = true := by
  have hne : ∀ d, p d = false → c ≠ d := by
    rintro d hd rfl
    rw [hd] at hc
    cases hc
  rw [isAssetChar, isLinkChar, bne_iff_ne.mpr (hne _ hopen), bne_iff_ne.mpr (hne _ hclose),
    bne_iff_ne.mpr (hne _ hline)]
  rfl

/-- Between its brackets a reference has no bracket and no line break. -/
theorem innerText_chars (h : codec.Documented) (hread : Readable codec a) :
    (innerText codec a).all isAssetChar = true := by
  apply List.all_eq_true.mpr
  intro c hc
  rw [innerText, ← List.append_assoc, List.mem_append, List.mem_cons] at hc
  rcases hc with hc | rfl | hc
  · exact assetChar_of (by decide) (by decide) (by decide) (List.all_eq_true.mp (path_chars hread) c hc)
  · decide
  · exact assetChar_of (by decide) (by decide) (by decide) (List.all_eq_true.mp (query_chars h) c hc)

/-- No session reference begins in a reference to an asset: its path has no `i` and its query no
colon. -/
theorem innerText_noSession (h : codec.Documented) (hread : Readable codec a) :
    ¬"session:".toList <:+: innerText codec a := by
  intro hin
  rw [innerText, ← List.append_assoc] at hin
  rcases infix_around (by decide) hin with hpath | hquery
  · have hletter : 'i' ∈ "session:".toList := by decide
    exact not_mem_of_all (path_chars hread) (by decide) (hpath.subset hletter)
  · have hcolon : ':' ∈ "session:".toList := by decide
    exact not_mem_of_all (query_chars h) (by decide) (hquery.subset hcolon)

/-- Text in which no link begins or ends. -/
structure Plain (t : Text) : Prop where
  noOpen : '<' ∉ t
  noClose : '>' ∉ t
  noSession : ¬"session:".toList <:+: t

theorem bracketAt_toStr (h : codec.Documented) (hread : Readable codec a) (after : Text) :
    ∃ content, bracketAt (a.toStr codec ++ after) = some ('^', content) ∧
      bracketRaw '^' content = a.toStr codec := by
  have hcontent : ∃ content, innerText codec a = '^' :: content ∧ content ≠ [] := by
    have hopen : "^v".toList = ['^', 'v'] := by decide
    exact ⟨'v' :: (a.path ++ '?' :: a.query codec), by rw [innerText, hopen]; rfl, List.cons_ne_nil _ _⟩
  obtain ⟨content, hinner, hne⟩ := hcontent
  have hchars := innerText_chars h hread
  rw [hinner, List.all_cons, Bool.and_eq_true] at hchars
  have hscan : scan isAssetChar 1 (content ++ '>' :: after) = some (content, '>' :: after) := by
    refine scan_eq_some_iff.mpr ⟨rfl, hchars.2, List.length_pos_of_ne_nil hne, ?_⟩
    rw [stops_cons]
    decide
  refine ⟨content, ?_, ?_⟩
  · rw [toStr_eq, hinner, List.cons_append, List.cons_append, List.cons_append, List.append_assoc,
      List.singleton_append, bracketAt, if_neg (by decide), if_pos rfl, closedBy, hscan]
    rfl
  · rw [toStr_eq, hinner, bracketRaw]
    rfl

/-- A reference in text without links is the one link of the body. -/
theorem extractLinks_toStr (h : codec.Documented) (hvalid : a.validate codec = .ok ())
    {before after : Text} (hbefore : Plain before) (hafter : Plain after) :
    extractLinks codec isAlphanumeric (before ++ (a.toStr codec ++ after)) =
      [⟨.asset a, a.toStr codec⟩] := by
  have hread := readable_of_valid hvalid
  obtain ⟨content, hbracket, hraw⟩ := bracketAt_toStr h hread after
  have hasset : linkKind codec '^' content (a.toStr codec) = some (.asset a) := by
    rw [linkKind, if_neg (by decide), if_neg (by decide), if_neg (by decide), parseAsset,
      fromStr_toStr h hvalid]
  have hlength : content.length + 2 = (innerText codec a ++ ['>']).length := by
    have hlen := congrArg List.length hraw
    rw [toStr_eq, bracketRaw] at hlen
    simp only [List.length_cons, List.length_append, List.length_nil] at hlen ⊢
    omega
  have hbrackets : bracketLinks codec 0 0 (before ++ (a.toStr codec ++ after)) =
      [(utf8Len before, ⟨.asset a, a.toStr codec⟩)] := by
    rw [bracketLinks_plain hbefore.noOpen, Nat.zero_add]
    have hcons : a.toStr codec ++ after = '<' :: ((innerText codec a ++ ['>']) ++ after) := by
      rw [toStr_eq]
      rfl
    have hend : ∀ offset, bracketLinks codec offset 0 (after ++ []) =
        bracketLinks codec (offset + utf8Len after) 0 [] := bracketLinks_plain hafter.noOpen []
    rw [hcons] at hbracket ⊢
    rw [bracketLinks, hbracket]
    simp only [hraw, hasset, hlength]
    rw [bracketLinks_skip, ← List.append_nil after, hend]
    rfl
  have hsessions : sessionLinks isAlphanumeric 0 none 0 (before ++ (a.toStr codec ++ after)) = [] := by
    apply sessionLinks_plain
    intro hin
    rw [toStr_eq, List.cons_append, List.append_assoc, List.singleton_append] at hin
    rcases infix_around (by decide) hin with hfront | hlater
    · exact hbefore.noSession hfront
    · rcases infix_around (by decide) hlater with hinner | hback
      · exact innerText_noSession h hread hinner
      · exact hafter.noSession hback
  rw [extractLinks, hbrackets, hsessions]
  rfl

/-- References to assets are a canonical format, and one is found again in a body. -/
theorem assetRef_canonical (isAlphanumeric : Char → Bool) (h : codec.Documented) :
    (∀ a, AssetRef.validate codec a = .ok () → AssetRef.fromStr codec (a.toStr codec) = .ok a) ∧
      (∀ s a, AssetRef.fromStr codec s = .ok a → a.validate codec = .ok () ∧ a.toStr codec = s) ∧
      ∀ a, AssetRef.validate codec a = .ok () →
        (∃ inner, a.toStr codec = '<' :: (inner ++ ['>']) ∧ '<' ∉ inner ∧ '>' ∉ inner ∧
          '\n' ∉ inner) ∧
        ∀ before after, Plain before → Plain after →
          extractLinks codec isAlphanumeric (before ++ (a.toStr codec ++ after)) =
            [⟨.asset a, a.toStr codec⟩] := by
  refine ⟨fun a hvalid => fromStr_toStr h hvalid, fun s a hread => fromStr_sound hread,
    fun a hvalid => ⟨⟨innerText codec a, toStr_eq a, ?_⟩, fun before after hbefore hafter =>
      extractLinks_toStr h hvalid hbefore hafter⟩⟩
  have hchars := innerText_chars h (readable_of_valid hvalid)
  exact ⟨not_mem_of_all hchars (by decide), not_mem_of_all hchars (by decide),
    not_mem_of_all hchars (by decide)⟩

def screenshot : AssetRef :=
  ⟨1, "0b8f8a52-6d1c-4f7e-9a63-2c54be01d7aa".toList, List.replicate 64 'c', "a & b 100%.png".toList,
    "image/svg+xml".toList, 2048, some 640, some 480⟩

theorem assetRef_canonical_screenshot :
    AssetRef.fromStr byteCodec (screenshot.toStr byteCodec) = .ok screenshot :=
  (assetRef_canonical Char.isAlphanum byteCodec_documented).1 screenshot (by decide +kernel)

end References

end ProtocolLinks
