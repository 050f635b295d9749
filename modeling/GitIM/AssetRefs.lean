import GitIM.ByteOffsets
import GitIM.Checked
import GitIM.PercentEncoding

/-!
# Asset references

A reference to an asset is one token of text: the version, the runtime it came from, its digest, and
its name, media type, size and dimensions as a query. The reader takes only the text that the writer
would write.
-/

namespace AssetRefs

open TextLines TextScan Checked ThreadFormat ByteOffsets PercentEncoding

section Limits

def assetRefVersion : UInt8 := 1

def maxAssetBytes : UInt64 := 52428800

def maxAssetFilenameBytes : Nat := 255

def maxAssetMediaTypeBytes : Nat := 127

def maxAssetRefBytes : Nat := 1024

/-- The printable ASCII characters that are encoded in a component. -/
def encodedPunctuation : Text := " !\"#$%&'()*+,/:;<=>?@[\\]^`\x7b|\x7d".toList

/-- The encode set of the components of a reference. -/
def assetComponentEncodeSet (b : UInt8) : Bool :=
  decide (b.toNat < 32) || b.toNat == 127 || encodedPunctuation.any fun c => c.toNat == b.toNat

inductive AssetRefError where
  | invalidFormat
  | unsupportedVersion
  | invalidOriginRuntimeId
  | invalidSha256
  | invalidPercentEncoding
  | invalidUtf8
  | invalidQuery
  | invalidSize
  | emptyFilename
  | filenameTooLong
  | unsafeFilename
  | emptyMediaType
  | mediaTypeTooLong
  | invalidMediaType
  | assetTooLarge
  | incompleteDimensions
  | invalidDimensions
  | referenceTooLong
  | nonCanonical
  deriving DecidableEq

end Limits

structure AssetRef where
  version : UInt8
  originRuntimeId : Text
  sha256 : Text
  name : Text
  mediaType : Text
  size : UInt64
  width : Option UInt32
  height : Option UInt32
  deriving DecidableEq

section Components

def isLowerHex (c : Char) : Bool := c.isDigit || ('a' ≤ c && c ≤ 'f')

def isCanonicalUuid (value : Text) : Bool :=
  utf8Len value == 36 && value.zipIdx.all fun p =>
    if p.2 ∈ [8, 13, 18, 23] then p.1 == '-' else isLowerHex p.1

def isControl (c : Char) : Bool :=
  decide (c.toNat < 0x20) || (decide (0x7f ≤ c.toNat) && decide (c.toNat ≤ 0x9f))

def validateFilename (name : Text) : Except AssetRefError Unit := do
  refuse (name = []) .emptyFilename
  refuse (utf8Len name > maxAssetFilenameBytes) .filenameTooLong
  refuse ((name.any fun c => isControl c || c == '/' || c == '\\') = true) .unsafeFilename

def isMediaTypeTokenByte (c : Char) : Bool :=
  c.isLower || c.isDigit || "!#$%&'*+-.^_`|~".toList.contains c

def validateMediaType (mediaType : Text) : Except AssetRefError Unit := do
  refuse (mediaType = []) .emptyMediaType
  refuse (utf8Len mediaType > maxAssetMediaTypeBytes) .mediaTypeTooLong
  match splitOnce '/' mediaType with
  | none => .error .invalidMediaType
  | some (typeName, subtype) =>
    refuse (typeName = [] ∨ subtype = [] ∨ typeName.all isMediaTypeTokenByte = false ∨
      subtype.all isMediaTypeTokenByte = false) .invalidMediaType

def validateDimensions : Option UInt32 → Option UInt32 → Except AssetRefError Unit
  | none, none => .ok ()
  | some width, some height =>
    if width > 0 ∧ height > 0 then .ok () else .error .invalidDimensions
  | some _, none => .error .incompleteDimensions
  | none, some _ => .error .incompleteDimensions

def validatePercentEncoding : Text → Except AssetRefError Unit
  | [] => .ok ()
  | c :: rest =>
    if c = '%' then
      match rest with
      | high :: low :: rest =>
        if isHexDigit high && isHexDigit low then validatePercentEncoding rest
        else .error .invalidPercentEncoding
      | _ => .error .invalidPercentEncoding
    else validatePercentEncoding rest

/-- An unsigned number in the decimal form of the standard library, below a bound. -/
def parseUnsigned (bound : Nat) (t : Text) : Option Nat :=
  let digits := (stripPrefix ['+'] t).getD t
  if digits ≠ [] ∧ digits.all Char.isDigit = true ∧ Nat.ofDigitChars 10 digits 0 < bound then
    some (Nat.ofDigitChars 10 digits 0)
  else none

def orElse {α : Type} (x : Option α) (e : AssetRefError) : Except AssetRefError α :=
  match x with
  | some a => .ok a
  | none => .error e

def queryValue (field label : Text) : Except AssetRefError Text :=
  orElse (stripPrefix label field) .invalidQuery

end Components

section References
variable (codec : PercentCodec)

def encodeComponent (t : Text) : Text := codec.utf8PercentEncode assetComponentEncodeSet t

def decodeComponent (value : Text) : Except AssetRefError Text := do
  validatePercentEncoding value
  orElse (fromUtf8 (codec.percentDecodeStr value)) .invalidUtf8

def decimal (n : Nat) : Text := Nat.toDigits 10 n

def AssetRef.path (a : AssetRef) : Text :=
  decimal a.version.toNat ++ '/' :: (a.originRuntimeId ++ '/' :: ("sha256:".toList ++ a.sha256))

def dimensionField (label : Text) : Option UInt32 → Text
  | none => []
  | some n => label ++ decimal n.toNat

def AssetRef.query (a : AssetRef) : Text :=
  "name=".toList ++ (encodeComponent codec a.name ++ ("&type=".toList ++
    (encodeComponent codec a.mediaType ++ ("&size=".toList ++ (decimal a.size.toNat ++
      (dimensionField "&width=".toList a.width ++ dimensionField "&height=".toList a.height))))))

def AssetRef.toStr (a : AssetRef) : Text :=
  "<^v".toList ++ (a.path ++ '?' :: (a.query codec ++ ['>']))

def AssetRef.validate (a : AssetRef) : Except AssetRefError Unit := do
  refuse (a.version ≠ assetRefVersion) .unsupportedVersion
  refuse (isCanonicalUuid a.originRuntimeId = false) .invalidOriginRuntimeId
  refuse (utf8Len a.sha256 ≠ 64 ∨ a.sha256.all isLowerHex = false) .invalidSha256
  validateFilename a.name
  validateMediaType a.mediaType
  refuse (a.size > maxAssetBytes) .assetTooLarge
  validateDimensions a.width a.height
  refuse (utf8Len (a.toStr codec) > maxAssetRefBytes) .referenceTooLong

/-- The three parts of the path. -/
def readPath (path : Text) : Except AssetRefError (UInt8 × Text × Text) :=
  match path.splitOn '/' with
  | [version, originRuntimeId, digest] => do
    let version ← orElse (parseUnsigned 256 version) .invalidFormat
    let sha256 ← orElse (stripPrefix "sha256:".toList digest) .invalidFormat
    .ok (UInt8.ofNat version, originRuntimeId, sha256)
  | _ => .error .invalidFormat

def readDimension (field label : Text) : Except AssetRefError UInt32 := do
  let value ← queryValue field label
  let n ← orElse (parseUnsigned 4294967296 value) .invalidDimensions
  .ok (UInt32.ofNat n)

/-- The fields of the query; the name and the media type are still encoded. -/
structure Query where
  encodedName : Text
  encodedMediaType : Text
  size : UInt64
  width : Option UInt32
  height : Option UInt32

def readRequired (name mediaType size : Text) : Except AssetRefError (Text × Text × UInt64) := do
  let encodedName ← queryValue name "name=".toList
  let encodedMediaType ← queryValue mediaType "type=".toList
  let value ← queryValue size "size=".toList
  let n ← orElse (parseUnsigned u64Bound value) .invalidSize
  .ok (encodedName, encodedMediaType, UInt64.ofNat n)

def readQuery (query : Text) : Except AssetRefError Query :=
  match query.splitOn '&' with
  | [name, mediaType, size] => do
    let (encodedName, encodedMediaType, n) ← readRequired name mediaType size
    .ok ⟨encodedName, encodedMediaType, n, none, none⟩
  | [name, mediaType, size, width, height] => do
    let (encodedName, encodedMediaType, n) ← readRequired name mediaType size
    let w ← readDimension width "width=".toList
    let h ← readDimension height "height=".toList
    .ok ⟨encodedName, encodedMediaType, n, some w, some h⟩
  | _ => .error .invalidQuery

def AssetRef.fromStr (raw : Text) : Except AssetRefError AssetRef := do
  refuse (utf8Len raw > maxAssetRefBytes) .referenceTooLong
  let inner ← orElse ((stripPrefix "<^v".toList raw).bind (stripSuffix ['>'])) .invalidFormat
  let (path, query) ← orElse (splitOnce '?' inner) .invalidFormat
  let (version, originRuntimeId, sha256) ← readPath path
  let fields ← readQuery query
  let name ← decodeComponent codec fields.encodedName
  let mediaType ← decodeComponent codec fields.encodedMediaType
  let parsed : AssetRef := ⟨version, originRuntimeId, sha256, name, mediaType, fields.size,
    fields.width, fields.height⟩
  parsed.validate codec
  refuse (parsed.toStr codec ≠ raw) .nonCanonical
  .ok parsed

end References

section Reading
variable {codec : PercentCodec} {a : AssetRef}

@[simp] theorem orElse_eq_ok_iff {α : Type} {x : Option α} {e : AssetRefError} {b : α} :
    orElse x e = .ok b ↔ x = some b := by
  cases x with
  | none => simp [orElse]
  | some c => simp [orElse]

/-- What is read is valid and is written as it was read. -/
theorem fromStr_sound {raw : Text} (h : AssetRef.fromStr codec raw = .ok a) :
    a.validate codec = .ok () ∧ a.toStr codec = raw := by
  obtain ⟨-, h⟩ := then_eq_ok_iff.mp h
  obtain ⟨inner, -, h⟩ := bind_eq_ok_iff.mp h
  obtain ⟨⟨path, query⟩, -, h⟩ := bind_eq_ok_iff.mp h
  obtain ⟨⟨version, originRuntimeId, sha256⟩, -, h⟩ := bind_eq_ok_iff.mp h
  obtain ⟨fields, -, h⟩ := bind_eq_ok_iff.mp h
  obtain ⟨name, -, h⟩ := bind_eq_ok_iff.mp h
  obtain ⟨mediaType, -, h⟩ := bind_eq_ok_iff.mp h
  obtain ⟨hvalid, h⟩ := then_eq_ok_iff.mp h
  obtain ⟨hcanonical, h⟩ := then_eq_ok_iff.mp h
  cases h
  exact ⟨hvalid, not_not.mp (refuse_eq_ok_iff.mp hcanonical)⟩

end Reading

section Writing
variable {codec : PercentCodec} {a : AssetRef} {t : Text}

/-- The characters of an encoded component. -/
def isComponentChar (c : Char) : Bool := c.isAlphanum || "-._~%".toList.contains c

theorem hexDigit_component : ∀ n < 16, isComponentChar (hexDigit n) = true := by
  decide

theorem kept_component : ∀ n < 128, kept assetComponentEncodeSet (UInt8.ofNat n) = true →
    isComponentChar (Char.ofNat n) = true := by
  decide +kernel

theorem component_chars (h : codec.Documented) (t : Text) :
    (encodeComponent codec t).all isComponentChar = true := by
  apply List.all_eq_true.mpr
  intro c hc
  rcases mem_utf8PercentEncode h hc with rfl | ⟨n, hn, rfl⟩ | ⟨b, hkept, rfl⟩
  · decide
  · exact hexDigit_component n hn
  · have hbyte : UInt8.ofNat b.toNat = b := UInt8.ofNat_toNat
    exact kept_component b.toNat (kept_char hkept).2.1 (hbyte.symm ▸ hkept)

theorem validatePercentEncoding_cons {c : Char} (hc : c ≠ '%') (t : Text) :
    validatePercentEncoding (c :: t) = validatePercentEncoding t := by
  rw [validatePercentEncoding.eq_def]
  exact if_neg hc

theorem validatePercentEncoding_escaped (b : UInt8) (t : Text) :
    validatePercentEncoding (escaped b ++ t) = validatePercentEncoding t := by
  have hb := b.toNat_lt
  have hhigh := (hexDigit_spec (b.toNat / 16) (by omega)).1
  have hlow := (hexDigit_spec (b.toNat % 16) (by omega)).1
  rw [escaped, List.cons_append, List.cons_append, List.cons_append, List.nil_append,
    validatePercentEncoding, if_pos rfl]
  simp only [hhigh, hlow, Bool.and_self, if_true]

theorem validatePercentEncoding_encoded (bytes : List UInt8) :
    validatePercentEncoding (bytes.flatMap (encodedByte assetComponentEncodeSet)) = .ok () := by
  induction bytes with
  | nil => rw [List.flatMap_nil, validatePercentEncoding]
  | cons b bytes ih =>
    rw [List.flatMap_cons, encodedByte]
    split
    · rename_i hkept
      rw [List.singleton_append, validatePercentEncoding_cons (kept_ne_percent (by decide) hkept)]
      exact ih
    · rw [validatePercentEncoding_escaped]
      exact ih

/-- Decoding undoes the encoding of a component. -/
theorem decodeComponent_encodeComponent (h : codec.Documented) (t : Text) :
    decodeComponent codec (encodeComponent codec t) = .ok t := by
  have hbytes : codec.percentDecodeStr (encodeComponent codec t) = utf8Bytes t :=
    percentDecodeStr_utf8PercentEncode h (by decide) t
  refine then_eq_ok_iff.mpr ⟨?_, ?_⟩
  · rw [encodeComponent, h.encoded]
    exact validatePercentEncoding_encoded _
  · rw [hbytes, fromUtf8_utf8Bytes]
    rfl

theorem decimal_chars (n : Nat) : (decimal n).all Char.isDigit = true :=
  List.all_eq_true.mpr fun _ hc => Nat.isDigit_of_mem_toDigits (by decide) (by decide) hc

theorem parseUnsigned_decimal {bound n : Nat} (h : n < bound) :
    parseUnsigned bound (decimal n) = some n := by
  have hsign : stripPrefix ['+'] (decimal n) = none := by
    rw [stripPrefix, if_neg]
    rintro ⟨rest, hrest⟩
    have hplus : '+' ∈ decimal n := by rw [← hrest]; exact List.mem_cons_self
    exact absurd (List.all_eq_true.mp (decimal_chars n) _ hplus) (by decide)
  have hvalue : Nat.ofDigitChars 10 (decimal n) 0 = n := Nat.ofDigitChars_ten_toDigits
  simp only [parseUnsigned, hsign, Option.getD_none, hvalue]
  exact if_pos ⟨Nat.toDigits_ne_nil, decimal_chars n, h⟩

theorem queryValue_append (label value : Text) : queryValue (label ++ value) label = .ok value := by
  rw [queryValue, stripPrefix_append]
  rfl

/-- A character that a class excludes does not occur in text of the class. -/
theorem not_mem_of_all {p : Char → Bool} {c : Char} (h : t.all p = true) (hc : p c = false) :
    c ∉ t := by
  intro hmem
  rw [List.all_eq_true.mp h c hmem] at hc
  cases hc

theorem uuid_chars (h : isCanonicalUuid t = true) :
    (t.all fun c => isLowerHex c || c == '-') = true := by
  rw [isCanonicalUuid, Bool.and_eq_true] at h
  apply List.all_eq_true.mpr
  intro c hc
  obtain ⟨i, hi, hat⟩ := List.mem_iff_getElem.mp hc
  have hmem : (c, i) ∈ t.zipIdx := by
    rw [List.mk_mem_zipIdx_iff_getElem?, List.getElem?_eq_getElem hi, hat]
  have hchar := List.all_eq_true.mp h.2 (c, i) hmem
  split at hchar
  · rw [hchar, Bool.or_true]
  · rw [hchar, Bool.true_or]

/-- What the reader relies on in a valid reference. -/
structure Readable (codec : PercentCodec) (a : AssetRef) : Prop where
  version : a.version = assetRefVersion
  origin : (a.originRuntimeId.all fun c => isLowerHex c || c == '-') = true
  digest : a.sha256.all isLowerHex = true
  dimensions : (a.width = none ∧ a.height = none) ∨ ∃ w h, a.width = some w ∧ a.height = some h
  short : utf8Len (a.toStr codec) ≤ maxAssetRefBytes

theorem readable_of_valid (h : a.validate codec = .ok ()) : Readable codec a := by
  obtain ⟨hversion, h⟩ := then_eq_ok_iff.mp h
  obtain ⟨huuid, h⟩ := then_eq_ok_iff.mp h
  obtain ⟨hsha, h⟩ := then_eq_ok_iff.mp h
  obtain ⟨-, h⟩ := then_eq_ok_iff.mp h
  obtain ⟨-, h⟩ := then_eq_ok_iff.mp h
  obtain ⟨-, h⟩ := then_eq_ok_iff.mp h
  obtain ⟨hdimensions, h⟩ := then_eq_ok_iff.mp h
  have hdigest := (not_or.mp (refuse_eq_ok_iff.mp hsha)).2
  constructor
  · exact not_not.mp (refuse_eq_ok_iff.mp hversion)
  · exact uuid_chars (Bool.not_eq_false _ ▸ refuse_eq_ok_iff.mp huuid)
  · exact Bool.not_eq_false _ ▸ hdigest
  · cases hw : a.width with
    | none =>
      cases hh : a.height with
      | none => exact .inl ⟨rfl, rfl⟩
      | some height =>
        rw [hw, hh] at hdimensions
        cases hdimensions
    | some width =>
      cases hh : a.height with
      | none =>
        rw [hw, hh] at hdimensions
        cases hdimensions
      | some height => exact .inr ⟨width, height, rfl, rfl⟩
  · exact Nat.not_lt.mp (refuse_eq_ok_iff.mp h)

theorem splitOn_part {c : Char} {part : Text} (h : c ∉ part) (rest : Text) :
    (part ++ c :: rest).splitOn c = part :: rest.splitOn c := by
  rw [List.splitOn_append_cons_self, List.splitOn_eq_singleton h]
  rfl

theorem readPath_path (h : Readable codec a) :
    readPath a.path = .ok (a.version, a.originRuntimeId, a.sha256) := by
  have hversion : '/' ∉ decimal a.version.toNat := not_mem_of_all (decimal_chars _) (by decide)
  have horigin : '/' ∉ a.originRuntimeId := not_mem_of_all h.origin (by decide)
  have hdigest : '/' ∉ "sha256:".toList ++ a.sha256 := by
    rw [List.mem_append]
    exact not_or.mpr ⟨by decide, not_mem_of_all h.digest (by decide)⟩
  have hsplit : a.path.splitOn '/' =
      [decimal a.version.toNat, a.originRuntimeId, "sha256:".toList ++ a.sha256] := by
    rw [AssetRef.path, splitOn_part hversion, splitOn_part horigin, List.splitOn_eq_singleton hdigest]
  simp only [readPath, hsplit]
  rw [parseUnsigned_decimal a.version.toNat_lt, stripPrefix_append]
  have hbyte : UInt8.ofNat a.version.toNat = a.version := UInt8.ofNat_toNat
  exact congrArg (fun version => Except.ok (version, a.originRuntimeId, a.sha256)) hbyte

theorem readDimension_field {label : Text} (n : UInt32) :
    readDimension (label ++ decimal n.toNat) label = .ok n := by
  have hvalue : UInt32.ofNat n.toNat = n := UInt32.ofNat_toNat
  rw [readDimension, queryValue_append]
  refine bind_eq_ok_iff.mpr ⟨_, rfl, ?_⟩
  rw [parseUnsigned_decimal n.toNat_lt]
  exact congrArg Except.ok hvalue

theorem readRequired_fields (name mediaType : Text) (size : UInt64) :
    readRequired ("name=".toList ++ name) ("type=".toList ++ mediaType)
      ("size=".toList ++ decimal size.toNat) = .ok (name, mediaType, size) := by
  have hvalue : UInt64.ofNat size.toNat = size := UInt64.ofNat_toNat
  have hlt : size.toNat < u64Bound := size.toNat_lt
  rw [readRequired, queryValue_append, queryValue_append, queryValue_append]
  refine bind_eq_ok_iff.mpr ⟨_, rfl, bind_eq_ok_iff.mpr ⟨_, rfl, bind_eq_ok_iff.mpr ⟨_, rfl, ?_⟩⟩⟩
  rw [parseUnsigned_decimal hlt]
  exact congrArg (fun n => Except.ok (name, mediaType, n)) hvalue

/-- The fields of a query, one after the other. -/
theorem query_eq (a : AssetRef) : a.query codec =
    ("name=".toList ++ encodeComponent codec a.name) ++ '&' ::
      (("type=".toList ++ encodeComponent codec a.mediaType) ++ '&' ::
        (("size=".toList ++ decimal a.size.toNat) ++
          (dimensionField "&width=".toList a.width ++ dimensionField "&height=".toList a.height))) := by
  have htype : "&type=".toList = '&' :: "type=".toList := by decide
  have hsize : "&size=".toList = '&' :: "size=".toList := by decide
  rw [AssetRef.query, htype, hsize]
  simp only [List.append_assoc, List.cons_append]

theorem field_free (h : codec.Documented) (label t : Text) (hlabel : '&' ∉ label) :
    '&' ∉ label ++ encodeComponent codec t := by
  rw [List.mem_append]
  exact not_or.mpr ⟨hlabel, not_mem_of_all (component_chars h t) (by decide)⟩

theorem decimal_field_free (n : Nat) (label : Text) (hlabel : '&' ∉ label) :
    '&' ∉ label ++ decimal n := by
  rw [List.mem_append]
  exact not_or.mpr ⟨hlabel, not_mem_of_all (decimal_chars n) (by decide)⟩

theorem readQuery_query (h : codec.Documented) (hread : Readable codec a) :
    readQuery (a.query codec) = .ok ⟨encodeComponent codec a.name, encodeComponent codec a.mediaType,
      a.size, a.width, a.height⟩ := by
  have hname := field_free h "name=".toList a.name (by decide)
  have htype := field_free h "type=".toList a.mediaType (by decide)
  have hsize := decimal_field_free a.size.toNat "size=".toList (by decide)
  have hrequired := readRequired_fields (encodeComponent codec a.name)
    (encodeComponent codec a.mediaType) a.size
  rcases hread.dimensions with ⟨hw, hh⟩ | ⟨width, height, hw, hh⟩
  · have hsplit : (a.query codec).splitOn '&' = ["name=".toList ++ encodeComponent codec a.name,
        "type=".toList ++ encodeComponent codec a.mediaType, "size=".toList ++ decimal a.size.toNat] := by
      rw [query_eq, hw, hh, splitOn_part hname, splitOn_part htype, dimensionField, dimensionField,
        List.append_nil, List.append_nil, List.splitOn_eq_singleton hsize]
    simp only [readQuery, hsplit, hw, hh]
    exact bind_eq_ok_iff.mpr ⟨_, hrequired, rfl⟩
  · have hwidth := decimal_field_free width.toNat "width=".toList (by decide)
    have hheight := decimal_field_free height.toNat "height=".toList (by decide)
    have hwidthField : "&width=".toList = '&' :: "width=".toList := by decide
    have hheightField : "&height=".toList = '&' :: "height=".toList := by decide
    have hsplit : (a.query codec).splitOn '&' = ["name=".toList ++ encodeComponent codec a.name,
        "type=".toList ++ encodeComponent codec a.mediaType, "size=".toList ++ decimal a.size.toNat,
        "width=".toList ++ decimal width.toNat, "height=".toList ++ decimal height.toNat] := by
      rw [query_eq, hw, hh, splitOn_part hname, splitOn_part htype, dimensionField, dimensionField,
        hwidthField, hheightField, List.cons_append, List.cons_append, List.cons_append,
        splitOn_part hsize, splitOn_part hwidth, List.splitOn_eq_singleton hheight]
    simp only [readQuery, hsplit, hw, hh]
    refine bind_eq_ok_iff.mpr ⟨_, hrequired, bind_eq_ok_iff.mpr ⟨_, readDimension_field width, ?_⟩⟩
    exact bind_eq_ok_iff.mpr ⟨_, readDimension_field height, rfl⟩

/-- A valid reference reads back from what it is written as. -/
theorem fromStr_toStr (h : codec.Documented) (hvalid : a.validate codec = .ok ()) :
    AssetRef.fromStr codec (a.toStr codec) = .ok a := by
  have hread := readable_of_valid hvalid
  have hpath : '?' ∉ a.path := by
    have hmark : ∀ p : Text, p = decimal a.version.toNat ∨ p = a.originRuntimeId ∨
        p = "sha256:".toList ∨ p = a.sha256 → '?' ∉ p := by
      rintro p (rfl | rfl | rfl | rfl)
      · exact not_mem_of_all (decimal_chars _) (by decide)
      · exact not_mem_of_all hread.origin (by decide)
      · decide
      · exact not_mem_of_all hread.digest (by decide)
    simp only [AssetRef.path, List.mem_append, List.mem_cons, not_or]
    exact ⟨hmark _ (.inl rfl), by decide, hmark _ (.inr (.inl rfl)), by decide,
      hmark _ (.inr (.inr (.inl rfl))), hmark _ (.inr (.inr (.inr rfl)))⟩
  have hinner : (stripPrefix "<^v".toList (a.toStr codec)).bind (stripSuffix ['>']) =
      some (a.path ++ '?' :: a.query codec) := by
    rw [AssetRef.toStr, stripPrefix_append, Option.bind_some, stripSuffix_eq_some_iff]
    simp only [List.append_assoc, List.cons_append]
  have hsplit : splitOnce '?' (a.path ++ '?' :: a.query codec) = some (a.path, a.query codec) :=
    splitOnce_eq_some_iff.mpr ⟨rfl, hpath⟩
  refine then_eq_ok_iff.mpr ⟨refuse_eq_ok_iff.mpr (Nat.not_lt.mpr hread.short), ?_⟩
  refine bind_eq_ok_iff.mpr ⟨_, orElse_eq_ok_iff.mpr hinner, ?_⟩
  refine bind_eq_ok_iff.mpr ⟨_, orElse_eq_ok_iff.mpr hsplit, ?_⟩
  refine bind_eq_ok_iff.mpr ⟨_, readPath_path hread, ?_⟩
  refine bind_eq_ok_iff.mpr ⟨_, readQuery_query h hread, ?_⟩
  refine bind_eq_ok_iff.mpr ⟨_, decodeComponent_encodeComponent h a.name, ?_⟩
  refine bind_eq_ok_iff.mpr ⟨_, decodeComponent_encodeComponent h a.mediaType, ?_⟩
  refine then_eq_ok_iff.mpr ⟨hvalid, then_eq_ok_iff.mpr ⟨?_, rfl⟩⟩
  exact refuse_eq_ok_iff.mpr (not_not.mpr rfl)

end Writing

end AssetRefs
