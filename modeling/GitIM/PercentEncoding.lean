import GitIM.TextScan

/-!
# Percent encoding

A component of a reference is written byte by byte: an ASCII byte that is not in the encode set as
itself, every other byte as a percent sign and two hexadecimal digits. The library that encodes and
decodes is a parameter with its documented behaviour; decoding what was encoded gives the bytes back.
-/

namespace PercentEncoding

open TextLines TextScan

section Bytes

def utf8Bytes (t : Text) : List UInt8 := t.flatMap String.utf8EncodeChar

def fromUtf8 (bytes : List UInt8) : Option Text := bytes.toByteArray.utf8Decode?.map Array.toList

@[simp] theorem fromUtf8_utf8Bytes (t : Text) : fromUtf8 (utf8Bytes t) = some t := by
  have hdecode : (utf8Bytes t).toByteArray.utf8Decode? = some t.toArray := t.utf8Decode?_utf8Encode
  rw [fromUtf8, hdecode, Option.map_some]

theorem utf8EncodeChar_ascii {c : Char} (h : c.toNat < 128) :
    String.utf8EncodeChar c = [UInt8.ofNat c.toNat] := by
  rw [String.utf8EncodeChar]
  exact if_pos (Nat.le_of_lt_succ h)

def hexDigit (n : Nat) : Char := Char.ofNat (if n < 10 then 48 + n else 55 + n)

def isHexDigit (c : Char) : Bool :=
  c.isDigit || ('a' ≤ c && c ≤ 'f') || ('A' ≤ c && c ≤ 'F')

def hexValue (c : Char) : Nat :=
  if c.isDigit then c.toNat - 48 else if 'a' ≤ c then c.toNat - 87 else c.toNat - 55

theorem hexDigit_spec : ∀ n < 16, isHexDigit (hexDigit n) = true ∧ hexValue (hexDigit n) = n ∧
    (hexDigit n).toNat < 128 ∧ hexDigit n ≠ '%' := by
  decide

def escaped (b : UInt8) : Text := ['%', hexDigit (b.toNat / 16), hexDigit (b.toNat % 16)]

/-- The bytes that the encode set leaves as they are. -/
def kept (set : UInt8 → Bool) (b : UInt8) : Bool := decide (b.toNat < 128) && !set b

def encodedByte (set : UInt8 → Bool) (b : UInt8) : Text :=
  if kept set b then [Char.ofNat b.toNat] else escaped b

end Bytes

/-- The percent encoding library. -/
structure PercentCodec where
  utf8PercentEncode : (UInt8 → Bool) → Text → Text
  percentDecodeStr : Text → List UInt8

/-- What the library documents. -/
structure PercentCodec.Documented (codec : PercentCodec) : Prop where
  encoded : ∀ set t, codec.utf8PercentEncode set t = (utf8Bytes t).flatMap (encodedByte set)
  decodedEnd : codec.percentDecodeStr [] = []
  decodedEscape : ∀ high low rest, isHexDigit high = true → isHexDigit low = true →
    codec.percentDecodeStr ('%' :: high :: low :: rest) =
      UInt8.ofNat (16 * hexValue high + hexValue low) :: codec.percentDecodeStr rest
  decodedOther : ∀ c rest, c ≠ '%' →
    codec.percentDecodeStr (c :: rest) = String.utf8EncodeChar c ++ codec.percentDecodeStr rest

section Laws
variable {codec : PercentCodec} {set : UInt8 → Bool}

theorem kept_char {b : UInt8} (h : kept set b = true) :
    (Char.ofNat b.toNat).toNat = b.toNat ∧ b.toNat < 128 ∧ set b = false := by
  rw [kept, Bool.and_eq_true, decide_eq_true_eq, Bool.not_eq_true'] at h
  refine ⟨?_, h⟩
  have hvalid : b.toNat.isValidChar := .inl (by omega)
  rw [Char.ofNat, dif_pos hvalid]
  rfl

theorem kept_ne_percent {b : UInt8} (hpercent : set 37 = true) (h : kept set b = true) :
    Char.ofNat b.toNat ≠ '%' := by
  obtain ⟨hchar, -, hset⟩ := kept_char h
  intro heq
  have hvalue : b.toNat = 37 := by rw [← hchar, heq]; rfl
  have hbyte : b = 37 := UInt8.toNat_inj.mp hvalue
  rw [hbyte, hpercent] at hset
  cases hset

/-- An encode set that contains the percent sign can be undone. -/
theorem percentDecodeStr_encoded (h : codec.Documented) (hpercent : set 37 = true)
    (bytes : List UInt8) : codec.percentDecodeStr (bytes.flatMap (encodedByte set)) = bytes := by
  induction bytes with
  | nil => exact h.decodedEnd
  | cons b bytes ih =>
    rw [List.flatMap_cons, encodedByte]
    have hb := b.toNat_lt
    split
    · rename_i hkept
      obtain ⟨hchar, hascii, -⟩ := kept_char hkept
      rw [List.singleton_append, h.decodedOther _ _ (kept_ne_percent hpercent hkept), ih, utf8EncodeChar_ascii (by omega), hchar,
        UInt8.ofNat_toNat, List.singleton_append]
    · obtain ⟨hhigh, hhighValue, -, -⟩ := hexDigit_spec (b.toNat / 16) (by omega)
      obtain ⟨hlow, hlowValue, -, -⟩ := hexDigit_spec (b.toNat % 16) (by omega)
      have hbyte : 16 * (b.toNat / 16) + b.toNat % 16 = b.toNat := Nat.div_add_mod b.toNat 16
      rw [escaped, List.cons_append, List.cons_append, List.cons_append, List.nil_append,
        h.decodedEscape _ _ _ hhigh hlow, hhighValue, hlowValue, hbyte, ih, UInt8.ofNat_toNat]

theorem percentDecodeStr_utf8PercentEncode (h : codec.Documented) (hpercent : set 37 = true)
    (t : Text) : codec.percentDecodeStr (codec.utf8PercentEncode set t) = utf8Bytes t := by
  rw [h.encoded, percentDecodeStr_encoded h hpercent]

/-- Encoded text is ASCII: percent signs, hexadecimal digits and bytes that are kept. -/
theorem mem_utf8PercentEncode (h : codec.Documented) {t : Text} {c : Char}
    (hc : c ∈ codec.utf8PercentEncode set t) :
    c = '%' ∨ (∃ n < 16, c = hexDigit n) ∨ (∃ b, kept set b = true ∧ c = Char.ofNat b.toNat) := by
  rw [h.encoded, List.mem_flatMap] at hc
  obtain ⟨b, -, hb⟩ := hc
  rw [encodedByte] at hb
  have hlt := b.toNat_lt
  split at hb
  · rename_i hkept
    exact .inr (.inr ⟨b, hkept, List.mem_singleton.mp hb⟩)
  · rw [escaped] at hb
    rcases List.mem_cons.mp hb with rfl | hb
    · exact .inl rfl
    rcases List.mem_cons.mp hb with rfl | hb
    · exact .inr (.inl ⟨_, by omega, rfl⟩)
    · exact .inr (.inl ⟨_, Nat.mod_lt _ (by omega), List.mem_singleton.mp hb⟩)

end Laws

section Implementation

/-- An implementation of the documented behaviour. -/
def decodeBytes : Text → List UInt8
  | [] => []
  | '%' :: high :: low :: rest =>
    if isHexDigit high && isHexDigit low then
      UInt8.ofNat (16 * hexValue high + hexValue low) :: decodeBytes rest
    else 37 :: decodeBytes (high :: low :: rest)
  | c :: rest => String.utf8EncodeChar c ++ decodeBytes rest

def byteCodec : PercentCodec where
  utf8PercentEncode := fun set t => (utf8Bytes t).flatMap (encodedByte set)
  percentDecodeStr := decodeBytes

theorem byteCodec_documented : byteCodec.Documented := by
  constructor
  · intro set t
    rfl
  · rfl
  · intro high low rest hhigh hlow
    show decodeBytes _ = _
    rw [decodeBytes, hhigh, hlow]
    rfl
  · intro c rest hc
    show decodeBytes _ = _
    rw [decodeBytes]
    · rfl
    · intro high low rest' hpercent
      exact absurd hpercent hc

end Implementation

end PercentEncoding
