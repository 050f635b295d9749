import Mathlib.Data.Finset.Card
import Mathlib.Data.List.DropRight
import Mathlib.Order.Interval.Finset.Nat
import GitIM.ByteOffsets
import GitIM.Trimming

/-!
# The slugs of workspaces

The name of a directory is normalized into a slug; a slug that is taken or reserved is numbered, from
two on. The length is cut before the number is added, so a long slug with a number is one that the
validator refuses.
-/

namespace WorkspaceSlugs

open TextLines TextScan ThreadFormat ByteOffsets

def reservedSlugs : List Text :=
  ["default".toList, "system".toList, "active".toList, "current".toList]

def maxLen : Nat := 32

def fallback : Text := "workspace".toList

inductive SlugError where
  | empty
  | tooLong
  | invalidChars
  | hyphenBoundary
  | consecutiveHyphens
  | reserved
  deriving DecidableEq

/-- Every run of hyphens becomes one. -/
def collapse : Bool → Text → Text
  | _, [] => []
  | prevDash, c :: rest =>
    if c = '-' then if prevDash then collapse true rest else c :: collapse true rest
    else c :: collapse false rest

def trimEndHyphens (t : Text) : Text := t.rdropWhile fun c => c = '-'

def trimHyphens (t : Text) : Text := trimEndHyphens (t.dropWhile fun c => c = '-')

def hyphenated (lower : Text) : Text := lower.map fun c => if c.isAlphanum || c == '-' then c else '-'

def normalize (toLowercase : Text → Text) (raw : Text) : Text :=
  let trimmed := trimHyphens (collapse false (hyphenated (toLowercase raw)))
  let truncated := trimEndHyphens (trimmed.take maxLen)
  if truncated = [] then fallback else truncated

def numbered (candidate : Text) (n : Nat) : Text := candidate ++ '-' :: Nat.toDigits 10 n

/-- The last number of the counter. -/
def lastNumber : Nat := 4294967295

/-- The loop over the numbers, with the numbers left; there is no answer when they run out. -/
def search (candidate : Text) (existing : Finset Text) : Nat → Nat → Option Text
  | 0, _ => none
  | left + 1, n =>
    if numbered candidate n ∉ existing ∧ numbered candidate n ∉ reservedSlugs then
      some (numbered candidate n)
    else search candidate existing left (n + 1)

def resolve (candidate : Text) (existing : Finset Text) : Option Text :=
  if candidate ∉ reservedSlugs ∧ candidate ∉ existing then some candidate
  else search candidate existing (lastNumber - 1) 2

def isSlugChar (c : Char) : Bool := c.isDigit || c.isLower || c == '-'

def validate (slug : Text) : Except SlugError Unit :=
  if slug = [] then .error .empty
  else if utf8Len slug > maxLen then .error .tooLong
  else if slug.all isSlugChar = false then .error .invalidChars
  else if slug.head? = some '-' ∨ slug.getLast? = some '-' then .error .hyphenBoundary
  else if "--".toList <:+: slug then .error .consecutiveHyphens
  else if slug ∈ reservedSlugs then .error .reserved
  else .ok ()

section Shapes
variable {s t slug : Text}

/-- A slug but for its length and the reserved words. -/
structure Shaped (slug : Text) : Prop where
  nonempty : slug ≠ []
  chars : slug.all isSlugChar = true
  front : slug.head? ≠ some '-'
  back : slug.getLast? ≠ some '-'
  single : ¬"--".toList <:+: slug

theorem validate_eq_ok_iff :
    validate slug = .ok () ↔ Shaped slug ∧ utf8Len slug ≤ maxLen ∧ slug ∉ reservedSlugs := by
  rw [validate]
  constructor
  · intro h
    split_ifs at h with hempty hlong hchars hedge hrun hreserved
    have hall : slug.all isSlugChar = true := by
      cases hslug : slug.all isSlugChar
      · exact absurd hslug hchars
      · rfl
    exact ⟨⟨hempty, hall, fun hfront => hedge (.inl hfront), fun hback => hedge (.inr hback), hrun⟩,
      Nat.not_lt.mp hlong, hreserved⟩
  · rintro ⟨hshaped, hlong, hreserved⟩
    rw [if_neg hshaped.nonempty, if_neg (Nat.not_lt.mpr hlong), hshaped.chars,
      if_neg (by decide), if_neg (not_or.mpr ⟨hshaped.front, hshaped.back⟩), if_neg hshaped.single,
      if_neg hreserved]

theorem isLower_iff {c : Char} : c.isLower = true ↔ c.val ≥ 'a'.val ∧ c.val ≤ 'z'.val :=
  (Bool.and_eq_true ..).to_iff.trans (and_congr decide_eq_true_iff decide_eq_true_iff)

theorem slugChar_range {c : Char} (h : isSlugChar c = true) :
    ((c.val ≥ '0'.val ∧ c.val ≤ '9'.val) ∨ (c.val ≥ 'a'.val ∧ c.val ≤ 'z'.val)) ∨ c = '-' := by
  simpa only [isSlugChar, Char.isDigit, Bool.or_eq_true, Bool.and_eq_true, decide_eq_true_eq, isLower_iff,
    beq_iff_eq] using h

theorem slugChar_size {c : Char} (h : isSlugChar c = true) : c.utf8Size = 1 := by
  rw [Char.utf8Size_eq_one_iff]
  rcases slugChar_range h with (⟨-, hc⟩ | ⟨-, hc⟩) | rfl
  · exact UInt32.le_trans hc (by decide)
  · exact UInt32.le_trans hc (by decide)
  · decide

theorem utf8Len_slug (h : s.all isSlugChar = true) : utf8Len s = s.length :=
  utf8Len_ascii fun _ hc => slugChar_size (List.all_eq_true.mp h _ hc)

/-- Two hyphens in a row at the front, or further on. -/
theorem hyphens_infix_cons {c : Char} : "--".toList <:+: c :: t ↔
    (c = '-' ∧ t.head? = some '-') ∨ "--".toList <:+: t := by
  rw [List.infix_cons_iff]
  refine or_congr ?_ Iff.rfl
  constructor
  · rintro ⟨rest, hrest⟩
    obtain ⟨hc, htail⟩ := List.cons.inj hrest
    exact ⟨hc.symm, by rw [← htail]; rfl⟩
  · rintro ⟨rfl, hhead⟩
    cases t with
    | nil => cases hhead
    | cons d t =>
      obtain rfl : d = '-' := Option.some.inj hhead
      exact ⟨t, rfl⟩

theorem hyphens_infix_append (hs : ¬"--".toList <:+: s) (hback : s.getLast? ≠ some '-')
    (ht : ¬"--".toList <:+: t) : ¬"--".toList <:+: s ++ t := by
  induction s with
  | nil => exact ht
  | cons c s ih =>
    rw [hyphens_infix_cons, not_or] at hs
    rw [List.cons_append, hyphens_infix_cons]
    rintro (⟨rfl, hhead⟩ | hlater)
    · cases s with
      | nil => exact hback rfl
      | cons d s => exact hs.1 ⟨rfl, hhead⟩
    · refine ih hs.2 ?_ hlater
      cases s with
      | nil => exact fun h => by cases h
      | cons d s => exact hback

/-- After a hyphen, collapsed text starts with something else; within it no two hyphens meet. -/
theorem collapse_single (prevDash : Bool) (t : Text) :
    ¬"--".toList <:+: collapse prevDash t ∧
      (prevDash = true → (collapse prevDash t).head? ≠ some '-') := by
  induction t generalizing prevDash with
  | nil => exact ⟨by rw [collapse]; decide, fun _ h => by cases h⟩
  | cons c rest ih =>
    rw [collapse]
    by_cases hc : c = '-'
    · subst hc
      cases prevDash with
      | true => exact ih true
      | false =>
        simp only [if_true, Bool.false_eq_true, if_false]
        refine ⟨?_, fun h => h.elim⟩
        rw [hyphens_infix_cons]
        rintro (⟨-, hhead⟩ | hlater)
        · exact (ih true).2 rfl hhead
        · exact (ih true).1 hlater
    · rw [if_neg hc]
      refine ⟨?_, fun _ hhead => hc (Option.some.inj hhead)⟩
      rw [hyphens_infix_cons]
      rintro (⟨hhyphen, -⟩ | hlater)
      · exact hc hhyphen
      · exact (ih false).1 hlater

theorem mem_collapse {prevDash : Bool} {c : Char} (h : c ∈ collapse prevDash t) : c ∈ t := by
  induction t generalizing prevDash with
  | nil => cases h
  | cons d rest ih =>
    rw [collapse] at h
    split at h
    · split at h
      · exact List.mem_cons_of_mem d (ih h)
      · rcases List.mem_cons.mp h with rfl | h
        · exact List.mem_cons_self
        · exact List.mem_cons_of_mem d (ih h)
    · rcases List.mem_cons.mp h with rfl | h
      · exact List.mem_cons_self
      · exact List.mem_cons_of_mem d (ih h)

/-- Text without two hyphens in a row is collapsed already. -/
theorem collapse_eq (h : ¬"--".toList <:+: t) {prevDash : Bool}
    (hfront : prevDash = true → t.head? ≠ some '-') : collapse prevDash t = t := by
  induction t generalizing prevDash with
  | nil => rw [collapse]
  | cons c rest ih =>
    rw [hyphens_infix_cons, not_or] at h
    rw [collapse]
    by_cases hc : c = '-'
    · subst hc
      cases prevDash with
      | true => exact absurd rfl (hfront rfl)
      | false =>
        simp only [if_true, Bool.false_eq_true, if_false]
        rw [ih h.2 fun _ hhead => h.1 ⟨rfl, hhead⟩]
    · rw [if_neg hc, ih h.2 fun hfalse => absurd hfalse Bool.false_ne_true]

theorem trimEndHyphens_back (t : Text) : (trimEndHyphens t).getLast? ≠ some '-' := by
  intro hlast
  have hne : trimEndHyphens t ≠ [] := by
    intro hnil
    rw [hnil] at hlast
    cases hlast
  rw [List.getLast?_eq_some_getLast hne] at hlast
  exact List.rdropWhile_last_not _ _ hne (decide_eq_true (Option.some.inj hlast))

theorem trimEndHyphens_eq (h : t.getLast? ≠ some '-') : trimEndHyphens t = t := by
  rw [trimEndHyphens, List.rdropWhile_eq_self_iff]
  intro hne hlast
  apply h
  rw [List.getLast?_eq_some_getLast hne, of_decide_eq_true hlast]

theorem dropWhile_front (t : Text) : (t.dropWhile fun c => c = '-').head? ≠ some '-' := by
  intro hhead
  exact absurd (Trimming.head?_dropWhile_false hhead) (by decide)

theorem dropWhile_eq (h : t.head? ≠ some '-') : (t.dropWhile fun c => c = '-') = t := by
  apply Trimming.dropWhile_head
  intro c hc
  apply decide_eq_false
  rintro rfl
  exact h hc

/-- A beginning that is not empty starts as the text does. -/
theorem front_of_prefix (h : s <+: t) (ht : t.head? ≠ some '-') : s.head? ≠ some '-' := by
  intro hs
  obtain ⟨rest, rfl⟩ := h
  cases s with
  | nil => cases hs
  | cons c s => exact ht hs

end Shapes

section Normalizing
variable {toLowercase : Text → Text}

/-- What lowercasing does to ASCII letters and the other characters of a slug. -/
structure Lowers (toLowercase : Text → Text) : Prop where
  keeps : ∀ t : Text, t.all isSlugChar = true → toLowercase t = t
  noUpper : ∀ t, ∀ c ∈ toLowercase t, c.isUpper = false

theorem isAlphanum_eq (c : Char) : c.isAlphanum = (c.isUpper || c.isLower || c.isDigit) := rfl

theorem hyphenated_chars (h : Lowers toLowercase) (raw : Text) :
    ∀ c ∈ hyphenated (toLowercase raw), isSlugChar c = true := by
  intro c hc
  obtain ⟨d, hd, rfl⟩ := List.mem_map.mp hc
  have hupper := h.noUpper raw d hd
  split
  · rename_i hkept
    rw [isAlphanum_eq, hupper, Bool.false_or] at hkept
    rw [isSlugChar, Bool.or_comm d.isDigit]
    exact hkept
  · decide

theorem hyphenated_eq {t : Text} (h : t.all isSlugChar = true) : hyphenated t = t := by
  rw [hyphenated]
  conv_rhs => rw [← List.map_id t]
  apply List.map_congr_left
  intro c hc
  have hchar := List.all_eq_true.mp h c hc
  rw [if_pos]
  · rfl
  · simp only [isSlugChar, Bool.or_eq_true] at hchar
    simp only [isAlphanum_eq, Bool.or_eq_true]
    rcases hchar with (hdigit | hlower) | hhyphen
    · exact .inl (.inr hdigit)
    · exact .inl (.inl (.inr hlower))
    · exact .inr hhyphen

theorem fallback_shaped : Shaped fallback := by
  constructor <;> decide

/-- What is normalized is a slug but for the reserved words. -/
theorem normalize_shaped (h : Lowers toLowercase) (raw : Text) :
    Shaped (normalize toLowercase raw) ∧ (normalize toLowercase raw).length ≤ maxLen := by
  rw [normalize]
  split
  · exact ⟨fallback_shaped, by decide⟩
  · rename_i hne
    have hchars := hyphenated_chars h raw
    have hsingle := (collapse_single false (hyphenated (toLowercase raw))).1
    generalize htext : hyphenated (toLowercase raw) = text at *
    generalize hrest : (collapse false text).dropWhile (fun c => c = '-') = rest at *
    have hsuffix : rest <:+ collapse false text := hrest ▸ List.dropWhile_suffix _
    have hfront : rest.head? ≠ some '-' := hrest ▸ dropWhile_front _
    have htrim : trimHyphens (collapse false text) <+: rest := by
      rw [trimHyphens, hrest]
      exact List.rdropWhile_prefix _ _
    have hcut : trimEndHyphens ((trimHyphens (collapse false text)).take maxLen) <+:
        (trimHyphens (collapse false text)).take maxLen := List.rdropWhile_prefix _ _
    have hprefix := (hcut.trans (List.take_prefix _ _)).trans htrim
    have hwithin := hprefix.isInfix.trans hsuffix.isInfix
    refine ⟨⟨hne, ?_, front_of_prefix hprefix hfront, trimEndHyphens_back _,
      fun hrun => hsingle (hrun.trans hwithin)⟩, ?_⟩
    · apply List.all_eq_true.mpr
      intro c hc
      exact hchars c (mem_collapse (hwithin.subset hc))
    · have hlen := hcut.length_le
      have htake := List.length_take_le maxLen (trimHyphens (collapse false text))
      omega

/-- A slug of the right length is normalized already. -/
theorem normalize_eq (h : Lowers toLowercase) {t : Text} (ht : Shaped t) (hlen : t.length ≤ maxLen) :
    normalize toLowercase t = t := by
  have htrim : trimHyphens (collapse false t) = t := by
    rw [collapse_eq ht.single fun hfalse => absurd hfalse Bool.false_ne_true, trimHyphens,
      dropWhile_eq ht.front, trimEndHyphens_eq ht.back]
  simp only [normalize]
  rw [h.keeps t ht.chars, hyphenated_eq ht.chars, htrim, List.take_of_length_le hlen,
    trimEndHyphens_eq ht.back, if_neg ht.nonempty]

theorem normalize_normalize (h : Lowers toLowercase) (raw : Text) :
    normalize toLowercase (normalize toLowercase raw) = normalize toLowercase raw := by
  obtain ⟨hshaped, hlen⟩ := normalize_shaped h raw
  exact normalize_eq h hshaped hlen

end Normalizing

section Numbers
variable {candidate slug : Text} {existing : Finset Text} {m n : Nat}

theorem numbered_injective (h : numbered candidate m = numbered candidate n) : m = n := by
  have hdigits := (List.cons.inj (List.append_cancel_left h)).2
  have hvalue := congrArg (fun digits => Nat.ofDigitChars 10 digits 0) hdigits
  simpa only [Nat.ofDigitChars_ten_toDigits] using hvalue

theorem length_toDigits_mono (h : m ≤ n) : (Nat.toDigits 10 m).length ≤ (Nat.toDigits 10 n).length := by
  have hlt := (Nat.length_toDigits_le_iff (b := 10) (by decide) Nat.length_toDigits_pos).mp
    (Nat.le_refl (Nat.toDigits 10 n).length)
  exact (Nat.length_toDigits_le_iff (by decide) Nat.length_toDigits_pos).mpr (by omega)

theorem digits_chars (n : Nat) : (Nat.toDigits 10 n).all Char.isDigit = true :=
  List.all_eq_true.mpr fun _ hc => Nat.isDigit_of_mem_toDigits (by decide) (by decide) hc

theorem not_hyphen_of_digit {c : Char} (h : c ∈ Nat.toDigits 10 n) : c ≠ '-' := by
  rintro rfl
  exact absurd (List.all_eq_true.mp (digits_chars n) _ h) (by decide)

theorem hyphen_mem_numbered (candidate : Text) (n : Nat) : '-' ∈ numbered candidate n :=
  List.mem_append_right _ List.mem_cons_self

theorem numbered_not_reserved (candidate : Text) (n : Nat) : numbered candidate n ∉ reservedSlugs := by
  intro hmem
  have hhyphen := hyphen_mem_numbered candidate n
  have hfree : reservedSlugs.all (fun t => !t.contains '-') = true := by decide
  have hnone := List.all_eq_true.mp hfree _ hmem
  rw [Bool.not_eq_true', ← Bool.not_eq_true, List.contains_iff_mem] at hnone
  exact hnone hhyphen

theorem numbered_shaped (h : Shaped candidate) (n : Nat) : Shaped (numbered candidate n) := by
  have hdigits : ∀ c ∈ Nat.toDigits 10 n, isSlugChar c = true := by
    intro c hc
    rw [isSlugChar, List.all_eq_true.mp (digits_chars n) c hc, Bool.true_or, Bool.true_or]
  have hlast : (numbered candidate n).getLast? = (Nat.toDigits 10 n).getLast? := by
    rw [numbered, List.getLast?_append_of_ne_nil _ (List.cons_ne_nil _ _),
      List.getLast?_cons_of_ne_nil Nat.toDigits_ne_nil]
  constructor
  · exact List.append_ne_nil_of_left_ne_nil h.nonempty _
  · rw [numbered, List.all_append, List.all_cons, h.chars, List.all_eq_true.mpr hdigits]
    decide
  · rw [numbered, List.head?_append_of_ne_nil _ h.nonempty]
    exact h.front
  · rw [hlast]
    intro hhyphen
    exact not_hyphen_of_digit (List.mem_of_getLast? hhyphen) rfl
  · refine hyphens_infix_append h.single h.back ?_
    rw [hyphens_infix_cons]
    rintro (⟨-, hhead⟩ | hlater)
    · exact not_hyphen_of_digit (List.mem_of_mem_head? hhead) rfl
    · exact not_hyphen_of_digit (hlater.subset (by decide)) rfl

theorem numbered_length (h : Shaped candidate) (n : Nat) :
    utf8Len (numbered candidate n) = candidate.length + 1 + (Nat.toDigits 10 n).length := by
  rw [utf8Len_slug (numbered_shaped h n).chars, numbered, List.length_append, List.length_cons]
  omega

/-- The search answers with the first free number. -/
theorem search_eq_some {left : Nat} (h : search candidate existing left n = some slug) :
    ∃ k, n ≤ k ∧ slug = numbered candidate k ∧ slug ∉ existing ∧
      ∀ j, n ≤ j → j < k → numbered candidate j ∈ existing := by
  induction left generalizing n with
  | zero => cases h
  | succ left ih =>
    rw [search] at h
    split at h
    · rename_i hfree
      obtain rfl := Option.some.inj h
      exact ⟨n, Nat.le_refl n, rfl, hfree.1, fun j hle hlt => absurd hle (Nat.not_le.mpr hlt)⟩
    · rename_i htaken
      obtain ⟨k, hle, hslug, hfree, hbefore⟩ := ih h
      refine ⟨k, by omega, hslug, hfree, fun j hj hlt => ?_⟩
      rcases Nat.eq_or_lt_of_le hj with rfl | hlater
      · by_contra hnot
        exact htaken ⟨hnot, numbered_not_reserved candidate n⟩
      · exact hbefore j hlater hlt

theorem search_eq_none {left : Nat} (h : search candidate existing left n = none) :
    ∀ j, n ≤ j → j < n + left → numbered candidate j ∈ existing := by
  induction left generalizing n with
  | zero =>
    intro j hle hlt
    omega
  | succ left ih =>
    rw [search] at h
    split at h
    · cases h
    · rename_i htaken
      intro j hle hlt
      rcases Nat.eq_or_lt_of_le hle with rfl | hlater
      · by_contra hnot
        exact htaken ⟨hnot, numbered_not_reserved candidate n⟩
      · exact ih h j hlater (by omega)

/-- With fewer slugs than numbers the search finds one. -/
theorem search_finds (hfew : existing.card < lastNumber - 1) (candidate : Text) :
    ∃ slug, search candidate existing (lastNumber - 1) 2 = some slug := by
  rw [← Option.isSome_iff_exists, Option.isSome_iff_ne_none]
  intro hnone
  have hall := search_eq_none hnone
  have hcard : (Finset.Ico 2 (2 + (lastNumber - 1))).card ≤ existing.card := by
    apply Finset.card_le_card_of_injOn (numbered candidate)
    · intro j hj
      obtain ⟨hle, hlt⟩ := Finset.mem_Ico.mp hj
      exact hall j hle hlt
    · intro j _ k _ hjk
      exact numbered_injective hjk
  rw [Nat.card_Ico] at hcard
  omega

end Numbers

section Resolving
variable {toLowercase : Text → Text} {candidate : Text} {existing : Finset Text}

/-- The slug itself is free, or one of its numbered forms is and keeps to the length. -/
def FreeFormFits (candidate : Text) (existing : Finset Text) : Prop :=
  (candidate ∉ reservedSlugs ∧ candidate ∉ existing) ∨
    ∃ n, 2 ≤ n ∧ utf8Len (numbered candidate n) ≤ maxLen ∧ numbered candidate n ∉ existing

theorem resolve_free (hfew : existing.card < lastNumber - 1) (candidate : Text) :
    ∃ slug, resolve candidate existing = some slug ∧ slug ∉ existing := by
  rw [resolve]
  split
  · rename_i hfree
    exact ⟨candidate, rfl, hfree.2⟩
  · obtain ⟨slug, hslug⟩ := search_finds hfew candidate
    obtain ⟨k, -, -, hfree, -⟩ := search_eq_some hslug
    exact ⟨slug, hslug, hfree⟩

theorem resolve_valid_iff (h : Shaped candidate) (hlen : candidate.length ≤ maxLen) {slug : Text}
    (hslug : resolve candidate existing = some slug) :
    validate slug = .ok () ↔ FreeFormFits candidate existing := by
  rw [resolve] at hslug
  split at hslug
  · rename_i hfree
    obtain rfl := Option.some.inj hslug
    refine iff_of_true ?_ (.inl hfree)
    rw [validate_eq_ok_iff, utf8Len_slug h.chars]
    exact ⟨h, hlen, hfree.1⟩
  · rename_i htaken
    obtain ⟨k, hk, rfl, hfree, hbefore⟩ := search_eq_some hslug
    rw [validate_eq_ok_iff]
    constructor
    · rintro ⟨-, hshort, -⟩
      exact .inr ⟨k, hk, hshort, hfree⟩
    · rintro (hfirst | ⟨n, hn, hshort, hnew⟩)
      · exact absurd hfirst htaken
      · have hle : k ≤ n := by
          by_contra hlater
          exact hnew (hbefore n hn (by omega))
        have hdigits := length_toDigits_mono hle
        rw [numbered_length h] at hshort
        refine ⟨numbered_shaped h k, ?_, numbered_not_reserved candidate k⟩
        rw [numbered_length h]
        omega

/-- The slug found for a directory is one that is free and that the validator accepts. -/
structure Usable (toLowercase : Text → Text) (raw : Text) (existing : Finset Text) : Prop where
  resolves : ∃ slug, resolve (normalize toLowercase raw) existing = some slug ∧
    slug ∉ existing ∧ validate slug = .ok ()
  idempotent : normalize toLowercase (normalize toLowercase raw) = normalize toLowercase raw

/-- Resolving always ends with a free slug; the validator accepts it exactly when the normalized name
or one of its numbered forms within the length is free. -/
theorem usable_iff (hlower : Lowers toLowercase) (raw : Text)
    (hfew : existing.card < lastNumber - 1) :
    (∃ slug, resolve (normalize toLowercase raw) existing = some slug ∧ slug ∉ existing) ∧
      (Usable toLowercase raw existing ↔ FreeFormFits (normalize toLowercase raw) existing) := by
  obtain ⟨hshaped, hlen⟩ := normalize_shaped hlower raw
  obtain ⟨slug, hslug, hfree⟩ := resolve_free hfew (normalize toLowercase raw)
  have hvalid := resolve_valid_iff hshaped hlen hslug
  refine ⟨⟨slug, hslug, hfree⟩, fun h => ?_, fun h => ?_⟩
  · obtain ⟨slug', hslug', -, hok⟩ := h.resolves
    obtain rfl : slug = slug' := Option.some.inj (hslug.symm.trans hslug')
    exact hvalid.mp hok
  · exact ⟨⟨slug, hslug, hfree, hvalid.mpr h⟩, normalize_normalize hlower raw⟩

theorem toLower_slugChar {c : Char} (h : isSlugChar c = true) : c.toLower = c := by
  refine dif_neg ?_
  rintro ⟨hlow, hhigh⟩
  rcases slugChar_range h with (⟨-, hdigit⟩ | ⟨hletter, -⟩) | rfl
  · exact absurd (UInt32.le_trans hlow hdigit) (by decide)
  · exact absurd (UInt32.le_trans hletter hhigh) (by decide)
  · exact absurd hlow (by decide)

theorem isUpper_eq_false_iff {c : Char} :
    c.isUpper = false ↔ ¬ (c.val ≥ 'A'.val ∧ c.val ≤ 'Z'.val) := decide_eq_false_iff_not

theorem isUpper_toLower (c : Char) : c.toLower.isUpper = false := by
  rw [isUpper_eq_false_iff]
  by_cases hupper : c.val ≥ 'A'.val ∧ c.val ≤ 'Z'.val
  · have hval : c.toLower.val = c.val + ('a'.val - 'A'.val) := congrArg Char.val (dif_pos hupper)
    rw [hval]
    grind [UInt32.toNat_add]
  · rwa [show c.toLower = c from dif_neg hupper]

theorem lowers_ascii : Lowers fun t => t.map Char.toLower := by
  constructor
  · intro t ht
    conv_rhs => rw [← List.map_id t]
    apply List.map_congr_left
    intro c hc
    exact toLower_slugChar (List.all_eq_true.mp ht c hc)
  · intro t c hc
    obtain ⟨d, -, rfl⟩ := List.mem_map.mp hc
    exact isUpper_toLower d

theorem usable_iff_frontend :
    (∃ slug, resolve (normalize (fun t => t.map Char.toLower) "My App".toList) {"my-app".toList} =
        some slug ∧ slug ∉ ({"my-app".toList} : Finset Text)) ∧
      (Usable (fun t => t.map Char.toLower) "My App".toList {"my-app".toList} ↔
        FreeFormFits (normalize (fun t => t.map Char.toLower) "My App".toList) {"my-app".toList}) :=
  usable_iff lowers_ascii "My App".toList (by decide)

/-- A slug of 32 characters that is taken becomes one of 34. -/
theorem not_usable : ¬∀ toLowercase, Lowers toLowercase → ∀ raw existing,
    existing.card < lastNumber - 1 → Usable toLowercase raw existing := by
  intro h
  have hlong : normalize (fun t => t.map Char.toLower) (List.replicate 32 'a') =
      List.replicate 32 'a' := by decide
  obtain ⟨slug, hslug, -, hok⟩ := (h _ lowers_ascii (List.replicate 32 'a')
    {List.replicate 32 'a'} (by decide)).resolves
  rw [hlong] at hslug
  have hfound : resolve (List.replicate 32 'a') {List.replicate 32 'a'} =
      some (List.replicate 32 'a' ++ ['-', '2']) := by decide +kernel
  obtain rfl := Option.some.inj (hfound.symm.trans hslug)
  exact absurd hok (by decide)

end Resolving

end WorkspaceSlugs
