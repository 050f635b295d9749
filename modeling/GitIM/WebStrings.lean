import GitIM.TextScan
import Mathlib.Data.Char
import Mathlib.Data.List.DropRight
import Mathlib.Data.List.Lex
import Mathlib.Data.List.Sort

/-!
# Strings of the web client

What JavaScript does with strings: `trim`, whose white space is not the Unicode property, and
`sort`, which compares UTF-16 code units. On ASCII texts the order is that of the characters.
-/

namespace WebStrings

open TextLines TextScan

section Trimming

/-- White space and line terminators of the language; unlike `White_Space`, with U+FEFF and
without U+0085. -/
def isJsSpace (c : Char) : Bool :=
  c.toNat ∈ [0x9, 0xa, 0xb, 0xc, 0xd, 0x20, 0xa0, 0x1680, 0x2000, 0x2001, 0x2002, 0x2003, 0x2004,
    0x2005, 0x2006, 0x2007, 0x2008, 0x2009, 0x200a, 0x2028, 0x2029, 0x202f, 0x205f, 0x3000, 0xfeff]

def jsTrim (t : Text) : Text := ((t.dropWhile isJsSpace).reverse.dropWhile isJsSpace).reverse

theorem jsTrim_of_free {t : Text} (free : ∀ c ∈ t, isJsSpace c = false) : jsTrim t = t := by
  have keep : ∀ u : Text, (∀ c ∈ u, isJsSpace c = false) → u.dropWhile isJsSpace = u := by
    intro u hu
    cases u with
    | nil => rfl
    | cons c rest => rw [List.dropWhile_cons, hu c List.mem_cons_self, if_neg (by simp)]
  have keepBack : t.reverse.dropWhile isJsSpace = t.reverse :=
    keep t.reverse fun c hc => free c (List.mem_reverse.mp hc)
  rw [jsTrim, keep t free, keepBack, List.reverse_reverse]

/-- Of `jsTrim` what it does at the end. -/
def jsTrimEnd (t : Text) : Text := t.rdropWhile isJsSpace

theorem jsTrimEnd_append_cons {c : Char} (solid : isJsSpace c = false) (a b : Text) :
    jsTrimEnd (a ++ c :: b) = a ++ c :: jsTrimEnd b := by
  have split : (a ++ c :: b).reverse = b.reverse ++ (c :: a.reverse) := by simp
  rw [jsTrimEnd, jsTrimEnd, List.rdropWhile, List.rdropWhile, split, List.dropWhile_append]
  cases rest : b.reverse.dropWhile isJsSpace with
  | nil => simp [solid]
  | cons d more => simp

theorem jsTrim_append_cons {c : Char} {a : Text} (spaces : ∀ x ∈ a, isJsSpace x = true)
    (solid : isJsSpace c = false) (b : Text) : jsTrim (a ++ c :: b) = c :: jsTrimEnd b := by
  have front : (a ++ c :: b).dropWhile isJsSpace = c :: b := by
    rw [List.dropWhile_append_of_pos spaces, List.dropWhile_cons, solid, if_neg (by simp)]
  rw [jsTrim, front]
  exact jsTrimEnd_append_cons solid [] b

/-- A text is all white space, or it has a first character that is not. -/
theorem spaces_or_solid (t : Text) : (∀ x ∈ t, isJsSpace x = true) ∨
    ∃ a c b, t = a ++ c :: b ∧ (∀ x ∈ a, isJsSpace x = true) ∧ isJsSpace c = false := by
  induction t with
  | nil => exact .inl fun x hx => by cases hx
  | cons d t ih =>
    cases space : isJsSpace d with
    | false => exact .inr ⟨[], d, t, rfl, fun x hx => by (cases hx), space⟩
    | true =>
      rcases ih with all | ⟨a, c, b, rfl, spaces, solid⟩
      · exact .inl (List.forall_mem_cons.mpr ⟨space, all⟩)
      · exact .inr ⟨d :: a, c, b, rfl, List.forall_mem_cons.mpr ⟨space, spaces⟩, solid⟩

theorem jsTrim_of_spaces {t : Text} (spaces : ∀ x ∈ t, isJsSpace x = true) : jsTrim t = [] := by
  rw [jsTrim, List.dropWhile_eq_nil_iff.mpr spaces]
  rfl

theorem jsTrim_trimEnd (t : Text) : jsTrim (jsTrimEnd t) = jsTrim t := by
  rcases spaces_or_solid t with spaces | ⟨a, c, b, rfl, spaces, solid⟩
  · rw [jsTrimEnd, List.rdropWhile_eq_nil_iff.mpr spaces, jsTrim_of_spaces spaces]
    rfl
  · have twice : jsTrimEnd (jsTrimEnd b) = jsTrimEnd b := List.rdropWhile_idempotent isJsSpace b
    rw [jsTrimEnd_append_cons solid, jsTrim_append_cons spaces solid,
      jsTrim_append_cons spaces solid, twice]

theorem jsTrim_part (t : Text) : jsTrim t <:+: t :=
  (List.rdropWhile_prefix isJsSpace _).isInfix.trans (List.dropWhile_suffix isJsSpace).isInfix

/-- White space at the end is not seen. -/
theorem jsTrim_append_spaces {e : Text} (t : Text) (spaces : ∀ x ∈ e, isJsSpace x = true) :
    jsTrim (t ++ e) = jsTrim t := by
  rcases spaces_or_solid t with all | ⟨a, c, b, rfl, front, solid⟩
  · rw [jsTrim_of_spaces all, jsTrim_of_spaces fun x hx =>
      (List.mem_append.mp hx).elim (all x) (spaces x)]
  · have back : jsTrimEnd (b ++ e) = jsTrimEnd b := by
      rw [jsTrimEnd, List.rdropWhile, List.reverse_append, List.dropWhile_append_of_pos fun x hx =>
        spaces x (List.mem_reverse.mp hx)]
      rfl
    rw [List.append_assoc, List.cons_append, jsTrim_append_cons front solid,
      jsTrim_append_cons front solid, back]

end Trimming

section CodeUnits

def utf16Units (c : Char) : List Nat :=
  if c.toNat < 0x10000 then [c.toNat]
  else [0xd800 + (c.toNat - 0x10000) / 0x400, 0xdc00 + (c.toNat - 0x10000) % 0x400]

def utf16 (t : Text) : List Nat := t.flatMap utf16Units

def jsSort (texts : List Text) : List Text := texts.insertionSort fun a b => utf16 a ≤ utf16 b

def IsAscii (t : Text) : Prop := ∀ c ∈ t, c.toNat < 0x80

theorem lt_iff_toNat {c d : Char} : c < d ↔ c.toNat < d.toNat := Iff.rfl

/-- In front of anything else, the code units of a character start like the character itself
against an ASCII one. -/
theorem utf16Units_ascii {c d : Char} (ascii : c.toNat < 0x80) :
    ∃ u rest, utf16Units d = u :: rest ∧ (c.toNat < u ↔ c < d) ∧ (u < c.toNat ↔ d < c) ∧
      (c = d → u = c.toNat ∧ rest = []) ∧ (c.toNat = u → c = d) := by
  by_cases basic : d.toNat < 0x10000
  · refine ⟨d.toNat, [], by rw [utf16Units, if_pos basic], Iff.rfl, Iff.rfl, ?_, Char.toNat_inj.mp⟩
    rintro rfl
    exact ⟨rfl, rfl⟩
  · refine ⟨0xd800 + (d.toNat - 0x10000) / 0x400, [0xdc00 + (d.toNat - 0x10000) % 0x400],
      by rw [utf16Units, if_neg basic], ?_, ?_, ?_, ?_⟩
    · rw [lt_iff_toNat]
      omega
    · rw [lt_iff_toNat]
      omega
    · rintro rfl
      omega
    · omega

theorem utf16_cons_ascii {c : Char} (ascii : c.toNat < 0x80) (t : Text) :
    utf16 (c :: t) = c.toNat :: utf16 t := by
  rw [utf16, List.flatMap_cons, utf16Units, if_pos (by omega)]
  rfl

/-- Against an ASCII text the code units order a text as its characters do. -/
theorem utf16_lt_iff {s : Text} (ascii : IsAscii s) (t : Text) :
    (utf16 s < utf16 t ↔ s < t) ∧ (utf16 t < utf16 s ↔ t < s) := by
  induction s generalizing t with
  | nil =>
    cases t with
    | nil => simp [utf16]
    | cons d t =>
      obtain ⟨u, rest, units, -⟩ := utf16Units_ascii (c := 'a') (d := d) (by decide)
      rw [utf16, utf16, List.flatMap_cons, units]
      simp
  | cons c s ih =>
    have first : c.toNat < 0x80 := ascii c List.mem_cons_self
    have tail : IsAscii s := fun x hx => ascii x (List.mem_cons_of_mem c hx)
    rw [utf16_cons_ascii first]
    cases t with
    | nil => simp [utf16]
    | cons d t =>
      obtain ⟨u, rest, units, less, greater, equal, back⟩ := utf16Units_ascii (d := d) first
      have split : utf16 (d :: t) = u :: (rest ++ utf16 t) := by
        rw [utf16, List.flatMap_cons, units]
        rfl
      rw [split]
      obtain ⟨forward, backward⟩ := ih tail t
      constructor
      · rw [List.cons_lt_cons_iff, List.cons_lt_cons_iff, less]
        constructor
        · rintro (h | ⟨same, h⟩)
          · exact .inl h
          · obtain rfl := back same
            obtain ⟨-, rfl⟩ := equal rfl
            exact .inr ⟨rfl, forward.mp h⟩
        · rintro (h | ⟨rfl, h⟩)
          · exact .inl h
          · obtain ⟨rfl, rfl⟩ := equal rfl
            exact .inr ⟨rfl, forward.mpr h⟩
      · rw [List.cons_lt_cons_iff, List.cons_lt_cons_iff, greater]
        constructor
        · rintro (h | ⟨same, h⟩)
          · exact .inl h
          · obtain rfl := back same.symm
            obtain ⟨-, rfl⟩ := equal rfl
            exact .inr ⟨rfl, backward.mp h⟩
        · rintro (h | ⟨rfl, h⟩)
          · exact .inl h
          · obtain ⟨rfl, rfl⟩ := equal rfl
            exact .inr ⟨rfl, backward.mpr h⟩

/-- With at most one text that is not ASCII, `sort` sorts by characters. -/
theorem jsSort_sorted {texts : List Text}
    (ascii : ∀ a ∈ texts, ∀ b ∈ texts, IsAscii a ∨ IsAscii b ∨ a = b) :
    (jsSort texts).Pairwise (· ≤ ·) := by
  have total : Std.Total (fun a b : Text => utf16 a ≤ utf16 b) :=
    ⟨fun a b => le_total (utf16 a) (utf16 b)⟩
  have trans : IsTrans Text (fun a b => utf16 a ≤ utf16 b) := ⟨fun _ _ _ => le_trans⟩
  have sorted := List.pairwise_insertionSort (fun a b : Text => utf16 a ≤ utf16 b) texts
  refine List.Pairwise.imp_of_mem ?_ sorted
  intro a b ha hb le
  apply not_lt.mp
  rcases ascii a ((List.mem_insertionSort _).mp ha) b ((List.mem_insertionSort _).mp hb) with
    isAscii | isAscii | rfl
  · exact fun lt => not_lt.mpr le ((utf16_lt_iff isAscii b).2.mpr lt)
  · exact fun lt => not_lt.mpr le ((utf16_lt_iff isAscii a).1.mpr lt)
  · exact lt_irrefl a

end CodeUnits

end WebStrings
