import GitIM.TextLines

/-!
# Scanning tokens off the front of a text

Deterministic pieces of an anchored pattern: a literal, a maximal run of a
character class with a lower bound on its length, and a run of exact length.
Each piece comes with an equivalence that reads a successful scan as a split of
the text, so that a pattern built from them is inverted by rewriting.
-/

namespace TextScan

open TextLines

def stripPrefix (literal t : Text) : Option Text :=
  if literal <+: t then some (t.drop literal.length) else none

def stripSuffix (literal t : Text) : Option Text :=
  if literal <:+ t then some (t.take (t.length - literal.length)) else none

/-- The texts before and behind the first occurrence of a character. -/
def splitOnce (c : Char) (t : Text) : Option (Text × Text) :=
  if c ∈ t then some (t.takeWhile (· ≠ c), (t.dropWhile (· ≠ c)).drop 1) else none

/-- A maximal run of the class `p`, at least `atLeast` characters long. -/
def scan (p : Char → Bool) (atLeast : Nat) (t : Text) : Option (Text × Text) :=
  if atLeast ≤ (t.takeWhile p).length then some (t.takeWhile p, t.dropWhile p) else none

/-- Exactly `n` characters of the class `p`. -/
def scanExact (p : Char → Bool) (n : Nat) (t : Text) : Option (Text × Text) :=
  if n ≤ t.length ∧ (t.take n).all p then some (t.take n, t.drop n) else none

theorem stripSuffix_eq_some_iff {literal t rest : Text} :
    stripSuffix literal t = some rest ↔ t = rest ++ literal := by
  rw [stripSuffix]
  constructor
  · intro h
    split at h
    · rename_i hsuffix
      obtain ⟨front, rfl⟩ := hsuffix
      simpa using h
    · cases h
  · rintro rfl
    simp

theorem stripPrefix_eq_some_iff {literal t rest : Text} :
    stripPrefix literal t = some rest ↔ t = literal ++ rest := by
  rw [stripPrefix]
  constructor
  · intro h
    split at h
    · rename_i hp
      obtain ⟨r, rfl⟩ := hp
      simpa using h
    · cases h
  · rintro rfl
    simp

@[simp] theorem stripPrefix_append (literal rest : Text) :
    stripPrefix literal (literal ++ rest) = some rest :=
  stripPrefix_eq_some_iff.mpr rfl

/-- What follows a maximal run does not continue it. -/
def Stops (p : Char → Bool) (rest : Text) : Prop := ∀ c, rest.head? = some c → p c = false

@[simp] theorem stops_cons (p : Char → Bool) (c : Char) (rest : Text) :
    Stops p (c :: rest) ↔ p c = false := by
  simp [Stops]

theorem takeWhile_of_stops {p : Char → Bool} {a b : Text} (ha : a.all p = true)
    (hb : Stops p b) : (a ++ b).takeWhile p = a := by
  induction a with
  | nil =>
    cases b with
    | nil => rfl
    | cons c b =>
      have hc : p c = false := hb c rfl
      simp [hc]
  | cons c a ih =>
    rw [List.all_cons, Bool.and_eq_true] at ha
    rw [List.cons_append, List.takeWhile_cons, if_pos ha.1, ih ha.2]

theorem dropWhile_of_stops {p : Char → Bool} {a b : Text} (ha : a.all p = true)
    (hb : Stops p b) : (a ++ b).dropWhile p = b := by
  have h := List.takeWhile_append_dropWhile (p := p) (l := a ++ b)
  rw [takeWhile_of_stops ha hb] at h
  exact List.append_cancel_left h

theorem stops_dropWhile (p : Char → Bool) (t : Text) : Stops p (t.dropWhile p) := by
  intro c hc
  induction t with
  | nil => simp at hc
  | cons d t ih =>
    rw [List.dropWhile_cons] at hc
    split at hc
    · exact ih hc
    · rename_i hd
      have heq : d = c := by simpa using hc
      simpa [heq] using hd

theorem scan_eq_some_iff {p : Char → Bool} {n : Nat} {t d rest : Text} :
    scan p n t = some (d, rest) ↔
      t = d ++ rest ∧ d.all p = true ∧ n ≤ d.length ∧ Stops p rest := by
  constructor
  · intro h
    rw [scan] at h
    split at h
    · rename_i hn
      obtain ⟨rfl, rfl⟩ := Prod.mk.inj (Option.some.inj h)
      exact ⟨List.takeWhile_append_dropWhile.symm, List.all_takeWhile, hn, stops_dropWhile p t⟩
    · cases h
  · rintro ⟨rfl, hall, hn, hstop⟩
    rw [scan, takeWhile_of_stops hall hstop, dropWhile_of_stops hall hstop, if_pos hn]

theorem scanExact_eq_some_iff {p : Char → Bool} {n : Nat} {t d rest : Text} :
    scanExact p n t = some (d, rest) ↔ t = d ++ rest ∧ d.all p = true ∧ d.length = n := by
  constructor
  · intro h
    rw [scanExact] at h
    split at h
    · rename_i hn
      obtain ⟨rfl, rfl⟩ := Prod.mk.inj (Option.some.inj h)
      exact ⟨(List.take_append_drop n t).symm, hn.2, List.length_take_of_le hn.1⟩
    · cases h
  · rintro ⟨rfl, hall, rfl⟩
    simp [scanExact, hall]

/-- The characters with the Unicode property White_Space. -/
def isWhiteSpace (c : Char) : Bool :=
  c.toNat ∈ [0x9, 0xa, 0xb, 0xc, 0xd, 0x20, 0x85, 0xa0, 0x1680, 0x2000, 0x2001, 0x2002, 0x2003,
    0x2004, 0x2005, 0x2006, 0x2007, 0x2008, 0x2009, 0x200a, 0x2028, 0x2029, 0x202f, 0x205f, 0x3000]

def trim (t : Text) : Text :=
  ((t.dropWhile isWhiteSpace).reverse.dropWhile isWhiteSpace).reverse

theorem mem_dropWhile_of_not {p : Char → Bool} {c : Char} {t : Text} (hc : c ∈ t)
    (hp : p c = false) : c ∈ t.dropWhile p := by
  induction t with
  | nil => cases hc
  | cons d t ih =>
    rw [List.dropWhile_cons]
    split
    · rename_i hd
      rcases List.mem_cons.mp hc with rfl | hc
      · rw [hp] at hd
        cases hd
      · exact ih hc
    · exact hc

theorem splitOnce_eq_some_iff {c : Char} {t a b : Text} :
    splitOnce c t = some (a, b) ↔ t = a ++ c :: b ∧ c ∉ a := by
  rw [splitOnce]
  constructor
  · intro h
    split at h
    · rename_i hc
      obtain ⟨rfl, rfl⟩ := Prod.mk.inj (Option.some.inj h)
      refine ⟨?_, fun hmem => ?_⟩
      · have hne : t.dropWhile (· ≠ c) ≠ [] :=
          List.ne_nil_of_mem (mem_dropWhile_of_not hc (by simp))
        obtain ⟨d, rest, hdrop⟩ := List.exists_cons_of_ne_nil hne
        have hd : d = c := by
          have hfirst := stops_dropWhile (· ≠ c) t d (by rw [hdrop]; rfl)
          simpa using hfirst
        conv_lhs => rw [← List.takeWhile_append_dropWhile (p := (· ≠ c)) (l := t)]
        rw [hdrop, hd]
        rfl
      · have hkeep := List.all_eq_true.mp List.all_takeWhile c hmem
        simp at hkeep
    · cases h
  · rintro ⟨rfl, ha⟩
    have hall : a.all (· ≠ c) = true := by
      rw [List.all_eq_true]
      intro d hd
      exact decide_eq_true fun heq => ha (heq ▸ hd)
    have hstop : Stops (· ≠ c) (c :: b) := by simp
    rw [if_pos (List.mem_append_right a List.mem_cons_self), takeWhile_of_stops hall hstop,
      dropWhile_of_stops hall hstop]
    rfl

/-- Trimming keeps every character that is not white space. -/
theorem mem_trim {c : Char} {t : Text} (hc : c ∈ t) (hw : isWhiteSpace c = false) : c ∈ trim t := by
  have hleft := mem_dropWhile_of_not hc hw
  exact List.mem_reverse.mpr (mem_dropWhile_of_not (List.mem_reverse.mpr hleft) hw)

theorem exists_mem_trim {t : Text} (h : trim t ≠ []) : ∃ c ∈ trim t, isWhiteSpace c = false := by
  rw [trim, ne_eq, List.reverse_eq_nil_iff] at h
  obtain ⟨c, rest, hcons⟩ := List.exists_cons_of_ne_nil h
  have hstop := stops_dropWhile isWhiteSpace (t.dropWhile isWhiteSpace).reverse
  exact ⟨c, by simp [trim, hcons], hstop c (by rw [hcons]; rfl)⟩

theorem trim_trim_ne_nil {t : Text} (h : trim t ≠ []) : trim (trim t) ≠ [] := by
  obtain ⟨c, hc, hw⟩ := exists_mem_trim h
  exact List.ne_nil_of_mem (mem_trim hc hw)

end TextScan
