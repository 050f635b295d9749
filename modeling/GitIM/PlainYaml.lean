import GitIM.TextLines

/-!
# Plain block YAML

The part of YAML 1.1 that a writer without quoting can hope for: a block mapping whose values are
plain scalars on one line, or block sequences of such. A plain scalar ends in front of a comment,
loses the blanks behind it, and cannot hold what starts a nested mapping. A value denotes itself
exactly if none of this happens.
-/

namespace PlainYaml

open TextLines

section Characters

def isBreak (c : Char) : Bool := c.toNat ∈ [0xa, 0xd, 0x85, 0x2028, 0x2029]

def isBlank (c : Char) : Bool := c = ' ' ∨ c = '\t'

def isPrintable (c : Char) : Bool :=
  c.toNat ∈ [0x9, 0xa, 0xd, 0x85] ∨ (0x20 ≤ c.toNat ∧ c.toNat ≤ 0x7e) ∨
    (0xa0 ≤ c.toNat ∧ c.toNat ≤ 0xfffd) ∨ 0x10000 ≤ c.toNat

/-- The characters that open another kind of node: dash, question mark, colon, comma, brackets,
braces, the signs of comments, anchors, aliases, tags and block scalars, the two quotes, and three
that are reserved. -/
def isIndicator (c : Char) : Bool :=
  c.toNat ∈ [0x2d, 0x3f, 0x3a, 0x2c, 0x5b, 0x5d, 0x7b, 0x7d, 0x23, 0x26, 0x2a, 0x21, 0x7c, 0x3e, 0x27,
    0x22, 0x25, 0x40, 0x60]

/-- The first character of a plain scalar is no indicator, or one of three in front of a character
that is no blank. -/
def startsPlain : Text → Bool
  | [] => false
  | c :: rest =>
    !isBlank c && (!isIndicator c ||
      (c ∈ ['-', '?', ':'] && rest.head?.any fun d => !isBlank d))

/-- A value that a reader takes for a plain scalar on one line, or for no value. -/
def isLineValue (v : Text) : Bool :=
  v = [] || (startsPlain v && v.all fun c => isPrintable c && !isBreak c)

end Characters

section Scalars

/-- A comment starts behind a blank. -/
def cutComment : Text → Text
  | [] => []
  | c :: rest => if isBlank c ∧ rest.head? = some '#' then [] else c :: cutComment rest

/-- A colon in front of a blank or at the end starts the value of a nested mapping. -/
def opensMapping : Text → Bool
  | [] => false
  | c :: rest => (c = ':' && (rest = [] || rest.head?.any isBlank)) || opensMapping rest

def trimBlanks (v : Text) : Text := (v.reverse.dropWhile isBlank).reverse

def plainScalar (v : Text) : Option Text :=
  if opensMapping (cutComment v) then none else some (trimBlanks (cutComment v))

/-- The text stands for itself where it is written without quotes. -/
def DenotesItself (v : Text) : Prop := isLineValue v = true ∧ plainScalar v = some v

instance (v : Text) : Decidable (DenotesItself v) := inferInstanceAs (Decidable (_ ∧ _))

end Scalars

section Documents

/-- What stands behind a key. -/
inductive Source where
  | value (v : Text)
  | items (vs : List Text)
  deriving DecidableEq

inductive Node where
  | scalar (t : Text)
  | sequence (ts : List Text)
  deriving DecidableEq

abbrev Entries (α : Type) := List (Text × α)

def renderItem (v : Text) : Text := "  - ".toList ++ (v ++ ['\n'])

def renderEntry : Text × Source → Text
  | (key, .value v) => key ++ (": ".toList ++ (v ++ ['\n']))
  | (key, .items vs) => key ++ (":\n".toList ++ vs.flatMap renderItem)

/-- A mapping as a writer without quoting puts it down. -/
def render (entries : Entries Source) : Text := entries.flatMap renderEntry

inductive Token where
  | blank
  | item (v : Text)
  | key (name v : Text)
  | other
  deriving DecidableEq

def isKeyChar (c : Char) : Bool := c.isLower || c = '_'

/-- The value behind a key or a dash. -/
def valueAt (v : Text) : Text := v.dropWhile isBlank

def token (line : Text) : Token :=
  match line.dropWhile (· = ' ') with
  | [] => .blank
  | '-' :: ' ' :: v => .item (valueAt v)
  | _ =>
    match line.dropWhile isKeyChar with
    | ':' :: v => .key (line.takeWhile isKeyChar) (valueAt v)
    | _ => .other

/-- Read from the last line up: the items that wait for their key, and the entries behind it. -/
def readToken (line : Text) (below : Option (List Text × Entries Node)) :
    Option (List Text × Entries Node) := do
  let (waiting, entries) ← below
  match token line with
  | .blank => some (waiting, entries)
  | .item v => do
    let t ← plainScalar v
    some (t :: waiting, entries)
  | .key name v =>
    if v = [] then
      some ([], (name, if waiting = [] then .scalar [] else .sequence waiting) :: entries)
    else if waiting = [] then do
      let t ← plainScalar v
      some ([], (name, .scalar t) :: entries)
    else none
  | .other => none

def readDocument (text : Text) : Option (Entries Node) := do
  let (waiting, entries) ← (text.splitOn '\n').foldr readToken (some ([], []))
  if waiting = [] then some entries else none

end Documents

section Reading

/-- The node behind a key, on its own. -/
def readSource : Source → Option Node
  | .value v => (plainScalar v).map .scalar
  | .items vs => (vs.mapM plainScalar).map fun ts => if ts = [] then .scalar [] else .sequence ts

def readEntry (entry : Text × Source) : Option (Text × Node) :=
  (readSource entry.2).map fun node => (entry.1, node)

/-- Every value is one line, and every key a word. -/
structure IsLineEntry (entry : Text × Source) : Prop where
  key : entry.1 ≠ [] ∧ entry.1.all isKeyChar = true
  value : ∀ v, entry.2 = .value v → isLineValue v = true
  items : ∀ vs, entry.2 = .items vs → ∀ v ∈ vs, isLineValue v = true

def readLines (text : Text) : Option (List Text × Entries Node) :=
  (text.splitOn '\n').foldr readToken (some ([], []))

theorem readLines_line {line : Text} (oneLine : '\n' ∉ line) (rest : Text) :
    readLines (line ++ '\n' :: rest) = readToken line (readLines rest) := by
  have first : (line ++ '\n' :: rest).splitOn '\n' = line :: rest.splitOn '\n' := by
    apply List.splitOnP_append_cons_of_forall_mem
    · intro c hc
      simpa using fun h : c = '\n' => oneLine (h ▸ hc)
    · simp
  rw [readLines, first, List.foldr_cons]
  rfl

theorem lineValue_oneLine {v : Text} (h : isLineValue v = true) : '\n' ∉ v := by
  intro hmem
  rw [isLineValue, Bool.or_eq_true, decide_eq_true_eq, Bool.and_eq_true, List.all_eq_true] at h
  rcases h with rfl | ⟨-, all⟩
  · cases hmem
  · have bad := all _ hmem
    revert bad
    decide

theorem lineValue_front {v : Text} (h : isLineValue v = true) : valueAt v = v := by
  rw [isLineValue, Bool.or_eq_true, decide_eq_true_eq, Bool.and_eq_true] at h
  rcases h with rfl | ⟨starts, -⟩
  · rfl
  · cases v with
    | nil => rfl
    | cons c rest =>
      rw [startsPlain, Bool.and_eq_true, Bool.not_eq_true'] at starts
      rw [valueAt, List.dropWhile_cons, starts.1, if_neg (by simp)]

theorem token_item {v : Text} (h : isLineValue v = true) : token ("  - ".toList ++ v) = .item v := by
  have spaces : ("  - ".toList ++ v).dropWhile (· = ' ') = '-' :: ' ' :: v := rfl
  rw [token, spaces]
  simp only [lineValue_front h]

theorem token_key {key : Text} (word : key ≠ [] ∧ key.all isKeyChar = true) (v : Text) :
    token (key ++ ':' :: v) = .key key (valueAt v) := by
  obtain ⟨nonempty, chars⟩ := word
  obtain ⟨c, rest, rfl⟩ := List.exists_cons_of_ne_nil nonempty
  have first : isKeyChar c = true := List.all_eq_true.mp chars c List.mem_cons_self
  have noSpace : c ≠ ' ' := by
    rintro rfl
    revert first
    decide
  have noDash : c ≠ '-' := by
    rintro rfl
    revert first
    decide
  have spaces : (c :: rest ++ ':' :: v).dropWhile (· = ' ') = c :: rest ++ ':' :: v := by
    rw [List.cons_append, List.dropWhile_cons, if_neg (by simpa using noSpace)]
  have stop : isKeyChar ':' = false := by decide
  have all : ∀ d ∈ c :: rest, isKeyChar d = true := fun d hd => List.all_eq_true.mp chars d hd
  have taken : (c :: rest ++ ':' :: v).takeWhile isKeyChar = c :: rest := by
    rw [List.takeWhile_append_of_pos all, List.takeWhile_cons, stop]
    simp
  have dropped : (c :: rest ++ ':' :: v).dropWhile isKeyChar = ':' :: v := by
    rw [List.dropWhile_append_of_pos all, List.dropWhile_cons, stop]
    simp
  rw [token, spaces]
  split
  · rename_i empty
    cases empty
  · rename_i dash
    exact absurd (List.cons.inj dash).1 noDash
  · rw [dropped]
    simp only [taken]

theorem key_oneLine {key : Text} (chars : key.all isKeyChar = true) : '\n' ∉ key := by
  intro hmem
  have bad := List.all_eq_true.mp chars _ hmem
  revert bad
  decide

theorem readToken_item {line v : Text} (h : token line = .item v)
    (below : Option (List Text × Entries Node)) :
    readToken line below = below.bind fun p => (plainScalar v).map fun t => (t :: p.1, p.2) := by
  cases below with
  | none => rfl
  | some p =>
    simp only [readToken, h, Option.bind_eq_bind, Option.bind_some]
    cases plainScalar v <;> rfl

theorem readToken_open {line name : Text} (h : token line = .key name [])
    (below : Option (List Text × Entries Node)) :
    readToken line below = below.map fun p =>
      ([], (name, if p.1 = [] then .scalar [] else .sequence p.1) :: p.2) := by
  cases below with
  | none => rfl
  | some p => simp only [readToken, h, Option.bind_eq_bind, Option.bind_some, if_true, Option.map_some]

theorem readToken_key {line name v : Text} (h : token line = .key name v) (nonempty : v ≠ [])
    (entries : Option (Entries Node)) :
    readToken line (entries.map fun es => ([], es)) =
      (plainScalar v).bind fun t => entries.map fun es => ([], (name, .scalar t) :: es) := by
  cases entries with
  | none => cases plainScalar v <;> rfl
  | some es =>
    simp only [readToken, h, Option.bind_eq_bind, Option.map_some, Option.bind_some, if_neg nonempty,
      if_true]

/-- The items wait for the key above them. -/
theorem readLines_items {vs : List Text} (values : ∀ v ∈ vs, isLineValue v = true) (rest : Text) :
    readLines (vs.flatMap renderItem ++ rest) =
      (readLines rest).bind fun p => (vs.mapM plainScalar).map fun ts => (ts ++ p.1, p.2) := by
  induction vs with
  | nil =>
    rw [List.flatMap_nil, List.nil_append]
    cases readLines rest <;> rfl
  | cons v vs ih =>
    have split : (v :: vs).flatMap renderItem ++ rest =
        ("  - ".toList ++ v) ++ '\n' :: (vs.flatMap renderItem ++ rest) := by
      simp [renderItem]
    have own := values v List.mem_cons_self
    have oneLine : '\n' ∉ "  - ".toList ++ v := by
      have := lineValue_oneLine own
      simp [this]
    rw [split, readLines_line oneLine, ih fun w hw => values w (List.mem_cons_of_mem v hw),
      readToken_item (token_item own), List.mapM_cons]
    cases readLines rest with
    | none => rfl
    | some p => cases plainScalar v <;> cases vs.mapM plainScalar <;> rfl

theorem valueAt_blank (v : Text) : valueAt (' ' :: v) = valueAt v := rfl

theorem readLines_entry {entry : Text × Source} (line : IsLineEntry entry) {rest : Text}
    {entries : Option (Entries Node)} (read : readLines rest = entries.map fun es => ([], es)) :
    readLines (renderEntry entry ++ rest) =
      (readEntry entry).bind fun e => entries.map fun es => ([], e :: es) := by
  obtain ⟨key, source⟩ := entry
  have hkey := key_oneLine line.key.2
  cases source with
  | value v =>
    have own := line.value v rfl
    have split : renderEntry (key, .value v) ++ rest = (key ++ ':' :: ' ' :: v) ++ '\n' :: rest := by
      simp [renderEntry]
    have oneLine : '\n' ∉ key ++ ':' :: ' ' :: v := by
      have hv := lineValue_oneLine own
      simp [hkey, hv]
    have tokenized : token (key ++ ':' :: ' ' :: v) = .key key v := by
      rw [token_key line.key, valueAt_blank, lineValue_front own]
    rw [split, readLines_line oneLine, read]
    by_cases empty : v = []
    · subst empty
      rw [readToken_open tokenized]
      cases entries <;> rfl
    · rw [readToken_key tokenized empty, readEntry, readSource]
      cases plainScalar v <;> rfl
  | items vs =>
    have own := line.items vs rfl
    have split : renderEntry (key, .items vs) ++ rest =
        (key ++ ':' :: []) ++ '\n' :: (vs.flatMap renderItem ++ rest) := by
      simp [renderEntry]
    have oneLine : '\n' ∉ key ++ ':' :: [] := by
      simp [hkey]
    have tokenized : token (key ++ ':' :: []) = .key key [] := token_key line.key []
    rw [split, readLines_line oneLine, readLines_items own, read, readToken_open tokenized]
    rw [readEntry, readSource]
    cases entries <;> cases vs.mapM plainScalar <;> simp

/-- A document of one-line values is read entry by entry. -/
theorem readDocument_render {entries : Entries Source} (simple : ∀ e ∈ entries, IsLineEntry e) :
    readDocument (render entries) = entries.mapM readEntry := by
  have read : readLines (render entries) = (entries.mapM readEntry).map fun es => ([], es) := by
    induction entries with
    | nil => rfl
    | cons e entries ih =>
      have rest := ih fun x hx => simple x (List.mem_cons_of_mem e hx)
      have split : render (e :: entries) = renderEntry e ++ render entries := rfl
      rw [split, readLines_entry (simple e List.mem_cons_self) rest, List.mapM_cons]
      cases readEntry e <;> cases entries.mapM readEntry <;> rfl
  rw [readLines] at read
  rw [readDocument, read]
  cases entries.mapM readEntry <;> rfl

theorem mapM_plainScalar_iff {vs : List Text} :
    vs.mapM plainScalar = some vs ↔ ∀ v ∈ vs, plainScalar v = some v := by
  induction vs with
  | nil => simp
  | cons v vs ih =>
    rw [List.mapM_cons, List.forall_mem_cons, ← ih]
    constructor
    · intro h
      obtain ⟨t, ht, h⟩ := Option.bind_eq_some_iff.mp h
      obtain ⟨ts, hts, h⟩ := Option.bind_eq_some_iff.mp h
      obtain ⟨rfl, rfl⟩ := List.cons.inj (Option.some.inj h)
      exact ⟨ht, hts⟩
    · rintro ⟨hv, hvs⟩
      rw [hv, hvs]
      rfl

end Reading

section Words

theorem cutComment_of_noBlank {v : Text} (free : ∀ c ∈ v, isBlank c = false) : cutComment v = v := by
  induction v with
  | nil => rfl
  | cons c rest ih =>
    have here := free c List.mem_cons_self
    rw [cutComment, here, if_neg (by simp), ih fun d hd => free d (List.mem_cons_of_mem c hd)]

theorem opensMapping_of_noColon {v : Text} (free : ':' ∉ v) : opensMapping v = false := by
  induction v with
  | nil => rfl
  | cons c rest ih =>
    obtain ⟨here, later⟩ := not_or.mp (mt List.mem_cons.mpr free)
    rw [opensMapping, ih later, Bool.or_false, decide_eq_false fun h : c = ':' => here h.symm,
      Bool.false_and]

theorem trimBlanks_of_noBlank {v : Text} (free : ∀ c ∈ v, isBlank c = false) : trimBlanks v = v := by
  have stops : v.reverse.dropWhile isBlank = v.reverse := by
    cases h : v.reverse with
    | nil => rfl
    | cons c rest =>
      have last : c ∈ v := List.mem_reverse.mp (h ▸ List.mem_cons_self)
      rw [List.dropWhile_cons, free c last, if_neg (by simp)]
  rw [trimBlanks, stops, List.reverse_reverse]

/-- A word without blanks and colons denotes itself, when it starts as a plain scalar does. -/
theorem denotesItself_of_word {v : Text} (starts : startsPlain v = true) (colon : ':' ∉ v)
    (blank : ∀ c ∈ v, isBlank c = false)
    (line : ∀ c ∈ v, isPrintable c = true ∧ isBreak c = false) : DenotesItself v := by
  constructor
  · have all : (v.all fun c => isPrintable c && !isBreak c) = true := by
      rw [List.all_eq_true]
      intro c hc
      rw [(line c hc).1, (line c hc).2]
      rfl
    rw [isLineValue, starts, all]
    simp
  · rw [plainScalar, cutComment_of_noBlank blank, opensMapping_of_noColon colon,
      trimBlanks_of_noBlank blank]
    rfl

end Words

section Prefixes

theorem cutComment_front (v : Text) : cutComment v <+: v := by
  induction v with
  | nil => exact List.prefix_rfl
  | cons c rest ih =>
    rw [cutComment]
    split
    · exact List.nil_prefix
    · exact (List.prefix_cons_inj c).mpr ih

theorem trimBlanks_front (v : Text) : trimBlanks v <+: v := by
  have suffix := List.dropWhile_suffix (l := v.reverse) isBlank
  exact List.reverse_suffix.mp (by rwa [trimBlanks, List.reverse_reverse])

/-- Nothing of a text that denotes itself is a comment, a key or trailing blanks. -/
theorem plainScalar_self_iff {v : Text} :
    plainScalar v = some v ↔ cutComment v = v ∧ opensMapping v = false ∧ trimBlanks v = v := by
  rw [plainScalar]
  constructor
  · intro h
    split at h
    · cases h
    · rename_i closed
      have same := Option.some.inj h
      have shorter := (trimBlanks_front (cutComment v)).length_le
      rw [same] at shorter
      have cut : cutComment v = v := (cutComment_front v).eq_of_length_le shorter
      rw [cut] at same closed
      exact ⟨cut, eq_false_of_ne_true closed, same⟩
  · rintro ⟨cut, closed, trimmed⟩
    rw [cut, closed, trimmed]
    rfl

theorem cutComment_of_append {u w : Text} (h : cutComment (u ++ w) = u ++ w) : cutComment u = u := by
  induction u with
  | nil => rfl
  | cons c u ih =>
    rw [List.cons_append, cutComment] at h
    split at h
    · cases h
    · rename_i no
      rw [cutComment, if_neg, ih (List.cons.inj h).2]
      rintro ⟨blank, hash⟩
      refine no ⟨blank, ?_⟩
      cases u with
      | nil => cases hash
      | cons d u => exact hash

theorem opensMapping_of_append {w b : Text} {z : Char} (noColon : z ≠ ':')
    (h : opensMapping (w ++ z :: b) = false) : opensMapping (w ++ [z]) = false := by
  induction w with
  | nil =>
    rw [List.nil_append, opensMapping, decide_eq_false noColon, Bool.false_and, Bool.false_or]
    rfl
  | cons c w ih =>
    rw [List.cons_append, opensMapping, Bool.or_eq_false_iff] at h ⊢
    refine ⟨?_, ih h.2⟩
    cases w with
    | nil => simpa using h.1
    | cons d w => simpa using h.1

/-- Behind a character that is neither blank nor a colon the text may end. -/
theorem denotesItself_of_append {w b : Text} {z : Char} (nonempty : w ≠ []) (noBlank : isBlank z = false)
    (noColon : z ≠ ':') (self : DenotesItself (w ++ z :: b)) : DenotesItself (w ++ [z]) := by
  obtain ⟨line, scalar⟩ := self
  obtain ⟨cut, closed, -⟩ := plainScalar_self_iff.mp scalar
  obtain ⟨c, rest, rfl⟩ := List.exists_cons_of_ne_nil nonempty
  refine ⟨?_, plainScalar_self_iff.mpr ⟨?_, opensMapping_of_append noColon closed, ?_⟩⟩
  · rw [isLineValue, Bool.or_eq_true, decide_eq_true_eq, Bool.and_eq_true] at line ⊢
    rcases line with empty | ⟨starts, chars⟩
    · cases empty
    · right
      constructor
      · cases rest with
        | nil => simpa [startsPlain] using starts
        | cons d rest => simpa [startsPlain] using starts
      · rw [List.all_eq_true] at chars ⊢
        intro x hx
        rcases List.mem_append.mp hx with hx | hx
        · exact chars x (List.mem_append_left _ hx)
        · exact chars x (List.mem_append_right _ (List.mem_singleton.mp hx ▸ List.mem_cons_self))
  · have split : c :: rest ++ z :: b = (c :: rest ++ [z]) ++ b := by simp
    rw [split] at cut
    exact cutComment_of_append cut
  · rw [trimBlanks, List.reverse_append, List.reverse_singleton, List.singleton_append,
      List.dropWhile_cons, noBlank, if_neg (by simp), List.reverse_cons, List.reverse_reverse]

end Prefixes
end PlainYaml
