import Mathlib.Logic.Equiv.List
import GitIM.FileTree

/-!
# Codecs given by a table

A text for every value of an encodable type, such that every value is read back. Finitely
many values have the texts of a table; the others are written as a tally.
-/

namespace TableCodec

open TextLines FileTree

instance encodableChar : Encodable Char :=
  Encodable.ofLeftInverse Char.toNat Char.ofNat Char.ofNat_toNat

section Tally
variable {α : Type} [Encodable α]

def tally (a : α) : Text := '#' :: List.replicate (Encodable.encode a) '.'

def readTally : Text → Option α
  | [] => none
  | c :: dots => if c = '#' then Encodable.decode dots.length else none

theorem readTally_tally (a : α) : readTally (tally a) = some a := by
  rw [tally, readTally, if_pos rfl, List.length_replicate, Encodable.encodek]

end Tally

section Table
variable {α : Type} [DecidableEq α]

/-- The texts of a table are told apart, from each other and from the tallies. -/
def Distinct (table : List (α × Text)) : Prop :=
  ∀ e ∈ table, table.find? (·.2 = e.2) = some e ∧ e.2.head? ≠ some '#'

instance decidableDistinct (table : List (α × Text)) : Decidable (Distinct table) :=
  inferInstanceAs (Decidable (∀ e ∈ table, table.find? (·.2 = e.2) = some e ∧ _))

variable [Encodable α]

def tableText (table : List (α × Text)) (a : α) : Text := (table.lookup a).getD (tally a)

def tableValue (table : List (α × Text)) (t : Text) : Option α :=
  match table.find? (·.2 = t) with
  | some e => some e.1
  | none => readTally t

theorem tableValue_tableText {table : List (α × Text)} (h : Distinct table) (a : α) :
    tableValue table (tableText table a) = some a := by
  rw [tableText]
  cases hlookup : table.lookup a with
  | some t => rw [Option.getD_some, tableValue, (h (a, t) (mem_of_lookup hlookup)).1]
  | none =>
    have hfind : table.find? (·.2 = tally a) = none := by
      refine List.find?_eq_none.mpr fun e he => ?_
      rw [decide_eq_true_eq]
      intro heq
      exact (h e he).2 (by rw [heq]; rfl)
    rw [Option.getD_none, tableValue, hfind]
    exact readTally_tally a

theorem not_mem_tableText {table : List (α × Text)} {c : Char} (hhash : c ≠ '#') (hdot : c ≠ '.')
    (h : ∀ e ∈ table, c ∉ e.2) (a : α) : c ∉ tableText table a := by
  rw [tableText]
  cases hlookup : table.lookup a with
  | some t => exact h (a, t) (mem_of_lookup hlookup)
  | none =>
    rw [Option.getD_none, tally, List.mem_cons, List.mem_replicate]
    rintro (heq | ⟨-, heq⟩)
    · exact hhash heq
    · exact hdot heq

theorem tableText_ne_nil {table : List (α × Text)} (h : ∀ e ∈ table, e.2 ≠ []) (a : α) :
    tableText table a ≠ [] := by
  rw [tableText]
  cases hlookup : table.lookup a with
  | some t => exact h (a, t) (mem_of_lookup hlookup)
  | none => exact List.cons_ne_nil _ _

end Table

end TableCodec
