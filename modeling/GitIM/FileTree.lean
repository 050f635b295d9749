import GitIM.TextLines

/-!
# Path maps

Hash maps keyed by paths are association lists in insertion order; `upsert` is the
entry interface of such a map. A tree assigns contents to paths.
-/

namespace FileTree

open TextLines

abbrev Path := Text

/-- A hash map from paths to contents; keys are distinct. -/
abbrev FileMap := List (Path × Text)

section AssocList
variable {α β : Type} [DecidableEq α]

/-- Replace the value at a key, or add the key at the end. -/
def upsert (f : Option β → β) (k : α) : List (α × β) → List (α × β)
  | [] => [(k, f none)]
  | (q, v) :: rest => if q = k then (q, f (some v)) :: rest else (q, v) :: upsert f k rest

theorem upsert_of_not_mem {f : Option β → β} {k : α} {m : List (α × β)}
    (h : k ∉ m.map Prod.fst) : upsert f k m = m ++ [(k, f none)] := by
  induction m with
  | nil => rfl
  | cons head rest ih =>
    obtain ⟨q, v⟩ := head
    rw [List.map_cons, List.mem_cons, not_or] at h
    rw [upsert, if_neg (Ne.symm h.1), ih h.2]
    rfl

/-- Replacing the value of a key keeps the keys. -/
theorem keys_upsert {f : Option β → β} {k : α} {m : List (α × β)} (h : k ∈ m.map Prod.fst) :
    (upsert f k m).map Prod.fst = m.map Prod.fst := by
  induction m with
  | nil => cases h
  | cons head rest ih =>
    obtain ⟨q, v⟩ := head
    rw [upsert]
    split
    · rfl
    · rename_i hq
      rw [List.map_cons, List.map_cons, ih]
      rcases List.mem_cons.mp h with heq | hmem
      · exact absurd heq.symm hq
      · exact hmem

variable [BEq α] [LawfulBEq α]

theorem lookup_cons_ite (q p : α) (v : β) (rest : List (α × β)) :
    ((p, v) :: rest).lookup q = if q = p then some v else rest.lookup q := by
  by_cases hq : q = p
  · simp [hq]
  · have hb : (q == p) = false := beq_eq_false_iff_ne.mpr hq
    simp [List.lookup_cons, hb, hq]

theorem lookup_upsert (f : Option β → β) (k q : α) (m : List (α × β)) :
    (upsert f k m).lookup q = if q = k then some (f (m.lookup k)) else m.lookup q := by
  induction m with
  | nil => simp [upsert, lookup_cons_ite]
  | cons head rest ih =>
    obtain ⟨p, v⟩ := head
    by_cases hp : p = k
    · subst hp
      simp only [upsert, if_true, lookup_cons_ite]
      split <;> rfl
    · have hk : k ≠ p := fun h => hp h.symm
      simp only [upsert, if_neg hp, lookup_cons_ite, if_neg hk, ih]
      split
      · rename_i hq
        subst hq
        rw [if_neg hp]
      · rfl

theorem lookup_isSome_iff {m : List (α × β)} {k : α} :
    (∃ v, m.lookup k = some v) ↔ k ∈ m.map Prod.fst := by
  induction m with
  | nil => simp
  | cons head rest ih =>
    obtain ⟨q, v⟩ := head
    rw [lookup_cons_ite, List.map_cons, List.mem_cons]
    by_cases hq : k = q
    · simp [hq]
    · simp [hq, ih]

theorem mem_of_lookup {m : List (α × β)} {k : α} {v : β} (h : m.lookup k = some v) : (k, v) ∈ m := by
  induction m with
  | nil => cases h
  | cons head rest ih =>
    rw [lookup_cons_ite] at h
    split at h
    · rename_i heq
      cases h
      rw [heq]
      exact List.mem_cons_self
    · exact List.mem_cons_of_mem head (ih h)

/-- In a map with distinct keys an entry is what its key is mapped to. -/
theorem mem_iff_lookup {m : List (α × β)} (h : (m.map Prod.fst).Nodup) {k : α} {v : β} :
    (k, v) ∈ m ↔ m.lookup k = some v := by
  induction m with
  | nil => simp
  | cons head rest ih =>
    obtain ⟨q, w⟩ := head
    rw [List.map_cons, List.nodup_cons] at h
    rw [lookup_cons_ite, List.mem_cons]
    by_cases hk : k = q
    · subst hk
      have hrest : (k, v) ∉ rest := fun hmem => h.1 (List.mem_map.mpr ⟨(k, v), hmem, rfl⟩)
      rw [if_pos rfl]
      constructor
      · rintro (heq | hmem)
        · rw [(Prod.mk.inj heq).2]
        · exact absurd hmem hrest
      · intro heq
        rw [Option.some.inj heq]
        exact .inl rfl
    · rw [if_neg hk, ← ih h.2]
      constructor
      · rintro (heq | hmem)
        · exact absurd (Prod.mk.inj heq).1 hk
        · exact hmem
      · exact .inr

/-- Dropping keys hides exactly their values. -/
theorem lookup_filter_key (keep : α → Prop) [DecidablePred keep] (m : List (α × β)) (k : α) :
    (m.filter fun e => keep e.1).lookup k = if keep k then m.lookup k else none := by
  induction m with
  | nil => simp
  | cons head rest ih =>
    obtain ⟨q, v⟩ := head
    by_cases hk : k = q
    · subst hk
      by_cases hkeep : keep k
      · simp [hkeep]
      · simp [hkeep, ih]
    · by_cases hkeep : keep q
      · simp [hkeep, lookup_cons_ite, hk, ih]
      · simp [hkeep, lookup_cons_ite, hk, ih]

/-- The values of a list of keys, as far as they have one. -/
def restrict (keys : List α) (f : α → Option β) : List (α × β) :=
  keys.filterMap fun k => (f k).map (k, ·)

theorem lookup_restrict (keys : List α) (f : α → Option β) (k : α) :
    (restrict keys f).lookup k = if k ∈ keys then f k else none := by
  induction keys with
  | nil => simp [restrict]
  | cons q keys ih =>
    rw [restrict] at ih ⊢
    rw [List.filterMap_cons]
    by_cases hk : k = q
    · subst hk
      cases hf : f k with
      | none => simp [ih, hf]
      | some v => simp
    · cases hf : f q with
      | none => simp [ih, hk]
      | some v => simp [ih, lookup_cons_ite, hk]

end AssocList

section WorkingTree

def writeFile (tree : FileMap) (path : Path) (content : Text) : FileMap :=
  upsert (fun _ => content) path tree

def removeFile (tree : FileMap) (path : Path) : FileMap := tree.filter fun e => e.1 ≠ path

/-- `git mv` without force: the source must be there and the target must not. -/
def gitMv (tree : FileMap) (source target : Path) : Option FileMap :=
  match tree.lookup source, tree.lookup target with
  | some content, none => some (writeFile (removeFile tree source) target content)
  | _, _ => none

@[simp] theorem lookup_writeFile (tree : FileMap) (path q : Path) (content : Text) :
    (writeFile tree path content).lookup q = if q = path then some content else tree.lookup q := by
  rw [writeFile, lookup_upsert]

@[simp] theorem lookup_removeFile (tree : FileMap) (path q : Path) :
    (removeFile tree path).lookup q = if q = path then none else tree.lookup q := by
  rw [removeFile, lookup_filter_key (fun p => p ≠ path)]
  by_cases hq : q = path <;> simp [hq]

/-- A move takes the file at its source to its target, which was free. -/
theorem gitMv_eq_some {tree after : FileMap} {source target : Path}
    (h : gitMv tree source target = some after) :
    ∃ content, tree.lookup source = some content ∧ tree.lookup target = none ∧
      ∀ q, after.lookup q = if q = target then some content else
        if q = source then none else tree.lookup q := by
  rw [gitMv] at h
  split at h
  · rename_i content hsource htarget
    cases h
    exact ⟨content, hsource, htarget, fun q => by rw [lookup_writeFile, lookup_removeFile]⟩
  · cases h

end WorkingTree

end FileTree
