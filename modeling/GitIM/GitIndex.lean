import GitIM.FileTree
import GitIM.TextScan

/-!
# Working tree, index and head

A git repository as its commands see it: the files on disk, the index shared by all
commands, and the tree of the last commit. `add` stages named paths, `commit` records
the whole index, `mv` renames on disk and in the index alike, and `reset` and `checkout`
of one path bring the staged and the written text back. Commands refuse by `none`.
-/

namespace GitIndex

open TextLines TextScan FileTree

section Trees

/-- Two trees hold the same files. -/
def Agree (a b : FileMap) : Prop := ∀ p, a.lookup p = b.lookup p

theorem agree_iff_keys {a b : FileMap} :
    Agree a b ↔ ∀ p ∈ a.map Prod.fst ++ b.map Prod.fst, a.lookup p = b.lookup p := by
  constructor
  · intro h p _
    exact h p
  · intro h p
    by_cases hp : p ∈ a.map Prod.fst ++ b.map Prod.fst
    · exact h p hp
    · rw [List.mem_append, not_or, ← lookup_isSome_iff, ← lookup_isSome_iff] at hp
      have ha : a.lookup p = none := by
        cases hv : a.lookup p with
        | none => rfl
        | some v => exact absurd ⟨v, hv⟩ hp.1
      have hb : b.lookup p = none := by
        cases hv : b.lookup p with
        | none => rfl
        | some v => exact absurd ⟨v, hv⟩ hp.2
      rw [ha, hb]

instance decidableAgree (a b : FileMap) : Decidable (Agree a b) :=
  decidable_of_iff _ agree_iff_keys.symm

theorem agree_refl (a : FileMap) : Agree a a := fun _ => rfl

theorem Agree.symm {a b : FileMap} (h : Agree a b) : Agree b a := fun p => (h p).symm

theorem Agree.trans {a b c : FileMap} (h : Agree a b) (h' : Agree b c) : Agree a c :=
  fun p => (h p).trans (h' p)

/-- The file at a path, or its absence. -/
def setEntry (m : FileMap) (path : Path) : Option Text → FileMap
  | some content => writeFile m path content
  | none => removeFile m path

@[simp] theorem lookup_setEntry (m : FileMap) (path q : Path) (entry : Option Text) :
    (setEntry m path entry).lookup q = if q = path then entry else m.lookup q := by
  cases entry <;> simp [setEntry]

/-- The entries of one tree at the given paths, in another. -/
def copyEntries (source : FileMap) (paths : List Path) (m : FileMap) : FileMap :=
  paths.foldl (fun acc p => setEntry acc p (source.lookup p)) m

theorem lookup_copyEntries (source : FileMap) (paths : List Path) (m : FileMap) (q : Path) :
    (copyEntries source paths m).lookup q =
      if q ∈ paths then source.lookup q else m.lookup q := by
  induction paths generalizing m with
  | nil => simp [copyEntries]
  | cons p paths ih =>
    rw [copyEntries, List.foldl_cons, ← copyEntries, ih, lookup_setEntry]
    by_cases hq : q ∈ paths
    · simp [hq]
    · by_cases hp : q = p
      · simp [hp]
      · simp [hq, hp]

end Trees

section Directories

/-- The path lies below the directory. -/
def Under (dir p : Path) : Prop := dir ++ ['/'] <+: p

instance decidableUnder (dir p : Path) : Decidable (Under dir p) :=
  inferInstanceAs (Decidable (dir ++ ['/'] <+: p))

/-- No path lies below both directories. -/
def Apart (source target : Path) : Prop := ∀ p, Under source p → ¬ Under target p

def inDir (dir rest : Path) : Path := (dir ++ ['/']) ++ rest

theorem under_inDir (dir rest : Path) : Under dir (inDir dir rest) := List.prefix_append _ _

theorem inDir_injective {dir a b : Path} (h : inDir dir a = inDir dir b) : a = b :=
  List.append_cancel_left h

theorem Under.exists_rest {dir p : Path} (h : Under dir p) : ∃ rest, p = inDir dir rest := by
  obtain ⟨rest, hrest⟩ := h
  exact ⟨rest, hrest.symm⟩

def relocate (source target p : Path) : Path :=
  match stripPrefix (source ++ ['/']) p with
  | some rest => inDir target rest
  | none => p

@[simp] theorem relocate_inDir (source target rest : Path) :
    relocate source target (inDir source rest) = inDir target rest := by
  rw [relocate, inDir, stripPrefix_append]

theorem relocate_of_not_under {source target p : Path} (h : ¬ Under source p) :
    relocate source target p = p := by
  have hnone : stripPrefix (source ++ ['/']) p = none := if_neg h
  rw [relocate, hnone]

/-- A directory renamed; what lay at its new name is gone. -/
def moveDir (m : FileMap) (source target : Path) : FileMap :=
  (m.filter fun e => ¬ Under target e.1).map fun e => (relocate source target e.1, e.2)

theorem lookup_map_key {f : Path → Path} {m : FileMap} {k : Path}
    (h : ∀ e ∈ m, f e.1 = f k → e.1 = k) :
    (m.map fun e => (f e.1, e.2)).lookup (f k) = m.lookup k := by
  induction m with
  | nil => rfl
  | cons e m ih =>
    have hrest : ∀ e' ∈ m, f e'.1 = f k → e'.1 = k := fun e' he =>
      h e' (List.mem_cons_of_mem e he)
    obtain ⟨p, v⟩ := e
    rw [List.map_cons, lookup_cons_ite, lookup_cons_ite, ih hrest]
    by_cases hp : k = p
    · simp [hp]
    · have hf : f k ≠ f p := fun heq => hp (h (p, v) List.mem_cons_self heq.symm).symm
      simp [hp, hf]

theorem lookup_map_key_none {f : Path → Path} {m : FileMap} {q : Path}
    (h : ∀ e ∈ m, f e.1 ≠ q) : (m.map fun e => (f e.1, e.2)).lookup q = none := by
  induction m with
  | nil => rfl
  | cons e m ih =>
    have hq : q ≠ f e.1 := fun heq => h e List.mem_cons_self heq.symm
    rw [List.map_cons, lookup_cons_ite, if_neg hq]
    exact ih fun e' he => h e' (List.mem_cons_of_mem e he)

variable {m : FileMap} {source target : Path}

theorem lookup_moveDir_target (hapart : Apart source target) (rest : Path) :
    (moveDir m source target).lookup (inDir target rest) = m.lookup (inDir source rest) := by
  have hkeys : ∀ e ∈ m.filter (fun e => ¬ Under target e.1),
      relocate source target e.1 = relocate source target (inDir source rest) →
        e.1 = inDir source rest := by
    intro e he heq
    have hnot : ¬ Under target e.1 := by simpa using (List.mem_filter.mp he).2
    rw [relocate_inDir] at heq
    by_cases hsource : Under source e.1
    · obtain ⟨r, hr⟩ := hsource.exists_rest
      rw [hr, relocate_inDir] at heq
      rw [hr, inDir_injective heq]
    · rw [relocate_of_not_under hsource] at heq
      exact absurd (heq ▸ under_inDir target rest) hnot
  rw [← relocate_inDir source target rest, moveDir, lookup_map_key hkeys,
    lookup_filter_key (fun p => ¬ Under target p),
    if_pos (hapart _ (under_inDir source rest))]

theorem lookup_moveDir_source (hapart : Apart source target) (rest : Path) :
    (moveDir m source target).lookup (inDir source rest) = none := by
  apply lookup_map_key_none
  intro e _ heq
  by_cases hsource : Under source e.1
  · obtain ⟨r, hr⟩ := hsource.exists_rest
    rw [hr, relocate_inDir] at heq
    exact hapart _ (under_inDir source rest) (heq ▸ under_inDir target r)
  · rw [relocate_of_not_under hsource] at heq
    exact hsource (heq ▸ under_inDir source rest)

theorem lookup_moveDir_other {q : Path} (hsource : ¬ Under source q) (htarget : ¬ Under target q) :
    (moveDir m source target).lookup q = m.lookup q := by
  have hq : relocate source target q = q := relocate_of_not_under hsource
  have hkeys : ∀ e ∈ m.filter (fun e => ¬ Under target e.1),
      relocate source target e.1 = relocate source target q → e.1 = q := by
    intro e _ heq
    rw [hq] at heq
    by_cases hs : Under source e.1
    · obtain ⟨r, hr⟩ := hs.exists_rest
      rw [hr, relocate_inDir] at heq
      exact absurd (heq ▸ under_inDir target r) htarget
    · rwa [relocate_of_not_under hs] at heq
  calc (moveDir m source target).lookup q
      = (moveDir m source target).lookup (relocate source target q) := by rw [hq]
    _ = (m.filter fun e => ¬ Under target e.1).lookup q := lookup_map_key hkeys
    _ = m.lookup q := by
      rw [lookup_filter_key (fun p => ¬ Under target p), if_pos htarget]

end Directories

section Commands

structure Repo where
  worktree : FileMap
  index : FileMap
  head : FileMap
  deriving DecidableEq

/-- A path that is neither on disk nor staged matches nothing, and then nothing is staged; a file
that is gone from disk is staged as removed. -/
def add (r : Repo) (paths : List Path) : Option Repo :=
  if ∀ p ∈ paths, (r.worktree.lookup p).isSome ∨ (r.index.lookup p).isSome then
    some { r with index := copyEntries r.worktree paths r.index }
  else none

/-- The whole index becomes the new head; an index without changes is refused. -/
def commit (r : Repo) : Option Repo :=
  if Agree r.index r.head then none else some { r with head := r.index }

def resetPath (r : Repo) (path : Path) : Repo :=
  { r with index := setEntry r.index path (r.head.lookup path) }

def checkoutPath (r : Repo) (path : Path) : Option Repo :=
  (r.index.lookup path).map fun content =>
    { r with worktree := writeFile r.worktree path content }

/-- One file, on disk and in the index; the target must be free on disk. -/
def mvFile (r : Repo) (source target : Path) : Option Repo :=
  match gitMv r.worktree source target, r.index.lookup source with
  | some worktree, some staged =>
    some { r with
      worktree := worktree
      index := writeFile (removeFile r.index source) target staged }
  | _, _ => none

def hasDir (m : FileMap) (dir : Path) : Bool := m.any fun e => decide (Under dir e.1)

/-- The names in a directory, each once. The order in which they are read is not specified. -/
def readDir (root : Path) (tree : FileMap) : List Text :=
  (tree.filterMap fun e => (stripPrefix root e.1).map (·.takeWhile (· ≠ '/'))).dedup

def baseName (p : Path) : Text := (p.reverse.takeWhile (· ≠ '/')).reverse

/-- A directory that exists takes the moved one inside. -/
def mvTarget (worktree : FileMap) (source target : Path) : Path :=
  if hasDir worktree target then inDir target (baseName source) else target

/-- A whole directory, on disk and in the index. It must be on disk and have a staged file. -/
def mvDir (r : Repo) (source target : Path) : Option Repo :=
  if hasDir r.worktree source ∧ hasDir r.index source ∧
      hasDir r.worktree (mvTarget r.worktree source target) = false then
    some { r with
      worktree := moveDir r.worktree source (mvTarget r.worktree source target)
      index := moveDir r.index source (mvTarget r.worktree source target) }
  else none

theorem hasDir_iff {m : FileMap} {dir : Path} :
    hasDir m dir = true ↔ ∃ rest, (m.lookup (inDir dir rest)).isSome := by
  rw [hasDir, List.any_eq_true]
  constructor
  · rintro ⟨e, he, hunder⟩
    obtain ⟨rest, hrest⟩ := (of_decide_eq_true hunder).exists_rest
    obtain ⟨v, hv⟩ := lookup_isSome_iff.mpr (hrest ▸ List.mem_map_of_mem he :
      inDir dir rest ∈ m.map Prod.fst)
    exact ⟨rest, by rw [hv]; rfl⟩
  · rintro ⟨rest, hrest⟩
    obtain ⟨v, hv⟩ := Option.isSome_iff_exists.mp hrest
    obtain ⟨e, he, heq⟩ := List.mem_map.mp (lookup_isSome_iff.mp ⟨v, hv⟩)
    exact ⟨e, he, decide_eq_true (heq ▸ under_inDir dir rest)⟩

theorem add_eq_some {r r' : Repo} {paths : List Path} (h : add r paths = some r') :
    r' = { r with index := copyEntries r.worktree paths r.index } := by
  rw [add] at h
  split at h
  · exact (Option.some.inj h).symm
  · cases h

theorem commit_eq_some_iff {r r' : Repo} :
    commit r = some r' ↔ ¬ Agree r.index r.head ∧ r' = { r with head := r.index } := by
  rw [commit]
  split
  · rename_i hagree
    simp [hagree]
  · rename_i hagree
    simp [hagree, eq_comm]

theorem checkoutPath_eq_some {r r' : Repo} {path : Path} (h : checkoutPath r path = some r') :
    ∃ content, r.index.lookup path = some content ∧
      r' = { r with worktree := writeFile r.worktree path content } := by
  obtain ⟨content, hcontent, heq⟩ := Option.map_eq_some_iff.mp h
  exact ⟨content, hcontent, heq.symm⟩

theorem mvDir_eq_some {r r' : Repo} {source target : Path} (h : mvDir r source target = some r') :
    hasDir r.worktree source = true ∧ hasDir r.index source = true ∧
      hasDir r.worktree (mvTarget r.worktree source target) = false ∧
      r' = { r with
        worktree := moveDir r.worktree source (mvTarget r.worktree source target)
        index := moveDir r.index source (mvTarget r.worktree source target) } := by
  rw [mvDir] at h
  split at h
  · rename_i hdirs
    exact ⟨hdirs.1, hdirs.2.1, hdirs.2.2, (Option.some.inj h).symm⟩
  · cases h

theorem mvTarget_of_free {worktree : FileMap} {source target : Path}
    (h : hasDir worktree target = false) : mvTarget worktree source target = target := by
  rw [mvTarget, h]
  rfl

end Commands

end GitIndex
