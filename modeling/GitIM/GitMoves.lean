import GitIM.GitIndex

/-!
# Moves and their way back

A move of a file or of a directory to a free place exchanges two sets of paths, on disk and in the
index alike. Moves that touch no common path commute, so they can be taken back in any order, also
after some of the moved files have been staged. What is left of edited files goes away when they are
reset and checked out.
-/

namespace GitMoves

open TextLines FileTree GitIndex

section Exchange

theorem apart_symm {source target : Path} (h : Apart source target) : Apart target source :=
  fun p ht hs => h p hs ht

/-- `git mv` of one file, or of a directory. -/
inductive Move where
  | file (source target : Path) (distinct : source ≠ target)
  | dir (source target : Path) (apart : Apart source target)

namespace Move

def perform (r : Repo) : Move → Option Repo
  | file source target _ => mvFile r source target
  | dir source target _ => mvDir r source target

def source : Move → Path
  | file source _ _ => source
  | dir source _ _ => source

def back : Move → Move
  | file source target distinct => .file target source distinct.symm
  | dir source target apart => .dir target source (apart_symm apart)

def AtSource : Move → Path → Prop
  | file source _ _, p => p = source
  | dir source _ _, p => Under source p

def AtTarget : Move → Path → Prop
  | file _ target _, p => p = target
  | dir _ target _, p => Under target p

def Touches (m : Move) (p : Path) : Prop := m.AtSource p ∨ m.AtTarget p

/-- Where a path comes from after the move, and where it goes. -/
def swap : Move → Path → Path
  | file source target _, p => if p = source then target else if p = target then source else p
  | dir source target _, p =>
    if Under source p then relocate source target p else relocate target source p

variable {m m' : Move} {p : Path}

theorem swap_file_source (source target : Path) (distinct : source ≠ target) :
    (Move.file source target distinct).swap source = target := if_pos rfl

theorem swap_file_target (source target : Path) (distinct : source ≠ target) :
    (Move.file source target distinct).swap target = source := by
  rw [swap, if_neg distinct.symm, if_pos rfl]

theorem swap_dir_inDir (source target : Path) (apart : Apart source target) (rest : Path) :
    (Move.dir source target apart).swap (inDir source rest) = inDir target rest := by
  rw [swap, if_pos (under_inDir source rest), relocate_inDir]

theorem swap_dir_inDir_target (source target : Path) (apart : Apart source target) (rest : Path) :
    (Move.dir source target apart).swap (inDir target rest) = inDir source rest := by
  rw [swap, if_neg (apart_symm apart _ (under_inDir target rest)), relocate_inDir]

theorem swap_of_not_touches (h : ¬ m.Touches p) : m.swap p = p := by
  obtain ⟨hs, ht⟩ := not_or.mp h
  cases m with
  | file source target distinct => exact (if_neg hs).trans (if_neg ht)
  | dir source target apart => exact (if_neg hs).trans (relocate_of_not_under ht)

theorem atTarget_swap (h : m.AtSource p) : m.AtTarget (m.swap p) := by
  cases m with
  | file source target distinct => exact if_pos h
  | dir source target apart =>
    obtain ⟨rest, rfl⟩ := Under.exists_rest h
    rw [swap_dir_inDir]
    exact under_inDir target rest

theorem atSource_swap (h : m.AtTarget p) : m.AtSource (m.swap p) := by
  cases m with
  | file source target distinct =>
    have hp : p = target := h
    rw [swap, if_neg (hp.trans_ne distinct.symm), if_pos hp]
    rfl
  | dir source target apart =>
    obtain ⟨rest, rfl⟩ := Under.exists_rest h
    rw [swap_dir_inDir_target]
    exact under_inDir source rest

theorem swap_swap (m : Move) (p : Path) : m.swap (m.swap p) = p := by
  by_cases htouch : m.Touches p
  · cases m with
    | file source target distinct =>
      rcases htouch with h | h
      · have hp : p = source := h
        rw [swap, swap, if_pos hp, if_neg distinct.symm, if_pos rfl, hp]
      · have hp : p = target := h
        rw [swap, swap, if_neg (hp.trans_ne distinct.symm), if_pos hp, if_pos rfl, hp]
    | dir source target apart =>
      rcases htouch with h | h
      · obtain ⟨rest, rfl⟩ := Under.exists_rest h
        rw [swap_dir_inDir, swap_dir_inDir_target]
      · obtain ⟨rest, rfl⟩ := Under.exists_rest h
        rw [swap_dir_inDir_target, swap_dir_inDir]
  · rw [swap_of_not_touches htouch, swap_of_not_touches htouch]

theorem touches_swap (h : m.Touches p) : m.Touches (m.swap p) :=
  h.elim (fun h => Or.inr (atTarget_swap h)) (fun h => Or.inl (atSource_swap h))

theorem swap_back (m : Move) : m.back.swap = m.swap := by
  funext p
  cases m with
  | file source target distinct =>
    rw [back, swap, swap]
    by_cases hs : p = source
    · rw [if_neg (hs.trans_ne distinct), if_pos hs, if_pos hs]
    · rw [if_neg hs, if_neg hs]
  | dir source target apart =>
    rw [back, swap, swap]
    by_cases hs : Under source p
    · rw [if_neg (apart p hs), if_pos hs]
    · by_cases ht : Under target p
      · rw [if_pos ht, if_neg hs]
      · rw [if_neg ht, if_neg hs, relocate_of_not_under hs, relocate_of_not_under ht]

theorem atTarget_back (m : Move) (p : Path) : m.back.AtTarget p ↔ m.AtSource p := by
  cases m <;> exact Iff.rfl

theorem atSource_back (m : Move) (p : Path) : m.back.AtSource p ↔ m.AtTarget p := by
  cases m <;> exact Iff.rfl

end Move

end Exchange

section Repositories

/-- What is on disk, staged and committed at each path. -/
structure Looks (r : Repo) (disk staged head : Path → Option Text) : Prop where
  worktree : ∀ p, r.worktree.lookup p = disk p
  index : ∀ p, r.index.lookup p = staged p
  head : ∀ p, r.head.lookup p = head p

variable {r r' : Repo} {disk staged head : Path → Option Text} {m : Move}

/-- Nothing is where the move goes. -/
def Free (m : Move) (files : Path → Option Text) : Prop := ∀ p, m.AtTarget p → files p = none

/-- There is something to move. -/
def Occupied (m : Move) (files : Path → Option Text) : Prop :=
  ∃ p, m.AtSource p ∧ (files p).isSome = true

theorem hasDir_eq_true {tree : FileMap} (h : ∀ p, tree.lookup p = disk p) (dir : Path) :
    hasDir tree dir = true ↔ ∃ p, Under dir p ∧ (disk p).isSome = true := by
  rw [hasDir_iff]
  constructor
  · rintro ⟨rest, hrest⟩
    exact ⟨_, under_inDir dir rest, h _ ▸ hrest⟩
  · rintro ⟨p, hp, hsome⟩
    obtain ⟨rest, rfl⟩ := hp.exists_rest
    exact ⟨rest, (h _).symm ▸ hsome⟩

theorem hasDir_eq_false {tree : FileMap} (h : ∀ p, tree.lookup p = disk p) {dir : Path}
    (hfree : ∀ p, Under dir p → disk p = none) : hasDir tree dir = false := by
  rw [← Bool.not_eq_true, hasDir_eq_true h]
  rintro ⟨p, hp, hsome⟩
  rw [hfree p hp] at hsome
  cases hsome

theorem lookup_moveDir_swap {tree : FileMap} {source target : Path} (apart : Apart source target)
    (h : ∀ p, tree.lookup p = disk p) (hfree : ∀ p, Under target p → disk p = none) (p : Path) :
    (moveDir tree source target).lookup p = disk ((Move.dir source target apart).swap p) := by
  by_cases hs : Under source p
  · obtain ⟨rest, rfl⟩ := hs.exists_rest
    rw [lookup_moveDir_source apart, Move.swap_dir_inDir]
    exact (hfree _ (under_inDir target rest)).symm
  · by_cases ht : Under target p
    · obtain ⟨rest, rfl⟩ := ht.exists_rest
      rw [lookup_moveDir_target apart, Move.swap_dir_inDir_target, h]
    · have hswap : (Move.dir source target apart).swap p = p :=
        Move.swap_of_not_touches (not_or.mpr ⟨hs, ht⟩)
      rw [lookup_moveDir_other hs ht, h, hswap]

/-- A move to a free place is the exchange of its paths. -/
theorem perform_looks (h : Looks r disk staged head) (hdisk : Free m disk) (hstaged : Free m staged)
    (hperform : m.perform r = some r') : Looks r' (disk ∘ m.swap) (staged ∘ m.swap) head := by
  cases m with
  | file source target distinct =>
    rw [Move.perform, mvFile] at hperform
    split at hperform
    · rename_i worktree content hmv hcontent
      cases hperform
      obtain ⟨text, htext, -, hafter⟩ := gitMv_eq_some hmv
      have hexchange : ∀ files : Path → Option Text, Free (.file source target distinct) files →
          ∀ p, (if p = target then files source else if p = source then none else files p) =
            (files ∘ (Move.file source target distinct).swap) p := by
        intro files hfree p
        rw [Function.comp_apply, Move.swap]
        by_cases hs : p = source
        · rw [if_neg (hs.trans_ne distinct), if_pos hs, if_pos hs]
          exact (hfree target rfl).symm
        · rw [if_neg hs, if_neg hs]
          by_cases ht : p = target
          · rw [if_pos ht, if_pos ht]
          · rw [if_neg ht, if_neg ht]
      refine ⟨fun p => ?_, fun p => ?_, h.head⟩
      · rw [hafter, ← hexchange disk hdisk, ← htext, h.worktree, h.worktree]
      · rw [lookup_writeFile, lookup_removeFile, ← hexchange staged hstaged, ← hcontent, h.index,
          h.index]
    · cases hperform
  | dir source target apart =>
    obtain ⟨-, -, -, rfl⟩ := mvDir_eq_some hperform
    rw [mvTarget_of_free (hasDir_eq_false h.worktree hdisk)]
    exact ⟨lookup_moveDir_swap apart h.worktree hdisk, lookup_moveDir_swap apart h.index hstaged,
      h.head⟩

/-- It goes well when there is something to move on disk and in the index. -/
theorem perform_succeeds (h : Looks r disk staged head) (hdisk : Free m disk)
    (hsource : Occupied m disk) (hindex : Occupied m staged) : ∃ r', m.perform r = some r' := by
  obtain ⟨p, hp, hpsome⟩ := hsource
  obtain ⟨q, hq, hqsome⟩ := hindex
  cases m with
  | file source target distinct =>
    obtain ⟨text, htext⟩ := Option.isSome_iff_exists.mp hpsome
    obtain ⟨content, hcontent⟩ := Option.isSome_iff_exists.mp hqsome
    have hps : p = source := hp
    have hqs : q = source := hq
    have hwork : r.worktree.lookup source = some text := by rw [h.worktree, ← hps, htext]
    have hstage : r.index.lookup source = some content := by rw [h.index, ← hqs, hcontent]
    have hnone : r.worktree.lookup target = none := by
      rw [h.worktree]
      exact hdisk target rfl
    rw [Move.perform, mvFile, gitMv, hwork, hnone, hstage]
    exact ⟨_, rfl⟩
  | dir source target apart =>
    have hfree := hasDir_eq_false h.worktree hdisk
    have hwork : hasDir r.worktree source = true := (hasDir_eq_true h.worktree source).mpr ⟨p, hp, hpsome⟩
    have hstage : hasDir r.index source = true := (hasDir_eq_true h.index source).mpr ⟨q, hq, hqsome⟩
    rw [Move.perform, mvDir, mvTarget_of_free hfree, if_pos ⟨hwork, hstage, hfree⟩]
    exact ⟨_, rfl⟩

/-- A move that git makes finds something. -/
theorem occupied_of_perform (h : Looks r disk staged head) (hperform : m.perform r = some r') :
    Occupied m disk ∧ Occupied m staged := by
  cases m with
  | file source target distinct =>
    rw [Move.perform, mvFile] at hperform
    split at hperform
    · rename_i worktree content hmv hcontent
      obtain ⟨text, htext, -, -⟩ := gitMv_eq_some hmv
      refine ⟨⟨source, rfl, ?_⟩, source, rfl, ?_⟩
      · rw [← h.worktree, htext]
        rfl
      · rw [← h.index, hcontent]
        rfl
    · cases hperform
  | dir source target apart =>
    obtain ⟨hwork, hindex, -, -⟩ := mvDir_eq_some hperform
    exact ⟨(hasDir_eq_true h.worktree source).mp hwork, (hasDir_eq_true h.index source).mp hindex⟩

/-- git does not move a file onto another one. -/
theorem free_of_perform {source target : Path} {distinct : source ≠ target}
    (h : Looks r disk staged head) (hperform : (Move.file source target distinct).perform r = some r') :
    disk target = none := by
  rw [Move.perform, mvFile] at hperform
  split at hperform
  · rename_i worktree content hmv hcontent
    obtain ⟨text, -, hfree, -⟩ := gitMv_eq_some hmv
    rw [← h.worktree, hfree]
  · cases hperform

end Repositories

section Routes

/-- Moves without a common path. -/
def Disjoint (m m' : Move) : Prop := ∀ p, m.Touches p → ¬ m'.Touches p

theorem disjoint_symm {m m' : Move} (h : Disjoint m m') : Disjoint m' m := fun p h' hp => h p hp h'

/-- Where a path comes from after several moves, the last of them first in the list. -/
def route : List Move → Path → Path
  | [], p => p
  | m :: moves, p => route moves (m.swap p)

variable {m : Move} {moves : List Move} {p : Path}

theorem route_of_not_touches (h : ∀ m ∈ moves, ¬ m.Touches p) : route moves p = p := by
  induction moves with
  | nil => rfl
  | cons m moves ih =>
    rw [route, Move.swap_of_not_touches (h m List.mem_cons_self)]
    exact ih fun m' hm' => h m' (List.mem_cons_of_mem m hm')

/-- A path that one of the moves touches goes where this move takes it. -/
theorem route_of_touches (h : moves.Pairwise Disjoint) {m : Move} (hm : m ∈ moves)
    (hp : m.Touches p) : route moves p = m.swap p := by
  induction moves generalizing p with
  | nil => cases hm
  | cons first moves ih =>
    have hfirst : ∀ m' ∈ moves, Disjoint first m' := fun m' hm' => List.rel_of_pairwise_cons h hm'
    rcases List.mem_cons.mp hm with rfl | hmem
    · exact route_of_not_touches fun m' hm' => hfirst m' hm' _ (Move.touches_swap hp)
    · have hnot : ¬ first.Touches p := fun htouch => hfirst m hmem p htouch hp
      rw [route, Move.swap_of_not_touches hnot]
      exact ih h.of_cons hmem hp

theorem swap_comm {m m' : Move} (h : Disjoint m m') (p : Path) :
    m.swap (m'.swap p) = m'.swap (m.swap p) := by
  by_cases hm : m.Touches p
  · rw [Move.swap_of_not_touches (h p hm), Move.swap_of_not_touches (h _ (Move.touches_swap hm))]
  · by_cases hm' : m'.Touches p
    · have hnot := disjoint_symm h _ (Move.touches_swap hm')
      rw [Move.swap_of_not_touches hm, Move.swap_of_not_touches hnot]
    · rw [Move.swap_of_not_touches hm, Move.swap_of_not_touches hm', Move.swap_of_not_touches hm]

theorem route_swap (h : ∀ m' ∈ moves, Disjoint m m') (p : Path) :
    route moves (m.swap p) = m.swap (route moves p) := by
  induction moves generalizing p with
  | nil => rfl
  | cons m' moves ih =>
    rw [route, route, ← swap_comm (h m' List.mem_cons_self)]
    exact ih (fun m'' hm'' => h m'' (List.mem_cons_of_mem m' hm'')) _

/-- Disjoint moves can be made in any order. -/
theorem route_perm {moves moves' : List Move} (hperm : moves.Perm moves')
    (h : moves.Pairwise Disjoint) (p : Path) : route moves p = route moves' p := by
  induction hperm generalizing p with
  | nil => rfl
  | cons m _ ih => exact ih h.of_cons _
  | swap m m' rest =>
    have hdisjoint : Disjoint m' m := List.rel_of_pairwise_cons h List.mem_cons_self
    simp only [route]
    rw [swap_comm hdisjoint]
  | trans hfirst _ ih ih' =>
    exact (ih h p).trans (ih' (h.perm hfirst disjoint_symm) p)

theorem route_route (h : moves.Pairwise Disjoint) (p : Path) : route moves (route moves p) = p := by
  induction moves generalizing p with
  | nil => rfl
  | cons m moves ih =>
    have hm : ∀ m' ∈ moves, Disjoint m m' := fun m' hm' => List.rel_of_pairwise_cons h hm'
    rw [route, route, ← route_swap hm, Move.swap_swap]
    exact ih h.of_cons p

end Routes

section Rollback

/-- The moves are taken back one after another, as far as git goes along. -/
def undo (moves : List Move) (r : Repo) : Repo :=
  moves.foldl (fun r m => (m.back.perform r).getD r) r

variable {r : Repo} {disk staged head : Path → Option Text} {moves : List Move}

/-- Disjoint moves into free places are taken back, whatever has been staged in between. -/
theorem undo_looks (hdisjoint : moves.Pairwise Disjoint)
    (hfree : ∀ m ∈ moves, Free m disk ∧ Free m staged)
    (hoccupied : ∀ m ∈ moves, Occupied m disk ∧ Occupied m staged)
    (h : Looks r (disk ∘ route moves) (staged ∘ route moves) head) :
    Looks (undo moves r) disk staged head := by
  induction moves generalizing r with
  | nil => exact h
  | cons m moves ih =>
    have hm : ∀ m' ∈ moves, Disjoint m m' := fun m' hm' => List.rel_of_pairwise_cons hdisjoint hm'
    have hfix : ∀ p, m.Touches p → route moves p = p := fun p hp =>
      route_of_not_touches fun m' hm' => hm m' hm' p hp
    have hroute : ∀ (files : Path → Option Text) p, m.Touches p →
        (files ∘ route (m :: moves)) (m.swap p) = files p := by
      intro files p hp
      rw [Function.comp_apply, route, Move.swap_swap, hfix p hp]
    have hback : ∀ files : Path → Option Text, Free m files →
        Free m.back (files ∘ route (m :: moves)) := by
      intro files hfiles p hp
      have hsource : m.AtSource p := (Move.atTarget_back m p).mp hp
      have htarget := Move.atTarget_swap hsource
      rw [← Move.swap_swap m p, hroute files _ (Or.inr htarget)]
      exact hfiles _ htarget
    have hthere : ∀ files : Path → Option Text, Occupied m files →
        Occupied m.back (files ∘ route (m :: moves)) := by
      rintro files ⟨p, hp, hsome⟩
      refine ⟨m.swap p, (Move.atSource_back m _).mpr (Move.atTarget_swap hp), ?_⟩
      rw [hroute files p (Or.inl hp)]
      exact hsome
    obtain ⟨hfreeDisk, hfreeStaged⟩ := hfree m List.mem_cons_self
    obtain ⟨hoccDisk, hoccStaged⟩ := hoccupied m List.mem_cons_self
    obtain ⟨r', hr'⟩ := perform_succeeds h (hback disk hfreeDisk) (hthere disk hoccDisk)
      (hthere staged hoccStaged)
    have hlooks := perform_looks h (hback disk hfreeDisk) (hback staged hfreeStaged) hr'
    have hcancel : ∀ files : Path → Option Text,
        (files ∘ route (m :: moves)) ∘ m.back.swap = files ∘ route moves := by
      intro files
      funext p
      rw [Move.swap_back, Function.comp_apply, Function.comp_apply, route, Move.swap_swap]
      rfl
    rw [hcancel, hcancel] at hlooks
    rw [undo, List.foldl_cons, hr']
    exact ih hdisjoint.of_cons (fun m' hm' => hfree m' (List.mem_cons_of_mem m hm'))
      (fun m' hm' => hoccupied m' (List.mem_cons_of_mem m hm')) hlooks

/-- `reset` and `checkout` of one path after another. -/
def restore (paths : List Path) (r : Repo) : Repo :=
  paths.foldl (fun r p => (checkoutPath (resetPath r p) p).getD (resetPath r p)) r

/-- The restored files are those of the last commit, the others stay. -/
theorem restore_looks {paths : List Path} (hpaths : ∀ p ∈ paths, (head p).isSome = true)
    (h : Looks r disk staged head) :
    Looks (restore paths r) (fun p => if p ∈ paths then head p else disk p)
      (fun p => if p ∈ paths then head p else staged p) head := by
  induction paths generalizing r disk staged with
  | nil => simpa [restore] using h
  | cons q paths ih =>
    obtain ⟨content, hcontent⟩ := Option.isSome_iff_exists.mp (hpaths q List.mem_cons_self)
    have hq : r.head.lookup q = some content := by rw [h.head, hcontent]
    have hstep : (checkoutPath (resetPath r q) q).getD (resetPath r q) =
        ⟨writeFile r.worktree q content, writeFile r.index q content, r.head⟩ := by
      rw [checkoutPath, resetPath, hq]
      simp [setEntry]
    have hlooks : Looks ⟨writeFile r.worktree q content, writeFile r.index q content, r.head⟩
        (fun p => if p = q then head p else disk p) (fun p => if p = q then head p else staged p)
          head := by
      refine ⟨fun p => ?_, fun p => ?_, h.head⟩
      · rw [lookup_writeFile, h.worktree]
        split
        · rename_i hp
          rw [hp, hcontent]
        · rfl
      · rw [lookup_writeFile, h.index]
        split
        · rename_i hp
          rw [hp, hcontent]
        · rfl
    have hrest := ih (fun p hp => hpaths p (List.mem_cons_of_mem q hp)) hlooks
    have hmerge : ∀ files : Path → Option Text,
        (fun p => if p ∈ paths then head p else if p = q then head p else files p) =
          fun p => if p ∈ q :: paths then head p else files p := by
      intro files
      funext p
      by_cases hp : p ∈ paths
      · rw [if_pos hp, if_pos (List.mem_cons_of_mem q hp)]
      · by_cases heq : p = q
        · rw [if_neg hp, if_pos heq, if_pos (heq ▸ List.mem_cons_self)]
        · rw [if_neg hp, if_neg heq, if_neg (fun hmem => (List.mem_cons.mp hmem).elim heq hp)]
    rw [hmerge, hmerge] at hrest
    rw [restore, List.foldl_cons, hstep]
    exact hrest

/-- What is on disk and what is staged is what is committed. -/
def Clean (r : Repo) : Prop := Agree r.worktree r.head ∧ Agree r.index r.head

theorem clean_iff_looks : Clean r ↔ Looks r (fun p => r.head.lookup p) (fun p => r.head.lookup p)
    (fun p => r.head.lookup p) :=
  ⟨fun h => ⟨h.1, h.2, fun _ => rfl⟩, fun h => ⟨h.worktree, h.index⟩⟩

/-- Files that differ from the last commit at the restored paths only are all as committed. -/
theorem restore_clean {paths : List Path} (hpaths : ∀ p ∈ paths, (head p).isSome = true)
    (hdisk : ∀ p, p ∉ paths → disk p = head p) (hstaged : ∀ p, p ∉ paths → staged p = head p)
    (h : Looks r disk staged head) : Looks (restore paths r) head head head := by
  have hlooks := restore_looks hpaths h
  have hsame : ∀ files : Path → Option Text, (∀ p, p ∉ paths → files p = head p) →
      (fun p => if p ∈ paths then head p else files p) = head := by
    intro files hfiles
    funext p
    split
    · rfl
    · rename_i hp
      exact hfiles p hp
  rwa [hsame disk hdisk, hsame staged hstaged] at hlooks

end Rollback

end GitMoves
