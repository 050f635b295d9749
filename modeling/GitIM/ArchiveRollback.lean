import GitIM.ChannelArchive
import Mathlib.Data.List.TakeWhile

/-!
# The end of a transfer

A transfer that is refused leaves the repository as it was committed: what was moved is back in its
place, and what was stamped is restored. One that is committed leaves the same files on disk, staged
and committed, each moved file at its new place.
-/

namespace ChannelArchive

open Checked TextLines TextScan FileTree GitIndex GitMoves Channels Cards

section Transactions

variable {r : Repo} {disk staged head : Path → Option Text} {env : Env} {done : List Move}

/-- The moves made so far, the last one first, and what they have left. -/
structure Made (disk staged head : Path → Option Text) (done : List Move) (r : Repo) : Prop where
  disjoint : done.Pairwise Disjoint
  free : ∀ m ∈ done, Free m disk ∧ Free m staged
  occupied : ∀ m ∈ done, Occupied m disk ∧ Occupied m staged
  looks : Looks r (disk ∘ route done) (staged ∘ route done) head

theorem made_nil (h : Looks r disk staged head) : Made disk staged head [] r where
  disjoint := List.Pairwise.nil
  free _ hm := by cases hm
  occupied _ hm := by cases hm
  looks := h

/-- A directory is moved to a free place only; for a file git looks itself. -/
def Clear (files : Path → Option Text) (m : Move) : Prop :=
  ∀ source target apart, m = .dir source target apart → Free m files

theorem free_congr {files files' : Path → Option Text} {m : Move}
    (hpresent : ∀ p, (files p).isSome = (files' p).isSome) (h : Free m files) : Free m files' := by
  intro p hp
  rw [← Option.not_isSome_iff_eq_none, ← hpresent, h p hp]
  simp

theorem Made.next (h : Made disk staged head done r) {m : Move} {r' : Repo}
    (hpresent : ∀ p, (disk p).isSome = (staged p).isSome) (hclear : Clear disk m)
    (hm : ∀ m' ∈ done, Disjoint m m') (hperform : m.perform r = some r') :
    Made disk staged head (m :: done) r' := by
  have hfix : ∀ p, m.Touches p → route done p = p := fun p hp =>
    route_of_not_touches fun m' hm' => hm m' hm' p hp
  have hfree : Free m disk := by
    cases m with
    | file source target distinct =>
      intro p hp
      have htarget : p = target := hp
      have hnone := free_of_perform h.looks hperform
      rw [Function.comp_apply, hfix target (Or.inr rfl)] at hnone
      rw [htarget, hnone]
    | dir source target apart => exact hclear source target apart rfl
  have hmoved : ∀ files : Path → Option Text, Free m files → Free m (files ∘ route done) :=
    fun files hfiles p hp => by rw [Function.comp_apply, hfix p (Or.inr hp), hfiles p hp]
  have hfound : ∀ files : Path → Option Text, Occupied m (files ∘ route done) → Occupied m files := by
    rintro files ⟨p, hp, hsome⟩
    refine ⟨p, hp, ?_⟩
    rwa [Function.comp_apply, hfix p (Or.inl hp)] at hsome
  have hstaged : Free m staged := free_congr hpresent hfree
  obtain ⟨hoccDisk, hoccStaged⟩ := occupied_of_perform h.looks hperform
  have hlooks := perform_looks h.looks (hmoved disk hfree) (hmoved staged hstaged) hperform
  refine ⟨List.pairwise_cons.mpr ⟨hm, h.disjoint⟩, ?_, ?_, hlooks⟩
  · intro m' hm'
    rcases List.mem_cons.mp hm' with rfl | hrest
    · exact ⟨hfree, hstaged⟩
    · exact h.free m' hrest
  · intro m' hm'
    rcases List.mem_cons.mp hm' with rfl | hrest
    · exact ⟨hfound disk hoccDisk, hfound staged hoccStaged⟩
    · exact h.occupied m' hrest

/-- Wherever the loop stops, it stops behind some of the moves. -/
theorem moveAll_made {todo : List (Move × Text)} (hpresent : ∀ p, (disk p).isSome = (staged p).isSome)
    (hclear : ∀ m ∈ todo.map Prod.fst, Clear disk m)
    (hdisjoint : ((todo.map Prod.fst).reverse ++ done).Pairwise Disjoint)
    (h : Made disk staged head done r) :
    Made disk staged head (moveAll env todo done r).done (moveAll env todo done r).repo ∧
      ((moveAll env todo done r).failed = none →
        (moveAll env todo done r).done = (todo.map Prod.fst).reverse ++ done) := by
  induction todo generalizing done r with
  | nil => exact ⟨h, fun _ => rfl⟩
  | cons first rest ih =>
    obtain ⟨m, failure⟩ := first
    rw [List.map_cons, List.reverse_cons, List.append_assoc, List.singleton_append] at hdisjoint
    have hm : ∀ m' ∈ done, Disjoint m m' := fun m' hm' =>
      List.rel_of_pairwise_cons (List.pairwise_append.mp hdisjoint).2.1 hm'
    rw [moveAll]
    split
    · exact ⟨h, fun hnone => by cases hnone⟩
    · exact ⟨h, fun hnone => by cases hnone⟩
    · rename_i r' _ hperform
      obtain ⟨hmade, hall⟩ := ih (fun m' hm' => hclear m' (List.mem_cons_of_mem _ hm')) hdisjoint
        (h.next hpresent (hclear m List.mem_cons_self) hm hperform)
      refine ⟨hmade, fun hnone => ?_⟩
      rw [hall hnone, List.map_cons, List.reverse_cons, List.append_assoc, List.singleton_append]

/-- What the moves have left can be put together in any order. -/
theorem Made.perm (h : Made disk staged head done r) {moves : List Move} (hperm : done.Perm moves) :
    Made disk staged head moves r := by
  have hroute : ∀ files : Path → Option Text, files ∘ route done = files ∘ route moves := by
    intro files
    funext p
    rw [Function.comp_apply, Function.comp_apply, route_perm hperm h.disjoint]
  refine ⟨h.disjoint.perm hperm disjoint_symm, fun m hm => h.free m (hperm.mem_iff.mpr hm),
    fun m hm => h.occupied m (hperm.mem_iff.mpr hm), ?_⟩
  rw [← hroute, ← hroute]
  exact h.looks

variable {stamped paths : List Path}

/-- The stamped files are committed ones, and no others differ from the last commit. -/
structure Stamped (disk head : Path → Option Text) (stamped : List Path) : Prop where
  committed : ∀ p ∈ stamped, (head p).isSome = true
  present : ∀ p, (disk p).isSome = (head p).isSome
  others : ∀ p, p ∉ stamped → disk p = head p

/-- The index behind `git add`, seen from where the files were before the moves. -/
theorem add_made {r' : Repo} (h : Made disk head head done r) (hadd : add r paths = some r') :
    Looks r' (disk ∘ route done)
      ((fun p => if route done p ∈ paths then disk p else head p) ∘ route done) head := by
  have heq := add_eq_some hadd
  subst heq
  refine ⟨h.looks.worktree, fun p => ?_, h.looks.head⟩
  rw [lookup_copyEntries, h.looks.worktree, h.looks.index]
  simp only [Function.comp_apply, route_route h.disjoint]

/-- Moves taken back after `git add`, then the stamps. -/
theorem rollback_added {staged : Path → Option Text} (hrolls : RollsBack env)
    (hstamped : Stamped disk head stamped) (h : Made disk head head done r) {r' : Repo}
    (hstaged : ∀ p, staged p = disk p ∨ staged p = head p)
    (hlooks : Looks r' (disk ∘ route done) (staged ∘ route done) head) :
    Looks (env.restore stamped (env.undo done r')) head head head := by
  rw [hrolls.restore_eq, hrolls.undo_eq]
  have hpresent : ∀ p, (disk p).isSome = (staged p).isSome := by
    intro p
    rcases hstaged p with heq | heq
    · rw [heq]
    · rw [heq, hstamped.present]
  have hundone : Looks (undo done r') disk staged head := by
    refine undo_looks h.disjoint (fun m hm => ?_) (fun m hm => ?_) hlooks
    · exact ⟨(h.free m hm).1, free_congr hpresent (h.free m hm).1⟩
    · obtain ⟨p, hp, hsome⟩ := (h.occupied m hm).1
      exact ⟨(h.occupied m hm).1, p, hp, hpresent p ▸ hsome⟩
  refine restore_clean hstamped.committed hstamped.others (fun p hp => ?_) hundone
  rcases hstaged p with heq | heq
  · rw [heq, hstamped.others p hp]
  · exact heq

theorem addAndCommit_cases (env : Env) (paths : List Path) (r : Repo) :
    (∃ e r', addAndCommit env paths r = (some e, r') ∧ (r' = r ∨ add r paths = some r')) ∨
      ∃ added, add r paths = some added ∧
        addAndCommit env paths r = (none, { added with head := added.index }) := by
  rw [addAndCommit]
  cases hadd : add r paths with
  | none => exact Or.inl ⟨_, r, rfl, Or.inl rfl⟩
  | some added =>
    cases hcommit : commit added with
    | none =>
      cases env.commitError with
      | none => exact Or.inl ⟨env.words, added, by simp only [hcommit], Or.inr rfl⟩
      | some e => exact Or.inl ⟨e, added, rfl, Or.inr rfl⟩
    | some committed =>
      obtain ⟨-, rfl⟩ := commit_eq_some_iff.mp hcommit
      cases env.commitError with
      | none => exact Or.inr ⟨added, rfl, by simp only [hcommit]⟩
      | some e => exact Or.inl ⟨e, added, rfl, Or.inr rfl⟩

/-- Where a transfer ends: everything as committed before, if the rollback goes through, or everything
committed. -/
structure Transferred (env : Env) (disk head : Path → Option Text) (moves : List Move) (e : Ending) :
    Prop where
  refused : RollsBack env → (∃ message, e.answer = .refused message) → Looks e.repo head head head
  committed : (∀ message, e.answer ≠ .refused message) →
    Looks e.repo (disk ∘ route moves) (disk ∘ route moves) (disk ∘ route moves) ∧
      (∀ m ∈ moves, Free m disk ∧ Occupied m disk)

theorem transferred_refused {moves : List Move} {message : Text}
    (h : RollsBack env → Looks r head head head) :
    Transferred env disk head moves ⟨.refused message, r⟩ :=
  ⟨fun hrolls _ => h hrolls, fun hnot => absurd rfl (hnot message)⟩

theorem transact_transferred {moves : List (Move × Text)} {undone : List Move} {op : Text}
    {commitFailed : Text → Text} (hstamped : Stamped disk head stamped)
    (hclear : ∀ m ∈ moves.map Prod.fst, Clear disk m)
    (hdisjoint : (moves.map Prod.fst).Pairwise Disjoint)
    (hundone : undone.Perm (moves.map Prod.fst))
    (hpaths : ∀ p, route undone p ∈ stamped → p ∈ paths) (h : Looks r disk head head) :
    Transferred env disk head undone
      (transact env stamped moves undone paths op commitFailed r) := by
  have hreverse : ((moves.map Prod.fst).reverse ++ []).Pairwise Disjoint := by
    rw [List.append_nil]
    exact hdisjoint.perm (List.reverse_perm _).symm disjoint_symm
  obtain ⟨hmade, hall⟩ := @moveAll_made r disk head head env [] moves hstamped.present hclear hreverse
    (made_nil h)
  rw [transact]
  cases hfailed : (moveAll env moves [] r).failed with
  | some message =>
    exact transferred_refused fun hrolls =>
      rollback_added hrolls hstamped hmade (fun p => Or.inr rfl) hmade.looks
  | none =>
    have hdone : (moveAll env moves [] r).done.Perm undone := by
      rw [hall hfailed, List.append_nil]
      exact (List.reverse_perm _).trans hundone.symm
    have hmoved := hmade.perm hdone
    rcases addAndCommit_cases env paths (moveAll env moves [] r).repo with
      ⟨e, r', heq, hsame⟩ | ⟨added, hadd, heq⟩
    · simp only [heq]
      refine transferred_refused fun hrolls => ?_
      rcases hsame with rfl | hadd
      · exact rollback_added hrolls hstamped hmoved (fun p => Or.inr rfl) hmoved.looks
      · exact rollback_added hrolls hstamped hmoved (fun p => ite_eq_or_eq _ _ _) (add_made hmoved hadd)
    · have hadded := add_made hmoved hadd
      have hindex : (fun p => if route undone p ∈ paths then disk p else head p) ∘ route undone =
          disk ∘ route undone := by
        funext p
        rw [Function.comp_apply, Function.comp_apply, route_route hmoved.disjoint]
        split
        · rfl
        · rename_i hp
          exact (hstamped.others _ fun hin => hp (hpaths p hin)).symm
      rw [hindex] at hadded
      have hfinal : Looks { added with head := added.index } (disk ∘ route undone)
          (disk ∘ route undone) (disk ∘ route undone) :=
        ⟨hadded.worktree, hadded.index, hadded.index⟩
      have hkept : ∀ m ∈ undone, Free m disk ∧ Occupied m disk := fun m hm =>
        ⟨(hmoved.free m hm).1, (hmoved.occupied m hm).1⟩
      simp only [heq]
      cases env.pushError with
      | none => exact ⟨fun _ hrefused => (hrefused.elim fun _ h => by cases h), fun _ => ⟨hfinal, hkept⟩⟩
      | some e => exact ⟨fun _ hrefused => (hrefused.elim fun _ h => by cases h), fun _ => ⟨hfinal, hkept⟩⟩

end Transactions

section Stamps

variable {rewrite : Text → Except Text (Option Text)} {dir : Text → Path} {env : Env} {r : Repo}
  {disk head : Path → Option Text} {done ids : List Text}

/-- The metadata of these cards have been rewritten, and nothing else. -/
structure Rewritten (rewrite : Text → Except Text (Option Text)) (dir : Text → Path)
    (head disk : Path → Option Text) (done : List Text) : Prop where
  cards : ∀ id ∈ done, ∃ old new, head (metaIn (dir id)) = some old ∧ rewrite old = .ok (some new) ∧
    disk (metaIn (dir id)) = some new
  others : ∀ p, (∀ id ∈ done, p ≠ metaIn (dir id)) → disk p = head p

/-- A card that has no metadata or that the rewriting leaves alone. -/
def Skipped (rewrite : Text → Except Text (Option Text)) (dir : Text → Path)
    (head : Path → Option Text) (id : Text) : Prop :=
  ∀ old, head (metaIn (dir id)) = some old → rewrite old = .ok none

theorem Rewritten.snoc (h : Rewritten rewrite dir head disk done) {id old new : Text}
    (hid : ∀ other ∈ done, metaIn (dir other) ≠ metaIn (dir id)) (hold : head (metaIn (dir id)) = some old)
    (hnew : rewrite old = .ok (some new)) :
    Rewritten rewrite dir head (fun p => if p = metaIn (dir id) then some new else disk p)
      (done ++ [id]) := by
  refine ⟨fun other hother => ?_, fun p hp => ?_⟩
  · rcases List.mem_append.mp hother with hmem | hmem
    · rw [if_neg (hid other hmem)]
      exact h.cards other hmem
    · rw [List.mem_singleton.mp hmem, if_pos rfl]
      exact ⟨old, new, hold, hnew, rfl⟩
  · rw [if_neg (hp id (List.mem_append_right _ (List.mem_singleton_self id)))]
    exact h.others p fun other hother => hp other (List.mem_append_left _ hother)

/-- What the loop over the cards has stamped when it ends. -/
structure StampsMade (rewrite : Text → Except Text (Option Text)) (dir : Text → Path)
    (head : Path → Option Text) (ids : List Text) (out : Progress Text) : Prop where
  once : out.done.Nodup
  listed : ∀ id ∈ out.done, id ∈ ids
  looks : ∃ disk, Looks out.repo disk head head ∧ Rewritten rewrite dir head disk out.done
  all : out.failed = none → ∀ id ∈ ids, id ∈ out.done ∨ Skipped rewrite dir head id

theorem stampCards_made {all : List Text} (hinjective : ∀ a b, metaIn (dir a) = metaIn (dir b) → a = b)
    (hwrite : ∀ id n, (env.card id).write ≠ .stopped n) (honce : (done ++ ids).Nodup)
    (hlisted : ∀ id ∈ done ++ ids, id ∈ all)
    (hpast : ∀ id ∈ all, id ∈ ids ∨ id ∈ done ∨ Skipped rewrite dir head id)
    (h : Looks r disk head head) (hrewritten : Rewritten rewrite dir head disk done) :
    StampsMade rewrite dir head all (stampCards rewrite dir env ids done r) := by
  induction ids generalizing done r disk with
  | nil =>
    rw [List.append_nil] at honce hlisted
    exact ⟨honce, hlisted, ⟨disk, h, hrewritten⟩, fun _ id hid =>
      (hpast id hid).resolve_left (fun hmem => by cases hmem)⟩
  | cons id rest ih =>
    have hstop : ∀ message, StampsMade rewrite dir head all ⟨some message, done, r⟩ := fun message =>
      ⟨(List.nodup_append.mp honce).1, fun other hother => hlisted other (List.mem_append_left _ hother),
        ⟨disk, h, hrewritten⟩, fun hnone => by cases hnone⟩
    have hother : ∀ other ∈ done, metaIn (dir other) ≠ metaIn (dir id) := fun other hmem heq =>
      (List.nodup_append.mp honce).2.2 other hmem id List.mem_cons_self (hinjective _ _ heq)
    have hcurrent : r.worktree.lookup (metaIn (dir id)) = head (metaIn (dir id)) := by
      rw [h.worktree]
      exact hrewritten.others _ fun other hmem heq => hother other hmem heq.symm
    have hskip : Skipped rewrite dir head id →
        StampsMade rewrite dir head all (stampCards rewrite dir env rest done r) := by
      intro hskipped
      refine ih ?_ (fun other hmem => hlisted other ?_) (fun other hmem => ?_) h hrewritten
      · exact honce.sublist (List.Sublist.append (List.Sublist.refl _) (List.sublist_cons_self id rest))
      · rcases List.mem_append.mp hmem with hdone | hrest
        · exact List.mem_append_left _ hdone
        · exact List.mem_append_right _ (List.mem_cons_of_mem id hrest)
      · rcases hpast other hmem with hids | hdone | hskippedOther
        · rcases List.mem_cons.mp hids with rfl | hrest
          · exact Or.inr (Or.inr hskipped)
          · exact Or.inl hrest
        · exact Or.inr (Or.inl hdone)
        · exact Or.inr (Or.inr hskippedOther)
    rw [stampCards]
    split
    · exact hstop _
    · split
      · rename_i hnone
        refine hskip fun old hold => ?_
        rw [hcurrent, hold] at hnone
        cases hnone
      · exact hstop _
      · rename_i yaml hyaml _
        rw [hcurrent] at hyaml
        split
        · exact hstop _
        · rename_i hrewrite
          refine hskip fun old hold => ?_
          cases hyaml.symm.trans hold
          exact hrewrite
        · rename_i newYaml hrewrite
          split
          · exact hstop _
          · rename_i n hn
            exact absurd hn (hwrite id n)
          · have hlooks : Looks { r with worktree := writeFile r.worktree (metaIn (dir id)) newYaml }
                (fun p => if p = metaIn (dir id) then some newYaml else disk p) head head :=
              ⟨fun p => by rw [lookup_writeFile, h.worktree], h.index, h.head⟩
            refine ih ?_ (fun other hmem => hlisted other ?_) (fun other hmem => ?_) hlooks
              (hrewritten.snoc hother hyaml hrewrite)
            · rw [List.append_assoc]
              exact honce
            · rw [List.append_assoc] at hmem
              exact hmem
            · rcases hpast other hmem with hids | hdone | hskippedOther
              · rcases List.mem_cons.mp hids with rfl | hrest
                · exact Or.inr (Or.inl (List.mem_append_right _ (List.mem_singleton_self _)))
                · exact Or.inl hrest
              · exact Or.inr (Or.inl (List.mem_append_left _ hdone))
              · exact Or.inr (Or.inr hskippedOther)

theorem Rewritten.stamped (h : Rewritten rewrite dir head disk done) :
    Stamped disk head (done.map fun id => metaIn (dir id)) := by
  have hcommitted : ∀ p ∈ done.map (fun id => metaIn (dir id)), (head p).isSome = true := by
    intro p hp
    obtain ⟨id, hid, rfl⟩ := List.mem_map.mp hp
    obtain ⟨old, new, hold, -⟩ := h.cards id hid
    rw [hold]
    rfl
  have hothers : ∀ p, p ∉ done.map (fun id => metaIn (dir id)) → disk p = head p := fun p hp =>
    h.others p fun id hid heq => hp (List.mem_map.mpr ⟨id, hid, heq.symm⟩)
  refine ⟨hcommitted, fun p => ?_, hothers⟩
  by_cases hp : p ∈ done.map (fun id => metaIn (dir id))
  · rw [hcommitted p hp]
    obtain ⟨id, hid, rfl⟩ := List.mem_map.mp hp
    obtain ⟨old, new, -, -, hnew⟩ := h.cards id hid
    rw [hnew]
    rfl
  · rw [hothers p hp]

end Stamps

section Transfers

variable {r : Repo} {env : Env} {source : Side} {channel : Text} {disk head : Path → Option Text}
  {a b : Text} {p : Path}

theorem slash_cancel {x y : Text} (ha : '/' ∉ a) (hb : '/' ∉ b) (h : a ++ '/' :: x = b ++ '/' :: y) :
    a = b := by
  have hsplit : splitOnce '/' (a ++ '/' :: x) = some (a, x) := splitOnce_eq_some_iff.mpr ⟨rfl, ha⟩
  have hback : splitOnce '/' (a ++ '/' :: x) = some (b, y) := splitOnce_eq_some_iff.mpr ⟨h, hb⟩
  exact congrArg Prod.fst (Option.some.inj (hsplit.symm.trans hback))

theorem cardAt_below (side : Side) (channel id rest : Text) :
    inDir (cardAt side channel id) rest =
      side.front ++ (channel ++ ("/cards/".toList ++ (id ++ '/' :: rest))) := by
  simp [inDir, cardAt, List.append_assoc]

theorem under_cardAt_id (ha : '/' ∉ a) (hb : '/' ∉ b) (h : Under (cardAt source channel a) p)
    (h' : Under (cardAt source channel b) p) : a = b := by
  obtain ⟨x, hx⟩ := h.exists_rest
  obtain ⟨y, hy⟩ := h'.exists_rest
  rw [cardAt_below] at hx hy
  exact slash_cancel ha hb (List.append_cancel_left
    (List.append_cancel_left (List.append_cancel_left (hx.symm.trans hy))))

/-- A path that the move of a card touches lies in one of its two places. -/
theorem touches_moveCard (h : (moveCard source channel a).Touches p) :
    ∃ side, Under (cardAt side channel a) p :=
  h.elim (fun h => ⟨_, h⟩) (fun h => ⟨_, h⟩)

theorem moveCard_disjoint (ha : '/' ∉ a) (hb : '/' ∉ b) (hne : a ≠ b) :
    Disjoint (moveCard source channel a) (moveCard source channel b) := by
  intro p h h'
  obtain ⟨side, hside⟩ := touches_moveCard h
  obtain ⟨side', hside'⟩ := touches_moveCard h'
  cases under_cardAt_side hside hside'
  exact hne (under_cardAt_id ha hb hside hside')

theorem front_cancel {side side' : Side} {x y : Text} (h : side.front ++ x = side'.front ++ y) :
    side = side' ∧ x = y := by
  have hside : side = side' := by
    have hhead := congrArg List.head? h
    cases side <;> cases side' <;> first
      | rfl
      | cases hhead
  subst hside
  exact ⟨rfl, List.append_cancel_left h⟩

theorem not_under_threadAt (side side' : Side) : ¬ Under (cardAt side channel a) (threadAt side' channel) := by
  intro h
  obtain ⟨rest, hrest⟩ := h.exists_rest
  rw [cardAt_below, threadAt] at hrest
  cases congrArg List.head? (List.append_cancel_left (front_cancel hrest).2)

theorem not_under_metaAt (side side' : Side) : ¬ Under (cardAt side channel a) (metaAt side' channel) := by
  intro h
  obtain ⟨rest, hrest⟩ := h.exists_rest
  rw [cardAt_below, metaAt] at hrest
  cases congrArg List.head? (List.append_cancel_left (front_cancel hrest).2)

theorem touches_moveThread (h : (moveThread source channel).Touches p) :
    ∃ side, p = threadAt side channel :=
  h.elim (fun h => ⟨_, h⟩) (fun h => ⟨_, h⟩)

theorem touches_moveMeta (h : (moveMeta source channel).Touches p) : ∃ side, p = metaAt side channel :=
  h.elim (fun h => ⟨_, h⟩) (fun h => ⟨_, h⟩)

theorem moveCard_thread_disjoint : Disjoint (moveCard source channel a) (moveThread source channel) := by
  intro p h h'
  obtain ⟨side, hside⟩ := touches_moveCard h
  obtain ⟨side', rfl⟩ := touches_moveThread h'
  exact not_under_threadAt side side' hside

theorem moveCard_meta_disjoint : Disjoint (moveCard source channel a) (moveMeta source channel) := by
  intro p h h'
  obtain ⟨side, hside⟩ := touches_moveCard h
  obtain ⟨side', rfl⟩ := touches_moveMeta h'
  exact not_under_metaAt side side' hside

theorem thread_meta_disjoint : Disjoint (moveThread source channel) (moveMeta source channel) := by
  intro p h h'
  obtain ⟨side, rfl⟩ := touches_moveThread h
  obtain ⟨side', hside'⟩ := touches_moveMeta h'
  have htail := List.append_cancel_left (front_cancel hside').2
  cases htail

/-- All moves of a channel. -/
def channelMoves (source : Side) (channel : Text) (ids : List Text) : List Move :=
  ids.map (moveCard source channel) ++ [moveThread source channel, moveMeta source channel]

theorem channelMoves_disjoint {ids : List Text} (honce : ids.Nodup) (hids : ∀ id ∈ ids, '/' ∉ id) :
    (channelMoves source channel ids).Pairwise Disjoint := by
  refine List.pairwise_append.mpr ⟨?_, ?_, ?_⟩
  · rw [List.pairwise_map]
    exact honce.imp_of_mem fun ha hb hne => moveCard_disjoint (hids _ ha) (hids _ hb) hne
  · exact List.pairwise_pair.mpr thread_meta_disjoint
  · intro m hm m' hm'
    obtain ⟨id, -, rfl⟩ := List.mem_map.mp hm
    rcases List.mem_cons.mp hm' with rfl | hlast
    · exact moveCard_thread_disjoint
    · rw [List.mem_singleton.mp hlast]
      exact moveCard_meta_disjoint

theorem mem_readDir {root : Path} {tree : FileMap} {name : Text} (h : name ∈ readDir root tree) :
    '/' ∉ name := by
  obtain ⟨e, -, hname⟩ := List.mem_filterMap.mp (List.mem_dedup.mp h)
  obtain ⟨rest, -, rfl⟩ := Option.map_eq_some_iff.mp hname
  intro hslash
  simpa using List.mem_takeWhile_imp hslash

theorem mem_readDir_of_lookup {root name rest : Text} {tree : FileMap} (hname : '/' ∉ name)
    (h : (tree.lookup (root ++ (name ++ '/' :: rest))).isSome = true) : name ∈ readDir root tree := by
  obtain ⟨v, hv⟩ := Option.isSome_iff_exists.mp h
  refine List.mem_dedup.mpr (List.mem_filterMap.mpr ⟨_, mem_of_lookup hv, ?_⟩)
  have hall : name.all (fun c => decide (c ≠ '/')) = true := by
    rw [List.all_eq_true]
    intro c hc
    exact decide_eq_true fun heq : c = '/' => hname (heq ▸ hc)
  have htake : (name ++ '/' :: rest).takeWhile (fun c => decide (c ≠ '/')) = name :=
    takeWhile_of_stops hall ((stops_cons _ _ _).mpr (by simp))
  rw [stripPrefix_append, Option.map_some, htake]

theorem metaIn_injective {a b : Path} (h : metaIn a = metaIn b) : a = b :=
  List.append_cancel_right (List.append_cancel_right h)

theorem cardAt_injective {side : Side} {channel a b : Text} (h : cardAt side channel a = cardAt side channel b) :
    a = b :=
  List.append_cancel_left (List.append_cancel_left (List.append_cancel_left h))

/-- No card has files in both places. -/
def Separated (files : Path → Option Text) : Prop :=
  ∀ channel id, '/' ∉ channel → '/' ∉ id → ∃ side, ∀ p, Under (cardAt side channel id) p → files p = none

/-- What stays of a card where it is, is nothing where it would go. -/
theorem Separated.free (h : Separated head) (hchannel : '/' ∉ channel) (ha : '/' ∉ a)
    (hsome : ∃ p, Under (cardAt source channel a) p ∧ (head p).isSome = true) :
    Free (moveCard source channel a) head := by
  obtain ⟨p, hp, hpsome⟩ := hsome
  obtain ⟨side, hside⟩ := h channel a hchannel ha
  have hother : side = source.other := by
    have hne : side ≠ source := by
      rintro rfl
      rw [hside p hp] at hpsome
      cases hpsome
    cases side <;> cases source <;> first
      | rfl
      | exact absurd rfl hne
  subst hother
  exact hside

/-- A channel with these cards is committed on the other side. -/
structure ChannelMoved (rewrite : Text → Except Text (Option Text)) (source : Side) (channel : Text)
    (head disk : Path → Option Text) (ids : List Text) (r : Repo) : Prop where
  once : ids.Nodup
  names : ∀ id ∈ ids, '/' ∉ id
  rewritten : Rewritten rewrite (cardAt source channel) head disk ids
  all : ∀ id, '/' ∉ id → id ∈ ids ∨ Skipped rewrite (cardAt source channel) head id
  moved : ∀ m ∈ channelMoves source channel ids, Free m disk ∧ Occupied m disk
  looks : Looks r (disk ∘ route (channelMoves source channel ids))
    (disk ∘ route (channelMoves source channel ids)) (disk ∘ route (channelMoves source channel ids))

/-- How the transfer of a channel ends. -/
structure ChannelEnds (env : Env) (rewrite : Text → Except Text (Option Text)) (source : Side)
    (channel : Text) (head : Path → Option Text) (e : Ending) : Prop where
  refused : RollsBack env → (∃ message, e.answer = .refused message) → Looks e.repo head head head
  moved : (∀ message, e.answer ≠ .refused message) →
    ∃ ids disk, ChannelMoved rewrite source channel head disk ids e.repo

variable {rewrite : Text → Except Text (Option Text)}

theorem channelEnds_refused {message : Text} (h : RollsBack env → Looks r head head head) :
    ChannelEnds env rewrite source channel head ⟨.refused message, r⟩ :=
  ⟨fun hrolls _ => h hrolls, fun hnot => absurd rfl (hnot message)⟩

theorem front_slash (side : Side) (channel id rest : Text) :
    inDir (cardAt side channel id) rest = cardsAt side channel ++ (id ++ '/' :: rest) := by
  rw [cardAt_below, cardsAt, List.append_assoc, List.append_assoc]

/-- The files that the commit of a transfer names. -/
def channelPaths (source : Side) (channel : Text) (ids : List Text) : List Path :=
  [threadAt source.other channel, metaAt source.other channel] ++
    ids.flatMap fun id => [metaIn (cardAt source.other channel id),
      threadIn (cardAt source.other channel id)]

/-- The stamped files are among them, at their new places. -/
theorem stamped_mem_channelPaths {ids : List Text} {undone : List Move}
    (hdisjoint : (channelMoves source channel ids).Pairwise Disjoint)
    (hundone : undone.Perm (channelMoves source channel ids)) {p : Path}
    (hp : route undone p ∈ ids.map fun id => metaIn (cardAt source channel id)) :
    p ∈ channelPaths source channel ids := by
  have hdisjoint' : undone.Pairwise Disjoint := hdisjoint.perm hundone.symm disjoint_symm
  obtain ⟨id, hid, heq⟩ := List.mem_map.mp hp
  have hmem : moveCard source channel id ∈ undone :=
    hundone.mem_iff.mpr (List.mem_append_left _ (List.mem_map_of_mem hid))
  have htouch : (moveCard source channel id).Touches (metaIn (cardAt source channel id)) :=
    Or.inl (under_inDir _ _)
  have hroute : p = (moveCard source channel id).swap (metaIn (cardAt source channel id)) := by
    rw [← route_of_touches hdisjoint' hmem htouch, heq, route_route hdisjoint']
  have hswap : (moveCard source channel id).swap (metaIn (cardAt source channel id)) =
      metaIn (cardAt source.other channel id) := by
    rw [metaIn]
    exact Move.swap_dir_inDir _ _ _ _
  rw [hroute, hswap]
  exact List.mem_append_right _ (List.mem_flatMap.mpr ⟨id, hid, List.mem_cons_self⟩)

theorem channelEnds_of_transferred {e : Ending} {ids : List Text} {undone : List Move}
    (honce : ids.Nodup) (hnames : ∀ id ∈ ids, '/' ∉ id)
    (hrewritten : Rewritten rewrite (cardAt source channel) head disk ids)
    (hall : ∀ id, '/' ∉ id → id ∈ ids ∨ Skipped rewrite (cardAt source channel) head id)
    (hundone : undone.Perm (channelMoves source channel ids)) (h : Transferred env disk head undone e) :
    ChannelEnds env rewrite source channel head e := by
  refine ⟨h.refused, fun hmoved => ⟨ids, disk, honce, hnames, hrewritten, hall, ?_, ?_⟩⟩
  · exact fun m hm => (h.committed hmoved).2 m (hundone.mem_iff.mpr hm)
  · have hdisjoint := (channelMoves_disjoint honce hnames).perm hundone.symm disjoint_symm
    have hroute : disk ∘ route undone = disk ∘ route (channelMoves source channel ids) := by
      funext p
      rw [Function.comp_apply, Function.comp_apply, route_perm hundone hdisjoint]
    rw [← hroute]
    exact (h.committed hmoved).1

theorem moveChannel_ends {words : Words} (hseparated : Separated head) (hchannel : '/' ∉ channel)
    (hwrite : ∀ id n, (env.card id).write ≠ .stopped n) (h : Looks r head head head) :
    ChannelEnds env rewrite source channel head (moveChannel words source rewrite env channel r) := by
  rw [moveChannel]
  simp only
  split
  · exact channelEnds_refused fun _ => h
  · have hmade : StampsMade rewrite (cardAt source channel) head (readDir (cardsAt source channel)
        r.worktree) (stampCards rewrite (cardAt source channel) env (readDir (cardsAt source channel)
          r.worktree) [] r) :=
      stampCards_made (fun a b heq => cardAt_injective (metaIn_injective heq)) hwrite
        (List.nodup_dedup _) (fun id hid => hid) (fun id hid => Or.inl hid) h
        ⟨fun id hid => (by cases hid), fun p _ => rfl⟩
    generalize stampCards rewrite (cardAt source channel) env (readDir (cardsAt source channel)
      r.worktree) [] r = stamped at hmade ⊢
    obtain ⟨disk, hlooks, hrewritten⟩ := hmade.looks
    have hstamped := hrewritten.stamped
    have hrestored : RollsBack env → Looks (env.restore (stamped.done.map fun id =>
        metaIn (cardAt source channel id)) stamped.repo) head head head := by
      intro hrolls
      rw [hrolls.restore_eq]
      exact restore_clean hstamped.committed hstamped.others (fun p _ => rfl) hlooks
    split
    · exact channelEnds_refused hrestored
    · rename_i hfailed
      split
      · exact channelEnds_refused hrestored
      · have hnames : ∀ id ∈ stamped.done, '/' ∉ id := fun id hid => mem_readDir (hmade.listed id hid)
        have hdisjoint : (channelMoves source channel stamped.done).Pairwise Disjoint :=
          channelMoves_disjoint hmade.once hnames
        have hclear : ∀ m ∈ channelMoves source channel stamped.done, Clear disk m := by
          intro m hm a b apart heq
          rcases List.mem_append.mp hm with hcard | hfile
          · obtain ⟨id, hid, rfl⟩ := List.mem_map.mp hcard
            obtain ⟨old, new, hold, -⟩ := hrewritten.cards id hid
            have hfree := hseparated.free hchannel (hnames id hid)
              ⟨metaIn (cardAt source channel id), under_inDir _ _, by rw [hold]; rfl⟩
            exact free_congr (fun p => (hstamped.present p).symm) hfree
          · rcases List.mem_cons.mp hfile with rfl | hlast
            · cases heq
            · rw [List.mem_singleton.mp hlast] at heq
              cases heq
        have hmoves : (stamped.done.map (fun id => (moveCard source channel id,
            "git mv card ".toList ++ (cardAt source channel id ++ " failed: ".toList))) ++
              [(moveThread source channel, "git mv thread failed: ".toList),
                (moveMeta source channel, "git mv meta failed: ".toList)]).map Prod.fst =
            channelMoves source channel stamped.done := by
          rw [List.map_append, List.map_map]
          rfl
        have hundone : ((stamped.done.map (moveCard source channel)).reverse ++
            [moveMeta source channel, moveThread source channel]).Perm
              (channelMoves source channel stamped.done) :=
          (List.reverse_perm _).append (List.Perm.swap _ _ _)
        rw [← hmoves] at hclear hdisjoint hundone
        refine channelEnds_of_transferred hmade.once hnames hrewritten (fun id hid => ?_)
          (hmoves ▸ hundone) (transact_transferred hstamped hclear hdisjoint hundone (fun p hp =>
            stamped_mem_channelPaths (hmoves ▸ hdisjoint) (hmoves ▸ hundone) hp) hlooks)
        by_cases hsome : (head (metaIn (cardAt source channel id))).isSome = true
        · have hlookup : (r.worktree.lookup (cardsAt source channel ++
              (id ++ '/' :: "card.meta.yaml".toList))).isSome = true := by
            rw [← front_slash, h.worktree]
            exact hsome
          exact hmade.all hfailed id (mem_readDir_of_lookup hid hlookup)
        · refine Or.inr fun old hold => ?_
          rw [hold] at hsome
          exact absurd rfl hsome

end Transfers

end ChannelArchive
