import GitIM.EpochClones

/-!
# Agreement of epoch rotation

From the steps of single clients to runs of any number of them, in any order.
-/

namespace EpochAgreement

open CommitChain FileTree Runs EpochRotation EpochRemote EpochClones

section Worlds
variable {Message : Type}

/-- The shape of the remote and of every clone. -/
def Inv (w : World Message) : Prop :=
  ∃ n, OriginInv w.origin n ∧ ∀ i, ClientInv w.origin (w.clients i)

theorem Inv.started (history : List (List Message)) : Inv (started history) := by
  have hplain : ∀ x ∈ commitAll 0 (history.map EpochChange.messages),
      isSnapshot x.change = false ∧ isRedirect x.change = false := by
    intro x hx
    have hmem := change_mem_of_mem hx
    rw [changes_commitAll] at hmem
    obtain ⟨ms, -, heq⟩ := List.mem_map.mp hmem
    rw [← heq]
    exact ⟨rfl, rfl⟩
  have hsnap : NoSnapshot (commitAll 0 (history.map EpochChange.messages)) :=
    fun x hx => (hplain x hx).1
  have hlookup (b : Nat) (chain : Chain Message)
      (h : (EpochRotation.started history).origin.lookup b = some chain) :
      b = 1 ∧ chain = commitAll 0 (history.map EpochChange.messages) := by
    rw [EpochRotation.started, lookup_cons_ite] at h
    split at h
    · rename_i hb
      cases h
      exact ⟨hb, rfl⟩
    · cases h
  have horigin : OriginInv (EpochRotation.started history).origin 1 := by
    refine ⟨?_, ?_, ?_, ?_, ?_⟩
    · intro b
      constructor
      · rintro ⟨chain, h⟩
        have hb := (hlookup b chain h).1
        omega
      · intro hb
        obtain rfl : b = 1 := by omega
        exact ⟨_, rfl⟩
    · intro b chain h hlt
      have hb := (hlookup b chain h).1
      omega
    · intro chain h
      rw [(hlookup 1 chain h).2]
      exact fun x hx => (hplain x hx).2
    · intro b chain h
      obtain ⟨rfl, rfl⟩ := hlookup b chain h
      exact ⟨fun x hx => hsnap x (List.mem_of_mem_tail hx), fun _ => hsnap,
        fun hone => absurd rfl hone⟩
    · intro b older newer holder hnewer
      have hb := (hlookup b older holder).1
      have hb' := (hlookup (b + 1) newer hnewer).1
      omega
  refine ⟨1, horigin, fun i => ?_⟩
  exact
    { tracking := horigin.tracks
      head := rfl
      snapshots := fun x hx _ => hx
      tail := fun x hx => hsnap x (List.mem_of_mem_tail hx)
      fence := fun hp => by cases hp
      firing := fun _ _ hp => by cases hp }

/-- What a state of the remote says about every later one. -/
structure Agreed (s t : World Message) : Prop where
  /-- A redirected branch ends with its redirect to the next epoch and stays as it is. -/
  sealed : ∀ b chain target, s.origin.lookup b = some chain → redirectOf chain = some target →
    target = b + 1 ∧ (∃ pre c, chain = pre ++ [c] ∧ c.change = .redirect target) ∧
      t.origin.lookup b = some chain
  /-- There is one active branch, all branches resolve to it, and it has all messages. -/
  active : ∃ active tip, t.origin.lookup active = some tip ∧
    (∀ b chain, t.origin.lookup b = some chain → (redirectOf chain = none ↔ b = active) ∧
      ∀ hops, active < b + hops → resolveActiveBranch t.origin hops b = some active) ∧
    ∀ b chain, s.origin.lookup b = some chain → ∀ m ∈ messagesOf chain, m ∈ messagesOf tip

theorem Inv.agreed {s t : World Message} (hs : Inv s) (ht : Inv t)
    (hext : Extends s.origin t.origin) : Agreed s t := by
  obtain ⟨k, hk, -⟩ := hs
  obtain ⟨n, hn, hclients⟩ := ht
  constructor
  · intro b chain target hb htarget
    have hclosed : ¬ NoRedirect chain := by
      intro hopen
      rw [(redirectOf_eq_none_iff (hk.rooted b chain hb).tail).mpr hopen] at htarget
      cases htarget
    have hbound := (hk.exist b).mp ⟨chain, hb⟩
    have hold : b ≠ k := fun hbk => hclosed ((hk.open_iff hb).mpr hbk)
    obtain ⟨pre, c, rfl, hc, -⟩ := hk.sealed b chain hb (by omega)
    rw [redirectOf_concat_redirect pre hc] at htarget
    cases htarget
    exact ⟨rfl, ⟨pre, c, rfl, hc⟩, (hext b _ hb).1 hclosed⟩
  · -- the branch of any clone exists, so there is a newest one
    obtain ⟨old, hold, -⟩ := (hclients 0).upstream_isPrefix
    have hlow := (hn.exist (t.clients 0).head).mp ⟨old, hold⟩
    obtain ⟨tip, htip⟩ := (hn.exist n).mpr (by omega)
    refine ⟨n, tip, htip, ?_, ?_⟩
    · intro b chain hb
      rw [redirectOf_eq_none_iff (hn.rooted b chain hb).tail, hn.open_iff hb]
      exact ⟨Iff.rfl, fun hops hhops => hn.resolves hb hhops⟩
    · intro b chain hb m hm
      obtain ⟨-, chain', hb', hpre⟩ := hext b chain hb
      have hbound := (hn.exist b).mp ⟨chain', hb'⟩
      exact hn.carried_newest htip (n - b) hb' (by omega) (messagesOf_mono hpre.subset hm)

variable [DecidableEq Message]

theorem step_inv {w w' : World Message} {a : Nat × Action Message} (h : Inv w) (hapart : Apart w a)
    (hstep : step w a = some w') : Inv w' ∧ Extends w.origin w'.origin := by
  obtain ⟨n, ho, hclients⟩ := h
  obtain ⟨⟨origin', next', c'⟩, hclient, rfl⟩ := Option.map_eq_some_iff.mp hstep
  obtain ⟨n', ho', hext, hc'⟩ := clientStep_inv ho (hclients a.1) hapart hclient
  refine ⟨⟨n', ho', fun i => ?_⟩, hext⟩
  by_cases hi : i = a.1
  · subst hi
    simpa using hc'
  · simpa [hi] using (hclients i).mono hext

theorem run_inv {w w' : World Message} {as : List (Nat × Action Message)} (h : Inv w)
    (hrun : run step w as = some w') (hapart : Along step Apart w as) :
    Inv w' ∧ Extends w.origin w'.origin := by
  have hkeep : ∀ s a t, Inv s ∧ Extends w.origin s.origin → Apart s a → step s a = some t →
      Inv t ∧ Extends w.origin t.origin := by
    rintro s a t ⟨hs, hext⟩ ha hstep
    obtain ⟨ht, hext'⟩ := step_inv hs ha hstep
    exact ⟨ht, hext.trans hext'⟩
  exact run_invariant hkeep hrun hapart ⟨h, Extends.refl w.origin⟩

/-- Whatever the clients do and in whatever order, rotations agree and published messages stay, as
long as no rotation task gets between a fence check of its own client and the push behind it. -/
theorem rotations_agree (history : List (List Message))
    (earlier later : List (Nat × Action Message)) (s t : World Message)
    (hs : run step (started history) earlier = some s)
    (hearlier : Along step Apart (started history) earlier) (ht : run step s later = some t)
    (hlater : Along step Apart s later) : Agreed s t := by
  obtain ⟨hinv, -⟩ := run_inv (Inv.started history) hs hearlier
  obtain ⟨hinv', hext⟩ := run_inv hinv ht hlater
  exact hinv.agreed hinv' hext

/-- Two clients fire at the same time; the loser cleans up, follows with a message of its own and
publishes it on the new epoch. -/
theorem rotations_agree_two_firing : ∃ s t : World Nat,
    run step (started [[7]]) [(0, .fire true), (1, .fire true), (0, .firePush .ok true)] = some s ∧
      run step s [(1, .firePush .failed true), (1, .commit 8), (1, .follow true true),
        (1, .openFence), (1, .push .ok)] = some t ∧
      s.origin.lookup 1 = t.origin.lookup 1 ∧ (t.origin.lookup 2).map messagesOf = some [7, 8] ∧
      Agreed s t := by
  have hearlier : Along step Apart (started [[7]])
      [(0, .fire true), (1, .fire true), (0, .firePush .ok true)] := by
    decide +kernel
  have hruns : ((run step (started [[7]])
      [(0, .fire true), (1, .fire true), (0, .firePush .ok true)]).any fun s =>
        (run step s [(1, .firePush .failed true), (1, .commit 8), (1, .follow true true),
          (1, .openFence), (1, .push .ok)]).any fun t =>
            Along step Apart s [(1, .firePush .failed true), (1, .commit 8), (1, .follow true true),
              (1, .openFence), (1, .push .ok)] ∧ s.origin.lookup 1 = t.origin.lookup 1 ∧
                (t.origin.lookup 2).map messagesOf = some [7, 8]) = true := by
    decide +kernel
  obtain ⟨s, hs, hrest⟩ := (Option.any_eq_true _ _).mp hruns
  obtain ⟨t, ht, hsame⟩ := (Option.any_eq_true _ _).mp hrest
  obtain ⟨hlater, hsealed, hmessages⟩ := of_decide_eq_true hsame
  exact ⟨s, t, hs, ht, hsealed, hmessages, rotations_agree [[7]] _ _ s t hs hearlier ht hlater⟩

/-- The first push of client 0 starts its rotation task, which waits for the commit lock. Its second
push reaches the remote unseen and client 1 pushes on top, so that the rebase leaves client 0 with
nothing of its own. While the cycle waits to repeat a failed push, the task writes the seal; the
repeated push takes the seal alone, and the push of the fire fails. -/
theorem rotations_disagree : ∃ s : World Nat,
    run step (started [[7]]) [(0, .commit 8), (0, .openFence), (0, .push .ok),
      (0, .commit 9), (0, .openFence), (0, .push .lost), (0, .endCycle),
      (1, .fetch), (1, .rebase), (1, .commit 10), (1, .openFence), (1, .push .ok),
      (0, .openFence), (0, .push .failed), (0, .fetch), (0, .openFence), (0, .rebase),
      (0, .openFence), (0, .push .failed), (0, .fire true), (0, .push .ok),
      (0, .firePush .failed true)] = some s ∧ ¬ Agreed s s := by
  have hrun : ((run step (started [[7]]) [(0, .commit 8), (0, .openFence), (0, .push .ok),
      (0, .commit 9), (0, .openFence), (0, .push .lost), (0, .endCycle),
      (1, .fetch), (1, .rebase), (1, .commit 10), (1, .openFence), (1, .push .ok),
      (0, .openFence), (0, .push .failed), (0, .fetch), (0, .openFence), (0, .rebase),
      (0, .openFence), (0, .push .failed), (0, .fire true), (0, .push .ok),
      (0, .firePush .failed true)]).any fun s =>
        s.origin.map (fun p => (p.1, redirectOf p.2)) = [(1, some 2)]) = true := by
    decide +kernel
  obtain ⟨s, hs, hdangling⟩ := (Option.any_eq_true _ _).mp hrun
  refine ⟨s, hs, fun hagreed => ?_⟩
  -- the one branch of the remote is redirected, so there is no active one
  obtain ⟨active, tip, htip, hbranches, -⟩ := hagreed.active
  have hopen : redirectOf tip = none := (hbranches active tip htip).1.mpr rfl
  obtain ⟨before, after, horigin, -⟩ := List.lookup_eq_some_iff.mp htip
  have hmem : (active, redirectOf tip) ∈ s.origin.map fun p => (p.1, redirectOf p.2) :=
    List.mem_map.mpr ⟨(active, tip), by simp [horigin], rfl⟩
  rw [of_decide_eq_true hdangling, hopen, List.mem_singleton] at hmem
  cases hmem

end Worlds

end EpochAgreement
