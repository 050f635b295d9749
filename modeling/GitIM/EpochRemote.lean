import GitIM.EpochRotation

/-!
# The remote of epoch rotation

The epochs up to the newest are sealed, each by one redirect commit at its tip that
names the next epoch, and the newest is open; every snapshot holds the messages of the
branch it follows. A fast forward of the open branch keeps this shape, and so does the
atomic push of a rotation.
-/

namespace EpochRemote

open CommitChain FileTree EpochRotation

section Chains
variable {Message : Type}

def isSnapshot : EpochChange Message → Bool
  | .snapshot _ _ => true
  | _ => false

def NoRedirect (chain : Chain Message) : Prop := ∀ c ∈ chain, isRedirect c.change = false

def NoSnapshot (chain : Chain Message) : Prop := ∀ c ∈ chain, isSnapshot c.change = false

theorem NoSnapshot.tail_left {a b : Chain Message} (h : NoSnapshot (a ++ b).tail) :
    NoSnapshot a.tail := by
  cases a with
  | nil => exact fun c hc => absurd hc List.not_mem_nil
  | cons x rest => exact fun c hc => h c (List.mem_append_left _ hc)

theorem NoSnapshot.tail_append {a b : Chain Message} (ha : NoSnapshot a.tail)
    (hb : NoSnapshot b) : NoSnapshot (a ++ b).tail := by
  cases a with
  | nil => exact fun c hc => hb c (List.mem_of_mem_tail hc)
  | cons x rest => exact fun c hc => (List.mem_append.mp hc).elim (ha c) (hb c)

/-- The first epoch has no snapshot, and every other starts with its own. -/
structure RootedAt (epoch : Nat) (chain : Chain Message) : Prop where
  tail : NoSnapshot chain.tail
  first : epoch = 1 → NoSnapshot chain
  root : epoch ≠ 1 → ∃ id ms rest, chain = ⟨id, .snapshot epoch ms⟩ :: rest

theorem NoRedirect.of_isPrefix {a b : Chain Message} (h : NoRedirect b) (hab : a <+: b) : NoRedirect a :=
  fun c hc => h c (hab.subset hc)

theorem epochFile_concat (chain : Chain Message) (c : Commit (EpochChange Message)) :
    epochFile (chain ++ [c]) = c.change.epochFile?.or (epochFile chain) := by
  rw [epochFile, epochFile, List.reverse_append]
  cases h : c.change.epochFile? with
  | none => simp [h]
  | some file => simp [h]

theorem redirectOf_concat_redirect (chain : Chain Message) {c : Commit (EpochChange Message)}
    {target : Nat} (h : c.change = .redirect target) : redirectOf (chain ++ [c]) = some target := by
  rw [redirectOf, epochFile_concat, h]
  rfl

/-- With no snapshot behind its root, a chain is redirected exactly if it has a seal. -/
theorem redirectOf_eq_none_iff {chain : Chain Message} (h : NoSnapshot chain.tail) :
    redirectOf chain = none ↔ NoRedirect chain := by
  induction chain using List.reverseRecOn with
  | nil => simp [redirectOf, epochFile, NoRedirect]
  | append_singleton chain c ih =>
    have htail : NoSnapshot chain.tail := h.tail_left
    have hsplit : NoRedirect (chain ++ [c]) ↔ NoRedirect chain ∧ isRedirect c.change = false := by
      simp only [NoRedirect, List.forall_mem_append, List.forall_mem_singleton]
    rw [hsplit]
    cases hc : c.change with
    | messages ms =>
      have hsame : redirectOf (chain ++ [c]) = redirectOf chain := by
        rw [redirectOf, epochFile_concat, hc]
        rfl
      rw [hsame, ih htail]
      simp [isRedirect]
    | snapshot epoch ms =>
      have hnil : chain = [] := by
        cases chain with
        | nil => rfl
        | cons y rest =>
          have hno := h c (List.mem_append_right _ List.mem_cons_self)
          simp [hc, isSnapshot] at hno
      subst hnil
      have hnone : redirectOf ([] ++ [c]) = none := by
        rw [redirectOf, epochFile_concat, hc]
        rfl
      rw [hnone]
      simp [NoRedirect, isRedirect]
    | redirect target =>
      rw [redirectOf_concat_redirect chain hc]
      simp [isRedirect]

theorem epochFile_messages {chain : Chain Message} (hopen : NoRedirect chain)
    (hsnap : NoSnapshot chain) : epochFile chain = none := by
  rw [epochFile, List.findSome?_eq_none_iff]
  intro c hc
  rw [List.mem_reverse] at hc
  have h₁ := hopen c hc
  have h₂ := hsnap c hc
  cases hchange : c.change with
  | messages ms => rfl
  | snapshot epoch ms => simp [hchange, isSnapshot] at h₂
  | redirect target => simp [hchange, isRedirect] at h₁

/-- An open chain shows the number of its branch. -/
theorem RootedAt.currentEpoch_eq {epoch : Nat} {chain : Chain Message} (h : RootedAt epoch chain)
    (hopen : NoRedirect chain) : currentEpoch chain = epoch := by
  by_cases hone : epoch = 1
  · rw [currentEpoch, epochFile_messages hopen (h.first hone), hone]
  · obtain ⟨id, ms, rest, rfl⟩ := h.root hone
    have hrest : epochFile rest = none :=
      epochFile_messages (fun c hc => hopen c (List.mem_cons_of_mem _ hc)) h.tail
    have hfile : epochFile (⟨id, .snapshot epoch ms⟩ :: rest) = some (.active epoch) := by
      rw [epochFile] at hrest ⊢
      rw [List.reverse_cons, List.findSome?_append, hrest]
      rfl
    rw [currentEpoch, hfile]

/-- A chain on top of a rooted chain is rooted if it brings no snapshot of its own. -/
theorem RootedAt.extend {epoch : Nat} {old chain : Chain Message} (h : RootedAt epoch old)
    (hpre : old <+: chain) (htail : NoSnapshot chain.tail)
    (hown : ∀ c ∈ chain, isSnapshot c.change = true → c ∈ old) : RootedAt epoch chain where
  tail := htail
  first := by
    intro hone c hc
    by_contra hsnap
    rw [Bool.not_eq_false] at hsnap
    have hno := h.first hone c (hown c hc hsnap)
    rw [hsnap] at hno
    cases hno
  root := by
    intro hone
    obtain ⟨id, ms, rest, rfl⟩ := h.root hone
    obtain ⟨more, rfl⟩ := hpre
    exact ⟨id, ms, rest ++ more, rfl⟩

theorem RootedAt.of_isPrefix {epoch : Nat} {a b : Chain Message} (h : RootedAt epoch b)
    (hab : a <+: b) (hne : epoch ≠ 1 → a ≠ []) : RootedAt epoch a where
  tail := by
    obtain ⟨more, rfl⟩ := hab
    exact h.tail.tail_left
  first := fun hone c hc => h.first hone c (hab.subset hc)
  root := by
    intro hone
    obtain ⟨id, ms, rest, rfl⟩ := h.root hone
    cases a with
    | nil => exact absurd rfl (hne hone)
    | cons c more =>
      rw [List.cons_prefix_cons] at hab
      exact ⟨id, ms, more, by rw [hab.1]⟩

theorem messagesOf_mono {a b : Chain Message} (h : ∀ c ∈ a, c ∈ b) {m : Message}
    (hm : m ∈ messagesOf a) : m ∈ messagesOf b := by
  obtain ⟨c, hc, hmc⟩ := List.mem_flatMap.mp hm
  exact List.mem_flatMap.mpr ⟨c, h c hc, hmc⟩

theorem noSnapshot_commitAll {next : Nat} {ds : List (EpochChange Message)}
    (h : ∀ d ∈ ds, isSnapshot d = false) : NoSnapshot (commitAll next ds) := by
  intro x hx
  have hmem := change_mem_of_mem hx
  rw [changes_commitAll] at hmem
  exact h _ hmem

theorem messages_plain (next : Nat) (ms : List Message) :
    NoSnapshot (commitAll next [EpochChange.messages ms]) ∧
      NoRedirect (commitAll next [EpochChange.messages ms]) := by
  constructor
  · intro x hx
    cases List.mem_singleton.mp hx
    rfl
  · intro x hx
    cases List.mem_singleton.mp hx
    rfl

end Chains

section Remote
variable {Message : Type} {origin : Refs Message} {n : Nat}

/-- The shape of the remote with newest epoch `n`. -/
structure OriginInv (origin : Refs Message) (n : Nat) : Prop where
  exist : ∀ b, (∃ chain, origin.lookup b = some chain) ↔ 1 ≤ b ∧ b ≤ n
  sealed : ∀ b chain, origin.lookup b = some chain → b < n →
    ∃ pre c, chain = pre ++ [c] ∧ c.change = .redirect (b + 1) ∧ NoRedirect pre
  newest : ∀ chain, origin.lookup n = some chain → NoRedirect chain
  rooted : ∀ b chain, origin.lookup b = some chain → RootedAt b chain
  carried : ∀ b older newer, origin.lookup b = some older → origin.lookup (b + 1) = some newer →
    ∀ m ∈ messagesOf older, m ∈ messagesOf newer

/-- A sealed chain is the only thing that has its redirect. -/
theorem OriginInv.open_iff (h : OriginInv origin n) {b : Nat} {chain : Chain Message}
    (hb : origin.lookup b = some chain) : NoRedirect chain ↔ b = n := by
  obtain ⟨hlow, hhigh⟩ := (h.exist b).mp ⟨chain, hb⟩
  constructor
  · intro hopen
    by_contra hne
    obtain ⟨pre, c, rfl, hc, -⟩ := h.sealed b chain hb (by omega)
    have hno := hopen c (List.mem_append_right _ List.mem_cons_self)
    simp [hc, isRedirect] at hno
  · rintro rfl
    exact h.newest chain hb

/-- Every branch only grows, and a sealed branch stays as it is. -/
def Extends (origin origin' : Refs Message) : Prop :=
  ∀ b chain, origin.lookup b = some chain →
    (¬ NoRedirect chain → origin'.lookup b = some chain) ∧
    ∃ chain', origin'.lookup b = some chain' ∧ chain <+: chain'

theorem Extends.refl (origin : Refs Message) : Extends origin origin :=
  fun _ chain h => ⟨fun _ => h, chain, h, List.prefix_refl chain⟩

theorem Extends.trans {a b c : Refs Message} (hab : Extends a b) (hbc : Extends b c) :
    Extends a c := by
  intro branch chain h
  obtain ⟨hsealed, chain', h', hpre⟩ := hab branch chain h
  obtain ⟨hsealed', chain'', h'', hpre'⟩ := hbc branch chain' h'
  refine ⟨fun hno => ?_, chain'', h'', hpre.trans hpre'⟩
  exact (hbc branch chain (hsealed hno)).1 hno

@[simp] theorem lookup_setRef (branch b : Nat) (chain : Chain Message) (refs : Refs Message) :
    (setRef branch chain refs).lookup b = if b = branch then some chain else refs.lookup b :=
  lookup_upsert _ _ _ _

theorem setRef_same {refs : Refs Message} {b : Nat} {chain : Chain Message}
    (h : refs.lookup b = some chain) : setRef b chain refs = refs := by
  induction refs with
  | nil => cases h
  | cons head rest ih =>
    obtain ⟨q, v⟩ := head
    rw [lookup_cons_ite] at h
    rw [setRef, upsert]
    by_cases hq : b = q
    · rw [if_pos hq] at h
      cases h
      rw [if_pos hq.symm]
    · rw [if_neg hq] at h
      rw [if_neg (fun hqb => hq hqb.symm)]
      exact congrArg ((q, v) :: ·) (ih h)

/-- A fast forward of the open branch. -/
theorem OriginInv.push (h : OriginInv origin n) {old chain : Chain Message}
    (hold : origin.lookup n = some old) (hpre : old <+: chain) (hopen : NoRedirect chain)
    (hrooted : RootedAt n chain) :
    OriginInv (setRef n chain origin) n ∧ Extends origin (setRef n chain origin) := by
  constructor
  · refine ⟨?_, ?_, ?_, ?_, ?_⟩
    · intro b
      rw [← h.exist b, lookup_setRef]
      split
      · rename_i hb
        subst hb
        exact ⟨fun _ => ⟨old, hold⟩, fun _ => ⟨chain, rfl⟩⟩
      · rfl
    · intro b other hb hlt
      rw [lookup_setRef, if_neg (by omega)] at hb
      exact h.sealed b other hb hlt
    · intro other hb
      rw [lookup_setRef, if_pos rfl] at hb
      cases hb
      exact hopen
    · intro b other hb
      rw [lookup_setRef] at hb
      split at hb
      · rename_i hbn
        cases hb
        exact hbn ▸ hrooted
      · exact h.rooted b other hb
    · intro b older newer holder hnewer m hm
      rw [lookup_setRef] at holder hnewer
      split at hnewer
      · rename_i hbn
        rw [if_neg (by omega)] at holder
        cases hnewer
        exact messagesOf_mono hpre.subset (h.carried b older old holder (hbn ▸ hold) m hm)
      · split at holder
        · rename_i hbn hb
          have hbound := (h.exist (b + 1)).mp ⟨newer, hnewer⟩
          omega
        · exact h.carried b older newer holder hnewer m hm
  · intro b other hb
    rw [lookup_setRef]
    split
    · rename_i hbn
      subst hbn
      cases hold.symm.trans hb
      exact ⟨fun hno => absurd (h.newest _ hb) hno, chain, rfl, hpre⟩
    · exact ⟨fun _ => hb, other, hb, List.prefix_refl other⟩

/-- The atomic push of a fire: the open branch is sealed and the next epoch appears. -/
theorem OriginInv.rotate (h : OriginInv origin n) {old pre orphan : Chain Message}
    {c y : Commit (EpochChange Message)} (hold : origin.lookup n = some old) (hpre : old <+: pre)
    (hopen : NoRedirect pre) (hrooted : RootedAt n pre) (hc : c.change = .redirect (n + 1))
    (horphan : orphan = [y]) (hy : y.change = .snapshot (n + 1) (messagesOf pre)) :
    OriginInv (setRef (n + 1) orphan (setRef n (pre ++ [c]) origin)) (n + 1) ∧
      Extends origin (setRef (n + 1) orphan (setRef n (pre ++ [c]) origin)) := by
  have hlow := ((h.exist n).mp ⟨old, hold⟩).1
  subst horphan
  constructor
  · refine ⟨?_, ?_, ?_, ?_, ?_⟩
    · intro b
      rw [lookup_setRef, lookup_setRef]
      split
      · simp; omega
      · split
        · simp; omega
        · rw [h.exist b]
          omega
    · intro b chain hb hlt
      rw [lookup_setRef, if_neg (by omega), lookup_setRef] at hb
      split at hb
      · rename_i hbn
        cases hb
        exact ⟨pre, c, rfl, hbn ▸ hc, hopen⟩
      · exact h.sealed b chain hb (by omega)
    · intro chain hb
      rw [lookup_setRef, if_pos rfl] at hb
      cases hb
      intro x hx
      rw [List.mem_singleton] at hx
      subst hx
      simp [hy, isRedirect]
    · intro b chain hb
      rw [lookup_setRef, lookup_setRef] at hb
      split at hb
      · rename_i hbn
        cases hb
        subst hbn
        refine ⟨fun x hx => (by cases hx), fun hone => (by omega), fun _ => ?_⟩
        exact ⟨y.id, messagesOf pre, [], by rw [← hy]⟩
      · split at hb
        · rename_i hbn
          cases hb
          subst hbn
          refine hrooted.extend (List.prefix_append _ _) (hrooted.tail.tail_append ?_) ?_
          · intro x hx
            rw [List.mem_singleton] at hx
            subst hx
            simp [hc, isSnapshot]
          · intro x hx hsnap
            rcases List.mem_append.mp hx with hx | hx
            · exact hx
            · rw [List.mem_singleton] at hx
              subst hx
              simp [hc, isSnapshot] at hsnap
        · exact h.rooted b chain hb
    · intro b older newer holder hnewer m hm
      rw [lookup_setRef, lookup_setRef] at holder hnewer
      split at hnewer
      · rename_i hbn
        have hb : b = n := by omega
        subst hb
        rw [if_neg (by omega), if_pos rfl] at holder
        cases holder
        cases hnewer
        have hcarried : messagesOf (pre ++ [c]) = messagesOf pre := by
          simp [messagesOf, hc, EpochChange.carried]
        rw [hcarried] at hm
        simpa [messagesOf, hy, EpochChange.carried] using hm
      · split at hnewer
        · rename_i hne hbn
          rw [if_neg (by omega), if_neg (by omega)] at holder
          cases hnewer
          have hmem := h.carried b older old holder (hbn ▸ hold) m hm
          exact messagesOf_mono (fun x hx => List.mem_append_left _ (hpre.subset hx)) hmem
        · have hbound := (h.exist (b + 1)).mp ⟨newer, hnewer⟩
          rw [if_neg (by omega), if_neg (by omega)] at holder
          exact h.carried b older newer holder hnewer m hm
  · intro b chain hb
    rw [lookup_setRef, lookup_setRef]
    have hbound := (h.exist b).mp ⟨chain, hb⟩
    rw [if_neg (by omega)]
    split
    · rename_i hbn
      subst hbn
      cases hold.symm.trans hb
      exact ⟨fun hno => absurd (h.newest _ hb) hno, _, rfl,
        hpre.trans (List.prefix_append _ _)⟩
    · exact ⟨fun _ => hb, chain, hb, List.prefix_refl chain⟩

/-- The walk from any branch ends at the newest epoch. -/
theorem OriginInv.resolves (h : OriginInv origin n) {b : Nat} {chain : Chain Message}
    (hb : origin.lookup b = some chain) {hops : Nat} (hhops : n < b + hops) :
    resolveActiveBranch origin hops b = some n := by
  have hbound := (h.exist b).mp ⟨chain, hb⟩
  induction hops generalizing b chain with
  | zero => omega
  | succ hops ih =>
    rw [resolveActiveBranch, hb, Option.bind_some]
    by_cases hn : b = n
    · have hopen := (redirectOf_eq_none_iff (h.rooted b chain hb).tail).mpr ((h.open_iff hb).mpr hn)
      rw [hopen, hn]
    · obtain ⟨pre, c, rfl, hc, -⟩ := h.sealed b chain hb (by omega)
      rw [redirectOf_concat_redirect pre hc]
      obtain ⟨next, hnext⟩ := (h.exist (b + 1)).mpr (by omega)
      exact ih hnext (by omega) (by omega)

/-- The newest epoch has the messages of all others. -/
theorem OriginInv.carried_newest (h : OriginInv origin n) {tip : Chain Message}
    (htip : origin.lookup n = some tip) (gap : Nat) {b : Nat} {chain : Chain Message}
    (hb : origin.lookup b = some chain) (hgap : b + gap = n) {m : Message}
    (hm : m ∈ messagesOf chain) : m ∈ messagesOf tip := by
  induction gap generalizing b chain with
  | zero =>
    cases hgap
    cases htip.symm.trans hb
    exact hm
  | succ gap ih =>
    have hlow := ((h.exist b).mp ⟨chain, hb⟩).1
    obtain ⟨next, hnext⟩ := (h.exist (b + 1)).mpr (by omega)
    exact ih hnext (by omega) (h.carried b chain next hb hnext m hm)

/-- Every tracking branch is an older state of the remote branch. -/
def Tracks (tracking origin : Refs Message) : Prop :=
  ∀ b t, tracking.lookup b = some t →
    (b ≠ 1 → t ≠ []) ∧ ∃ chain, origin.lookup b = some chain ∧ t <+: chain

theorem Tracks.mono {tracking origin origin' : Refs Message} (h : Tracks tracking origin)
    (hext : Extends origin origin') : Tracks tracking origin' := by
  intro b t hb
  obtain ⟨hne, chain, hchain, hpre⟩ := h b t hb
  obtain ⟨-, chain', hchain', hpre'⟩ := hext b chain hchain
  exact ⟨hne, chain', hchain', hpre.trans hpre'⟩

theorem OriginInv.ne_nil (ho : OriginInv origin n) {b : Nat} {chain : Chain Message}
    (hb : origin.lookup b = some chain) (hone : b ≠ 1) : chain ≠ [] := by
  rintro rfl
  obtain ⟨_, _, _, heq⟩ := (ho.rooted b [] hb).root hone
  cases heq

/-- A fetch of all branches. -/
theorem OriginInv.tracks (ho : OriginInv origin n) : Tracks origin origin :=
  fun _ t hb => ⟨ho.ne_nil hb, t, hb, List.prefix_refl t⟩

/-- A push updates the tracking branch to what the remote has taken. -/
theorem Tracks.pushed {tracking origin : Refs Message} {n : Nat} (h : Tracks tracking origin)
    (ho : OriginInv origin n) {b : Nat} {chain : Chain Message}
    (hb : origin.lookup b = some chain) : Tracks (setRef b chain tracking) origin := by
  intro branch t ht
  rw [lookup_setRef] at ht
  split at ht
  · rename_i hbranch
    cases ht
    subst hbranch
    exact ⟨ho.ne_nil hb, chain, hb, List.prefix_refl chain⟩
  · exact h branch t ht

end Remote

end EpochRemote
