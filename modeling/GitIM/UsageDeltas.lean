import GitIM.TextLines
import Mathlib.Algebra.Order.BigOperators.Group.Finset
import Mathlib.Data.Finset.Dedup

/-!
# Usage deltas of cumulative providers

A provider that counts the tokens of a whole session reports a cumulative usage after
each turn; the runtime subtracts what it saw last. A report may leave a counter out. The
agent loop and the quick-session executor each have a copy of the subtraction.
-/

namespace UsageDeltas

open TextLines

section Counters

/-- What each report adds when an absent counter is taken for zero. -/
def added : Nat → List (Option Nat) → Nat
  | _, [] => 0
  | base, v :: rest => (v.getD 0 - base) + added (v.getD 0) rest

def lastPresent (base : Nat) (values : List (Option Nat)) : Nat :=
  (values.filterMap id).getLast?.getD base

/-- A counter that is absent after a positive value stays absent. -/
def StaysAbsent : Nat → List (Option Nat) → Prop
  | _, [] => True
  | _, some n :: rest => StaysAbsent n rest
  | base, none :: rest => (base = 0 ∨ ∀ v ∈ rest, v = none) ∧ StaysAbsent 0 rest

instance decidableStaysAbsent : ∀ base values, Decidable (StaysAbsent base values)
  | _, [] => isTrue trivial
  | _, some n :: rest => decidableStaysAbsent n rest
  | base, none :: rest =>
    have := decidableStaysAbsent 0 rest
    inferInstanceAs (Decidable ((base = 0 ∨ ∀ v ∈ rest, v = none) ∧ StaysAbsent 0 rest))

/-- The present values do not decrease. -/
def Rising (base : Nat) (values : List (Option Nat)) : Prop :=
  (base :: values.filterMap id).Pairwise (· ≤ ·)

instance decidableRising (base : Nat) (values : List (Option Nat)) :
    Decidable (Rising base values) :=
  inferInstanceAs (Decidable (List.Pairwise _ _))

variable {base n : Nat} {rest : List (Option Nat)}

theorem present_some : (some n :: rest).filterMap id = n :: rest.filterMap id := rfl

theorem present_none : (none :: rest).filterMap id = rest.filterMap id := rfl

theorem lastPresent_some : lastPresent base (some n :: rest) = lastPresent n rest := by
  rw [lastPresent, lastPresent, present_some, List.getLast?_cons]
  rfl

theorem lastPresent_none : lastPresent base (none :: rest) = lastPresent base rest := by
  rw [lastPresent, lastPresent, present_none]

theorem filterMap_eq_nil (h : ∀ v ∈ rest, v = none) : rest.filterMap id = [] :=
  List.filterMap_eq_nil_iff.mpr h

theorem lastPresent_of_absent (h : ∀ v ∈ rest, v = none) : lastPresent base rest = base := by
  rw [lastPresent, filterMap_eq_nil h]
  rfl

/-- With a present value the base does not matter. -/
theorem lastPresent_base (h : ¬∀ v ∈ rest, v = none) (base' : Nat) :
    lastPresent base rest = lastPresent base' rest := by
  rw [lastPresent, lastPresent]
  cases hlast : (rest.filterMap id).getLast? with
  | some m => rfl
  | none => exact absurd (List.filterMap_eq_nil_iff.mp (List.getLast?_eq_none_iff.mp hlast)) h

theorem added_of_absent (h : ∀ v ∈ rest, v = none) : added base rest = 0 := by
  induction rest generalizing base with
  | nil => rfl
  | cons v rest ih =>
    rw [h v List.mem_cons_self, added, ih fun u hu => h u (List.mem_cons_of_mem v hu)]
    exact Nat.zero_sub base

theorem Rising.some (h : Rising base (some n :: rest)) : base ≤ n ∧ Rising n rest := by
  rw [Rising, present_some, List.pairwise_cons] at h
  exact ⟨h.1 n List.mem_cons_self, h.2⟩

theorem Rising.none (h : Rising base (none :: rest)) : Rising 0 rest := by
  rw [Rising, present_none, List.pairwise_cons] at h
  exact List.pairwise_cons.mpr ⟨fun _ _ => Nat.zero_le _, h.2⟩

/-- Nothing is lost. -/
theorem lastPresent_le (h : Rising base rest) : lastPresent base rest ≤ added base rest + base := by
  induction rest generalizing base with
  | nil => exact Nat.le_add_left _ _
  | cons v rest ih =>
    cases v with
    | some m =>
      obtain ⟨hle, hrest⟩ := h.some
      have hlast := ih hrest
      rw [lastPresent_some, added, Option.getD_some]
      omega
    | none =>
      have hlast := ih h.none
      rw [lastPresent_none, added, Option.getD_none, Nat.zero_sub, Nat.zero_add]
      by_cases habsent : ∀ v ∈ rest, v = none
      · rw [lastPresent_of_absent habsent]
        exact Nat.le_add_left _ _
      · rw [lastPresent_base habsent 0]
        omega

/-- Nothing is counted twice exactly if no positive counter is absent for a while. -/
theorem added_eq_iff (h : Rising base rest) :
    added base rest + base = lastPresent base rest ↔ StaysAbsent base rest := by
  induction rest generalizing base with
  | nil => exact iff_of_true (Nat.zero_add base) trivial
  | cons v rest ih =>
    cases v with
    | some m =>
      obtain ⟨hle, hrest⟩ := h.some
      have hsum : added base (some m :: rest) + base = added m rest + m := by
        rw [added, Option.getD_some]
        omega
      rw [hsum, lastPresent_some]
      exact ih hrest
    | none =>
      have hsum : added base (none :: rest) + base = added 0 rest + base := by
        rw [added, Option.getD_none, Nat.zero_sub, Nat.zero_add]
      have hiff := ih h.none
      have hle := lastPresent_le h.none
      rw [hsum, lastPresent_none, StaysAbsent]
      by_cases habsent : ∀ v ∈ rest, v = none
      · rw [lastPresent_of_absent habsent] at hiff ⊢
        rw [added_of_absent habsent] at hiff ⊢
        exact ⟨fun _ => ⟨.inr habsent, hiff.mp rfl⟩, fun _ => Nat.zero_add base⟩
      · rw [lastPresent_base habsent 0]
        constructor
        · intro heq
          have hzero : base = 0 := by omega
          exact ⟨.inl hzero, hiff.mp (by omega)⟩
        · rintro ⟨hzero | hnone, hstays⟩
          · rw [hzero]
            exact hiff.mpr hstays
          · exact absurd hnone habsent

end Counters

section Model

/-- The reported percentage is a double, given by its bits. -/
structure ProviderUsage where
  inputTokens : Option Nat
  outputTokens : Option Nat
  usedPercent : Option (BitVec 64)
  cacheReadTokens : Option Nat
  cacheCreationTokens : Option Nat
  contextTokens : Option Nat
  contextWindowTokens : Option Nat
  deriving DecidableEq

def ProviderUsage.default : ProviderUsage := ⟨none, none, none, none, none, none, none⟩

structure LastSessionUsage where
  sessionId : Text
  usage : ProviderUsage
  deriving DecidableEq

structure Provider where
  reportsUsage : Bool
  usageIsCumulative : Bool

/-- The part of the agent's state that is read and written. -/
structure AgentState where
  lastSessionUsage : Option LastSessionUsage
  deriving DecidableEq

def normalizeToDelta (provider : Provider) (state : AgentState) (sessionId : Text)
    (providerReported : Option ProviderUsage) : AgentState × Option ProviderUsage :=
  if provider.reportsUsage = false then (state, none)
  else match providerReported with
    | none => (state, none)
    | some current =>
      if provider.usageIsCumulative = false then (state, some current)
      else
        let baseline := match state.lastSessionUsage with
          | some prev => if prev.sessionId = sessionId then prev.usage else .default
          | none => .default
        let delta : ProviderUsage :=
          { inputTokens := some (current.inputTokens.getD 0 - baseline.inputTokens.getD 0)
            outputTokens := some (current.outputTokens.getD 0 - baseline.outputTokens.getD 0)
            cacheReadTokens :=
              some (current.cacheReadTokens.getD 0 - baseline.cacheReadTokens.getD 0)
            cacheCreationTokens :=
              some (current.cacheCreationTokens.getD 0 - baseline.cacheCreationTokens.getD 0)
            usedPercent := current.usedPercent
            contextTokens := current.contextTokens
            contextWindowTokens := current.contextWindowTokens }
        ({ state with lastSessionUsage := some ⟨sessionId, current⟩ }, some delta)

/-- The part of the quick-session state that is read and written. -/
structure QuickSessionRuntimeState where
  lastSessionUsage : Option LastSessionUsage
  deriving DecidableEq

def normalizeUsage (provider : Provider) (state : QuickSessionRuntimeState) (sessionId : Text)
    (reported : Option ProviderUsage) : QuickSessionRuntimeState × Option ProviderUsage :=
  if provider.reportsUsage = false then (state, none)
  else match reported with
    | none => (state, none)
    | some current =>
      if provider.usageIsCumulative = false then (state, some current)
      else
        let baseline := match state.lastSessionUsage with
          | some previous => if previous.sessionId = sessionId then previous.usage else .default
          | none => .default
        let delta : ProviderUsage :=
          { inputTokens := some (current.inputTokens.getD 0 - baseline.inputTokens.getD 0)
            outputTokens := some (current.outputTokens.getD 0 - baseline.outputTokens.getD 0)
            cacheReadTokens :=
              some (current.cacheReadTokens.getD 0 - baseline.cacheReadTokens.getD 0)
            cacheCreationTokens :=
              some (current.cacheCreationTokens.getD 0 - baseline.cacheCreationTokens.getD 0)
            usedPercent := current.usedPercent
            contextTokens := current.contextTokens
            contextWindowTokens := current.contextWindowTokens }
        ({ state with lastSessionUsage := some ⟨sessionId, current⟩ }, some delta)

/-- A turn: its session and what the provider reports, if anything. -/
structure Turn where
  sessionId : Text
  usage : Option ProviderUsage

/-- The deltas of the turns of a run. -/
def deltas {S : Type} (normalize : S → Text → Option ProviderUsage → S × Option ProviderUsage) :
    S → List Turn → List (Option ProviderUsage)
  | _, [] => []
  | s, t :: rest =>
    let r := normalize s t.sessionId t.usage
    r.2 :: deltas normalize r.1 rest

end Model

section Property

inductive Counter where
  | input
  | output
  | cacheRead
  | cacheCreation
  deriving DecidableEq

def ProviderUsage.counter (u : ProviderUsage) : Counter → Option Nat
  | .input => u.inputTokens
  | .output => u.outputTokens
  | .cacheRead => u.cacheReadTokens
  | .cacheCreation => u.cacheCreationTokens

def reports (turns : List Turn) : List (Text × ProviderUsage) :=
  turns.filterMap fun t => t.usage.map fun u => (t.sessionId, u)

def sessions (reports : List (Text × ProviderUsage)) : Finset Text :=
  (reports.map Prod.fst).toFinset

/-- The values of a counter in the reports of a session. -/
def values (reports : List (Text × ProviderUsage)) (session : Text) (c : Counter) :
    List (Option Nat) :=
  (reports.filter fun r => r.1 = session).map fun r => r.2.counter c

/-- A session that comes again comes at once. -/
def Consecutive : List (Text × ProviderUsage) → Prop
  | [] => True
  | r :: rest => (r.1 ∈ rest.map Prod.fst → rest.head?.map Prod.fst = some r.1) ∧ Consecutive rest

/-- The sum of the deltas of a counter. -/
def total (c : Counter) (ds : List (Option ProviderUsage)) : Nat :=
  (ds.map fun d => ((d.bind fun u => u.counter c).getD 0)).sum

def cumulative : Provider := ⟨true, true⟩

/-- Per counter the deltas add up to the last values of the sessions, and both copies agree. -/
def Telescopes (turns : List Turn) : Prop :=
  (∀ c, total c (deltas (normalizeToDelta cumulative) ⟨none⟩ turns) =
    ∑ session ∈ sessions (reports turns), lastPresent 0 (values (reports turns) session c)) ∧
  deltas (normalizeUsage cumulative) ⟨none⟩ turns = deltas (normalizeToDelta cumulative) ⟨none⟩ turns

/-- The condition: in no session is a counter left out between a positive value and a later one. -/
def NoneLeftOut (turns : List Turn) : Prop :=
  ∀ c, ∀ session ∈ sessions (reports turns), StaysAbsent 0 (values (reports turns) session c)

end Property

section Runs

/-- The baseline of a session. -/
def baselineOf (last : Option LastSessionUsage) (session : Text) (c : Counter) : Nat :=
  match last with
  | some previous => if previous.sessionId = session then (previous.usage.counter c).getD 0 else 0
  | none => 0

/-- What the reports add, one after the other. -/
def addedBy (c : Counter) : Option LastSessionUsage → List (Text × ProviderUsage) → Nat
  | _, [] => 0
  | last, r :: rest => ((r.2.counter c).getD 0 - baselineOf last r.1 c) + addedBy c (some ⟨r.1, r.2⟩) rest

theorem normalizeToDelta_some (last : Option LastSessionUsage) (session : Text) (u : ProviderUsage)
    (c : Counter) :
    (normalizeToDelta cumulative ⟨last⟩ session (some u)).1 = ⟨some ⟨session, u⟩⟩ ∧
      ((normalizeToDelta cumulative ⟨last⟩ session (some u)).2.bind fun d => d.counter c) =
        some ((u.counter c).getD 0 - baselineOf last session c) := by
  refine ⟨rfl, ?_⟩
  cases last with
  | none => cases c <;> rfl
  | some previous =>
    by_cases hsame : previous.sessionId = session
    · cases c <;> simp [normalizeToDelta, cumulative, baselineOf, hsame, ProviderUsage.counter]
    · cases c <;> simp [normalizeToDelta, cumulative, baselineOf, hsame, ProviderUsage.counter,
        ProviderUsage.default]

theorem total_deltas (c : Counter) (last : Option LastSessionUsage) (turns : List Turn) :
    total c (deltas (normalizeToDelta cumulative) ⟨last⟩ turns) = addedBy c last (reports turns) := by
  induction turns generalizing last with
  | nil => rfl
  | cons t rest ih =>
    obtain ⟨session, usage⟩ := t
    cases usage with
    | none =>
      have hreports : reports (⟨session, none⟩ :: rest) = reports rest := rfl
      rw [hreports, ← ih last]
      exact Nat.zero_add _
    | some u =>
      have hreports : reports (⟨session, some u⟩ :: rest) = (session, u) :: reports rest := rfl
      obtain ⟨hstate, hdelta⟩ := normalizeToDelta_some last session u c
      rw [hreports, addedBy, ← ih, deltas, total, List.map_cons, List.sum_cons]
      dsimp only
      rw [hdelta, hstate]
      rfl

theorem values_cons_self (session : Text) (u : ProviderUsage) (rest : List (Text × ProviderUsage))
    (c : Counter) :
    values ((session, u) :: rest) session c = u.counter c :: values rest session c := by
  rw [values, List.filter_cons_of_pos (by simp), List.map_cons]
  rfl

theorem values_cons_of_ne {session other : Text} (h : other ≠ session) (u : ProviderUsage)
    (rest : List (Text × ProviderUsage)) (c : Counter) :
    values ((other, u) :: rest) session c = values rest session c := by
  rw [values, List.filter_cons_of_neg (by simpa using h)]
  rfl

theorem values_of_not_mem {session : Text} {rs : List (Text × ProviderUsage)}
    (h : session ∉ rs.map Prod.fst) (c : Counter) : values rs session c = [] := by
  rw [values, List.map_eq_nil_iff, List.filter_eq_nil_iff]
  intro r hr hsession
  exact h (List.mem_map.mpr ⟨r, hr, of_decide_eq_true hsession⟩)

theorem sessions_cons (session : Text) (u : ProviderUsage) (rest : List (Text × ProviderUsage)) :
    sessions ((session, u) :: rest) = insert session ((sessions rest).erase session) := by
  ext s
  rw [sessions, sessions, List.map_cons, List.toFinset_cons, Finset.mem_insert, Finset.mem_insert,
    Finset.mem_erase]
  by_cases hs : s = session
  · exact iff_of_true (.inl hs) (.inl hs)
  · exact ⟨fun h => .inr ⟨hs, h.resolve_left hs⟩, fun h => .inr (h.resolve_left hs).2⟩

/-- After a report, the rest of its session comes first. -/
theorem addedBy_some (c : Counter) (session : Text) (u : ProviderUsage)
    (rs : List (Text × ProviderUsage)) (h : Consecutive ((session, u) :: rs)) :
    addedBy c (some ⟨session, u⟩) rs =
      added ((u.counter c).getD 0) (values rs session c) +
        ∑ s ∈ (sessions rs).erase session, added 0 (values rs s c) := by
  induction rs generalizing session u with
  | nil => rfl
  | cons r rest ih =>
    obtain ⟨session', u'⟩ := r
    rw [addedBy, ih session' u' h.2]
    -- The sessions other than that of the next report have the values they had.
    have hothers : ∑ s ∈ (sessions rest).erase session', added 0 (values rest s c) =
        ∑ s ∈ (sessions rest).erase session', added 0 (values ((session', u') :: rest) s c) := by
      refine Finset.sum_congr rfl fun s hs => ?_
      rw [values_cons_of_ne (Finset.ne_of_mem_erase hs).symm]
    by_cases hsame : session' = session
    · subst hsame
      rw [hothers, sessions_cons, Finset.erase_insert (Finset.notMem_erase _ _), values_cons_self,
        added, baselineOf, if_pos rfl, Nat.add_assoc]
    · have hgone : session ∉ ((session', u') :: rest).map Prod.fst := by
        intro hmem
        exact hsame (Option.some.inj (h.1 hmem))
      have hkeep : (sessions ((session', u') :: rest)).erase session =
          insert session' ((sessions rest).erase session') := by
        rw [Finset.erase_eq_of_notMem (by rw [sessions, List.mem_toFinset]; exact hgone),
          sessions_cons]
      rw [values_of_not_mem hgone, hkeep, Finset.sum_insert (Finset.notMem_erase _ _), hothers,
        values_cons_self, added, added, baselineOf, if_neg (fun heq => hsame heq.symm), Nat.zero_add,
        Nat.add_assoc]

theorem addedBy_none (c : Counter) (rs : List (Text × ProviderUsage)) (h : Consecutive rs) :
    addedBy c none rs = ∑ s ∈ sessions rs, added 0 (values rs s c) := by
  cases rs with
  | nil => rfl
  | cons r rest =>
    obtain ⟨session, u⟩ := r
    rw [addedBy, addedBy_some c session u rest h, sessions_cons,
      Finset.sum_insert (Finset.notMem_erase _ _), values_cons_self, added, baselineOf, Nat.add_assoc]
    refine congrArg _ (congrArg _ (Finset.sum_congr rfl fun s hs => ?_))
    rw [values_cons_of_ne (Finset.ne_of_mem_erase hs).symm]

theorem normalizeUsage_eq (provider : Provider) (last : Option LastSessionUsage) (session : Text)
    (reported : Option ProviderUsage) :
    normalizeUsage provider ⟨last⟩ session reported =
      (⟨(normalizeToDelta provider ⟨last⟩ session reported).1.lastSessionUsage⟩,
        (normalizeToDelta provider ⟨last⟩ session reported).2) := by
  unfold normalizeUsage normalizeToDelta
  split
  · rfl
  · cases reported with
    | none => rfl
    | some u =>
      dsimp only
      split <;> rfl

/-- The two copies agree on every run. -/
theorem deltas_agree (provider : Provider) (last : Option LastSessionUsage) (turns : List Turn) :
    deltas (normalizeUsage provider) ⟨last⟩ turns =
      deltas (normalizeToDelta provider) ⟨last⟩ turns := by
  induction turns generalizing last with
  | nil => rfl
  | cons t rest ih =>
    rw [deltas, deltas, normalizeUsage_eq]
    exact congrArg _ (ih _)

/-- The deltas telescope exactly if no counter is left out in the middle of a session. -/
theorem telescopes_iff_noneLeftOut (turns : List Turn) (hconsecutive : Consecutive (reports turns))
    (hrising : ∀ c, ∀ session ∈ sessions (reports turns),
      Rising 0 (values (reports turns) session c)) :
    Telescopes turns ↔ NoneLeftOut turns := by
  have hcounter : ∀ c, total c (deltas (normalizeToDelta cumulative) ⟨none⟩ turns) =
      ∑ session ∈ sessions (reports turns), lastPresent 0 (values (reports turns) session c) ↔
        ∀ session ∈ sessions (reports turns), StaysAbsent 0 (values (reports turns) session c) := by
    intro c
    have hle : ∀ session ∈ sessions (reports turns),
        lastPresent 0 (values (reports turns) session c) ≤
          added 0 (values (reports turns) session c) :=
      fun session hs => lastPresent_le (hrising c session hs)
    rw [total_deltas, addedBy_none c _ hconsecutive, eq_comm, Finset.sum_eq_sum_iff_of_le hle]
    refine forall₂_congr fun session hs => ?_
    rw [eq_comm, ← added_eq_iff (hrising c session hs), Nat.add_zero]
  constructor
  · intro h c
    exact (hcounter c).mp (h.1 c)
  · intro h
    exact ⟨fun c => (hcounter c).mpr (h c), deltas_agree cumulative none turns⟩

def inputReport (session : String) (input : Option Nat) : Turn :=
  ⟨session.toList, some ⟨input, none, none, none, none, none, none⟩⟩

def sampleTurns : List Turn :=
  [inputReport "a" (some 10), ⟨"a".toList, none⟩, inputReport "a" (some 15), inputReport "a" none,
    inputReport "b" (some 7)]

theorem telescopes_sampleTurns : NoneLeftOut sampleTurns ∧ Telescopes sampleTurns := by
  have hnone : NoneLeftOut sampleTurns := by
    intro c
    cases c <;> decide
  refine ⟨hnone, (telescopes_iff_noneLeftOut sampleTurns ?_ ?_).mpr hnone⟩
  · exact ⟨fun _ => rfl, fun _ => rfl, fun hmem => absurd hmem (by decide), fun hmem => (by cases hmem),
      trivial⟩
  · intro c
    cases c <;> decide

/-- A counter that is left out once is counted from zero again. -/
theorem not_telescopes_leftOut :
    ¬ Telescopes [inputReport "a" (some 10), inputReport "a" none, inputReport "a" (some 15)] := by
  intro h
  exact absurd (h.1 .input) (by decide)

end Runs

end UsageDeltas
