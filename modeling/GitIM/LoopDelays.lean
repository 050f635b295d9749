import GitIM.SyncBackoff

/-!
# The delays of the agent loop

A turn that fails is followed by a sleep. When the loop had to start the daemon again it lets the
daemon settle, for a time that doubles with every restart; after any other error it backs off for a
time that doubles with every error. Both are cut at a minute, the settle time only after its product
is taken.
-/

namespace LoopDelays

open SyncBackoff

def maxBackoffSecs : Nat := 60

def daemonRestartSettleSecs : Nat := 2

inductive Turn where
  | finished (worked : Bool)
  | selfDeparted
  | daemonMissing (restarted : Bool)
  | failed
  deriving DecidableEq

structure Counters where
  consecutiveErrors : Nat
  consecutiveDaemonRestarts : Nat
  deriving DecidableEq

/-- What the loop does after a turn, with the counters it goes on with. -/
inductive Next where
  | returned
  | panicked
  | poll (c : Counters)
  | settle (c : Counters) (secs : Nat)
  | backoff (c : Counters) (secs : Nat)
  deriving DecidableEq

section Loop
variable (profile : Profile)

/-- `n += 1` on the counter of errors. -/
def incrementU32 (n : Nat) : Option Nat :=
  if n < u32Max then some (n + 1)
  else
    match profile with
    | .debug => none
    | .release => some 0

def settleProduct (restarts : Nat) : Nat :=
  daemonRestartSettleSecs * saturatingPow 2 (restarts - 1)

def settleSecs (restarts : Nat) : Option Nat :=
  (mulU64 profile daemonRestartSettleSecs (saturatingPow 2 (restarts - 1))).map fun secs =>
    min secs maxBackoffSecs

def backoffSecs (errors : Nat) : Nat := min (saturatingPow 2 errors) maxBackoffSecs

def backOff (c : Counters) : Next :=
  match incrementU32 profile c.consecutiveErrors with
  | none => .panicked
  | some errors => .backoff ⟨errors, c.consecutiveDaemonRestarts⟩ (backoffSecs errors)

def after (c : Counters) : Turn → Next
  | .finished _ => .poll ⟨0, 0⟩
  | .selfDeparted => .returned
  | .daemonMissing true =>
    let restarts := saturatingSucc c.consecutiveDaemonRestarts
    match settleSecs profile restarts with
    | none => .panicked
    | some secs => .settle ⟨0, restarts⟩ secs
  | .daemonMissing false => backOff profile c
  | .failed => backOff profile c

def Next.counters : Next → Option Counters
  | .returned => none
  | .panicked => none
  | .poll c => some c
  | .settle c _ => some c
  | .backoff c _ => some c

/-- The loop over the turns it makes, until it returns. -/
def run : Counters → List Turn → List Next
  | _, [] => []
  | c, turn :: turns =>
    after profile c turn ::
      match (after profile c turn).counters with
      | none => []
      | some c' => run c' turns

end Loop

section Bounds
variable {profile : Profile}

/-- A delay within its bounds, and no shorter than the delays of smaller counts. -/
structure Bounded (delay : Nat → Option Nat) (n secs : Nat) : Prop where
  atLeast : 2 ≤ secs
  atMost : secs ≤ maxBackoffSecs
  monotone : ∀ m, 0 < m → m ≤ n → ∃ less, delay m = some less ∧ less ≤ secs

def Next.Sound (profile : Profile) : Next → Prop
  | .returned => True
  | .panicked => False
  | .poll _ => True
  | .settle c secs =>
    settleProduct c.consecutiveDaemonRestarts < u64Bound ∧
      Bounded (settleSecs profile) c.consecutiveDaemonRestarts secs
  | .backoff c secs => Bounded (fun n => some (backoffSecs n)) c.consecutiveErrors secs

theorem incrementU32_of_lt {n : Nat} (h : n < u32Max) : incrementU32 profile n = some (n + 1) :=
  if_pos h

theorem saturatingPow_mono {m n : Nat} (h : m ≤ n) : saturatingPow 2 m ≤ saturatingPow 2 n := by
  have hpow : 2 ^ m ≤ 2 ^ n := Nat.pow_le_pow_right (by omega) h
  rw [saturatingPow, saturatingPow]
  omega

theorem two_le_saturatingPow {n : Nat} (h : 0 < n) : 2 ≤ saturatingPow 2 n :=
  saturatingPow_mono (m := 1) h

theorem settleProduct_lt_iff {restarts : Nat} (h : 0 < restarts) :
    settleProduct restarts < u64Bound ↔ restarts ≤ 63 := by
  have hbound : u64Bound = 18446744073709551616 := rfl
  constructor
  · intro hlt
    by_contra hlong
    have hpow : saturatingPow 2 63 ≤ saturatingPow 2 (restarts - 1) :=
      saturatingPow_mono (by omega)
    have hlast : saturatingPow 2 63 = 9223372036854775808 := by decide
    rw [settleProduct, daemonRestartSettleSecs] at hlt
    omega
  · intro hshort
    have hpow : saturatingPow 2 (restarts - 1) ≤ saturatingPow 2 62 := saturatingPow_mono (by omega)
    have hlast : saturatingPow 2 62 = 4611686018427387904 := by decide
    rw [settleProduct, daemonRestartSettleSecs]
    omega

theorem settleSecs_of_le {restarts : Nat} (h : 0 < restarts) (hshort : restarts ≤ 63) :
    settleSecs profile restarts = some (min (settleProduct restarts) maxBackoffSecs) := by
  have hfits : mulU64 profile daemonRestartSettleSecs (saturatingPow 2 (restarts - 1)) =
      some (settleProduct restarts) := overflowing_of_lt ((settleProduct_lt_iff h).mpr hshort)
  rw [settleSecs, hfits, Option.map_some]

theorem settle_bounded {restarts : Nat} (h : 0 < restarts) (hshort : restarts ≤ 63) :
    Bounded (settleSecs profile) restarts (min (settleProduct restarts) maxBackoffSecs) := by
  have hlimit : maxBackoffSecs = 60 := rfl
  constructor
  · have hone : saturatingPow 2 0 ≤ saturatingPow 2 (restarts - 1) := saturatingPow_mono (by omega)
    have hzero : saturatingPow 2 0 = 1 := by decide
    rw [settleProduct, daemonRestartSettleSecs]
    omega
  · omega
  · intro m hpos hle
    refine ⟨_, settleSecs_of_le hpos (by omega), ?_⟩
    have hpow : saturatingPow 2 (m - 1) ≤ saturatingPow 2 (restarts - 1) :=
      saturatingPow_mono (by omega)
    rw [settleProduct, settleProduct, daemonRestartSettleSecs]
    omega

theorem backoff_bounded {errors : Nat} (h : 0 < errors) :
    Bounded (fun n => some (backoffSecs n)) errors (backoffSecs errors) := by
  have hlimit : maxBackoffSecs = 60 := rfl
  have htwo := two_le_saturatingPow h
  constructor
  · rw [backoffSecs]
    omega
  · rw [backoffSecs]
    omega
  · intro m _ hle
    have hpow := saturatingPow_mono hle
    refine ⟨_, rfl, ?_⟩
    rw [backoffSecs, backoffSecs]
    omega

end Bounds

section Runs
variable {profile : Profile}

/-- The restarts since the last turn that succeeded. -/
def restartsOn (n : Nat) : Turn → Nat
  | .finished _ => 0
  | .selfDeparted => n
  | .daemonMissing true => n + 1
  | .daemonMissing false => n
  | .failed => n

/-- The errors since the last turn that succeeded or got the daemon back. -/
def errorsOn (n : Nat) : Turn → Nat
  | .finished _ => 0
  | .selfDeparted => n
  | .daemonMissing true => 0
  | .daemonMissing false => n + 1
  | .failed => n + 1

/-- The turns the loop makes before it returns. -/
def live (turns : List Turn) : List Turn := turns.takeWhile fun turn => decide (turn ≠ .selfDeparted)

/-- At no point of the run have the counts passed their limits. -/
def Within (c : Counters) (turns : List Turn) : Prop :=
  ∀ part, part <+: live turns →
    part.foldl restartsOn c.consecutiveDaemonRestarts ≤ 63 ∧
      part.foldl errorsOn c.consecutiveErrors ≤ u32Max

def Counters.on (c : Counters) (turn : Turn) : Counters :=
  ⟨errorsOn c.consecutiveErrors turn, restartsOn c.consecutiveDaemonRestarts turn⟩

def Counters.Fit (c : Counters) : Prop :=
  c.consecutiveDaemonRestarts ≤ 63 ∧ c.consecutiveErrors ≤ u32Max

theorem within_nil {c : Counters} (h : c.Fit) : Within c [] := by
  intro part hpart
  rw [List.prefix_nil.mp hpart]
  exact h

theorem within_departed {c : Counters} (h : c.Fit) (turns : List Turn) :
    Within c (.selfDeparted :: turns) := by
  intro part hpart
  rw [List.prefix_nil.mp hpart]
  exact h

theorem within_cons_iff {c : Counters} (h : c.Fit) {turn : Turn} (hturn : turn ≠ .selfDeparted)
    (turns : List Turn) : Within c (turn :: turns) ↔ Within (c.on turn) turns := by
  have hlive : live (turn :: turns) = turn :: live turns :=
    List.takeWhile_cons_of_pos (decide_eq_true hturn)
  constructor
  · intro hw part hpart
    exact hw (turn :: part) (by rw [hlive]; exact List.prefix_cons_inj turn |>.mpr hpart)
  · intro hw part hpart
    rw [hlive] at hpart
    cases part with
    | nil => exact h
    | cons first part =>
      obtain ⟨rfl, htail⟩ := List.cons_prefix_cons.mp hpart
      exact hw part htail

theorem fit_of_within {c : Counters} {turns : List Turn} (h : Within c turns) : c.Fit :=
  h [] (List.nil_prefix)

/-- One turn whose counts stay within the limits is followed by a sound delay and the next counts. -/
theorem after_of_fit {c : Counters} {turn : Turn} (hturn : turn ≠ .selfDeparted)
    (hnext : (c.on turn).Fit) :
    (after profile c turn).Sound profile ∧ (after profile c turn).counters = some (c.on turn) := by
  have herror : ∀ n, n + 1 ≤ u32Max → backOff profile ⟨n, c.consecutiveDaemonRestarts⟩ =
      .backoff ⟨n + 1, c.consecutiveDaemonRestarts⟩ (backoffSecs (n + 1)) := by
    intro n hn
    rw [backOff, incrementU32_of_lt hn]
  have hlimit : u32Max = 4294967295 := rfl
  cases turn with
  | finished worked => exact ⟨trivial, rfl⟩
  | selfDeparted => exact absurd rfl hturn
  | daemonMissing restarted =>
    cases restarted with
    | false =>
      have hback := herror c.consecutiveErrors hnext.2
      rw [after, hback]
      exact ⟨backoff_bounded (Nat.succ_pos _), rfl⟩
    | true =>
      have hshort : c.consecutiveDaemonRestarts + 1 ≤ 63 := hnext.1
      have hsucc : saturatingSucc c.consecutiveDaemonRestarts = c.consecutiveDaemonRestarts + 1 := by
        rw [saturatingSucc]
        omega
      have hsettle : settleSecs profile (c.consecutiveDaemonRestarts + 1) = some _ :=
        settleSecs_of_le (Nat.succ_pos _) hshort
      rw [after, hsucc]
      simp only [hsettle]
      exact ⟨⟨(settleProduct_lt_iff (Nat.succ_pos _)).mpr hshort,
        settle_bounded (Nat.succ_pos _) hshort⟩, rfl⟩
  | failed =>
    have hback := herror c.consecutiveErrors hnext.2
    rw [after, hback]
    exact ⟨backoff_bounded (Nat.succ_pos _), rfl⟩

/-- The first turn that passes a limit is not followed by a sound delay. -/
theorem after_of_not_fit {c : Counters} (h : c.Fit) {turn : Turn} (hnext : ¬(c.on turn).Fit) :
    ¬(after profile c turn).Sound profile := by
  have hlimit : u32Max = 4294967295 := rfl
  have herror : ¬c.consecutiveErrors + 1 ≤ u32Max → ¬(backOff profile c).Sound profile := by
    intro hn
    cases profile with
    | debug =>
      have hover : incrementU32 .debug c.consecutiveErrors = none := if_neg hn
      rw [backOff, hover]
      exact id
    | release =>
      have hover : incrementU32 .release c.consecutiveErrors = some 0 := if_neg hn
      rw [backOff, hover]
      intro hsound
      exact absurd hsound.atLeast (by decide)
  cases turn with
  | finished worked => exact absurd ⟨Nat.zero_le _, Nat.zero_le _⟩ hnext
  | selfDeparted => exact absurd h hnext
  | daemonMissing restarted =>
    cases restarted with
    | false => exact herror fun hle => hnext ⟨h.1, hle⟩
    | true =>
      have hlong : ¬c.consecutiveDaemonRestarts + 1 ≤ 63 := fun hle =>
        hnext ⟨hle, Nat.zero_le _⟩
      have hrestarts := h.1
      have hsucc : saturatingSucc c.consecutiveDaemonRestarts = c.consecutiveDaemonRestarts + 1 := by
        rw [saturatingSucc]
        omega
      rw [after, hsucc]
      cases settleSecs profile (c.consecutiveDaemonRestarts + 1) with
      | none => exact id
      | some secs =>
        intro hsound
        exact hlong ((settleProduct_lt_iff (Nat.succ_pos _)).mp hsound.1)
  | failed => exact herror fun hle => hnext ⟨h.1, hle⟩

theorem run_sound_iff_within (turns : List Turn) {c : Counters} (h : c.Fit) :
    (∀ next ∈ run profile c turns, next.Sound profile) ↔ Within c turns := by
  induction turns generalizing c with
  | nil =>
    refine iff_of_true ?_ (within_nil h)
    intro next hnext
    cases hnext
  | cons turn turns ih =>
    by_cases hdeparted : turn = .selfDeparted
    · subst hdeparted
      refine iff_of_true ?_ (within_departed h turns)
      intro next hnext
      rw [List.mem_singleton.mp hnext]
      trivial
    · rw [within_cons_iff h hdeparted]
      by_cases hfit : (c.on turn).Fit
      · have hstep : (after profile c turn).Sound profile ∧
            (after profile c turn).counters = some (c.on turn) := after_of_fit hdeparted hfit
        obtain ⟨hsound, hcounters⟩ := hstep
        rw [run, hcounters, List.forall_mem_cons, and_iff_right hsound]
        exact ih hfit
      · refine iff_of_false ?_ fun hw => hfit (fit_of_within hw)
        intro hall
        exact after_of_not_fit h hfit (hall _ List.mem_cons_self)

/-- The delays of a run are computed without overflow, lie within their bounds and grow with their
counter exactly when the daemon is never restarted 64 times, and no 2^32 errors happen, without a
success in between. -/
theorem delays_bounded_iff (profile : Profile) (turns : List Turn) :
    (∀ next ∈ run profile ⟨0, 0⟩ turns, next.Sound profile) ↔
      ∀ part, part <+: live turns →
        part.foldl restartsOn 0 ≤ 63 ∧ part.foldl errorsOn 0 ≤ u32Max :=
  run_sound_iff_within turns ⟨Nat.zero_le _, Nat.zero_le _⟩

/-- At the sixty-fourth restart in a row the product wraps around and the settle time is zero. -/
theorem not_delays_bounded :
    ¬∀ profile turns, ∀ next ∈ run profile ⟨0, 0⟩ turns, next.Sound profile := by
  intro h
  have hmem : Next.settle ⟨0, 64⟩ 0 ∈
      run .release ⟨0, 0⟩ (List.replicate 64 (.daemonMissing true)) := by decide +kernel
  have hsound := h .release (List.replicate 64 (.daemonMissing true)) _ hmem
  exact absurd hsound.2.atLeast (by decide)

end Runs

end LoopDelays
