import Mathlib.Algebra.Order.Ring.Nat
import Mathlib.Order.Monotone.Defs
import Mathlib.Tactic.Common

/-!
# The delays of the sync loop

After each cycle the loop decides how long to wait. Rate limits and failed rebases are answered with
a delay that doubles, up to two minutes; the limit does not look at the configured interval, and the
product of the rebase delay is taken before the limit.
-/

namespace SyncBackoff

def u64Bound : Nat := 2 ^ 64

def u32Max : Nat := 2 ^ 32 - 1

/-- How an overflow ends: in a panic, or in a product that wraps around. -/
inductive Profile where
  | debug
  | release

def overflowing (profile : Profile) (n : Nat) : Option Nat :=
  if n < u64Bound then some n
  else
    match profile with
    | .debug => none
    | .release => some (n % u64Bound)

def mulU64 (profile : Profile) (a b : Nat) : Option Nat := overflowing profile (a * b)

def addU64 (profile : Profile) (a b : Nat) : Option Nat := overflowing profile (a + b)

def saturatingPow (base exponent : Nat) : Nat := min (base ^ exponent) (u64Bound - 1)

def rebaseBackoffThreshold : Nat := 3

def rebaseMaxBackoffSecs : Nat := 120

section Delays
variable (profile : Profile) (draw : Nat → Nat) (intervalSecs : Nat)

def baseMs : Option Nat := mulU64 profile intervalSecs 1000

def normalDelay : Option Nat := do
  let base ← baseMs profile intervalSecs
  let jitterRange := base / 3
  addU64 profile base (if jitterRange > 0 then draw jitterRange else 0)

def rateLimitedDelay (consecutive : Nat) : Option Nat := do
  let base ← baseMs profile intervalSecs
  let backoff ← mulU64 profile base (2 ^ min consecutive 5)
  let capped := min backoff 120000
  let range ← addU64 profile (capped / 3) 1
  addU64 profile capped (draw range)

def rebaseFailedDelay (consecutive : Nat) : Option Nat := do
  let base ← baseMs profile intervalSecs
  if consecutive ≥ rebaseBackoffThreshold then do
    let backoffSecs ← mulU64 profile (base / 1000)
      (saturatingPow 2 (consecutive - rebaseBackoffThreshold))
    some (min backoffSecs rebaseMaxBackoffSecs * 1000)
  else some base

inductive SyncOutcome where
  | normal
  | rateLimited
  | authCircuitOpen
  | rebaseFailed

structure Schedule where
  consecutiveRateLimits : Nat
  consecutiveRebaseFailures : Nat
  nextDelay : Nat

def saturatingSucc (n : Nat) : Nat := min (n + 1) u32Max

/-- What the loop keeps of a cycle. -/
def schedule (s : Schedule) : SyncOutcome → Option Schedule
  | .normal => do
    let delay ← normalDelay profile draw intervalSecs
    some ⟨0, 0, delay⟩
  | .rateLimited => do
    let consecutive := saturatingSucc s.consecutiveRateLimits
    let delay ← rateLimitedDelay profile draw intervalSecs consecutive
    some { s with consecutiveRateLimits := consecutive, nextDelay := delay }
  | .authCircuitOpen => do
    let delay ← baseMs profile intervalSecs
    some { s with nextDelay := delay }
  | .rebaseFailed => do
    let consecutive := saturatingSucc s.consecutiveRebaseFailures
    let delay ← rebaseFailedDelay profile intervalSecs consecutive
    some { s with consecutiveRebaseFailures := consecutive, nextDelay := delay }

end Delays

section Arithmetic
variable {profile : Profile} {draw : Nat → Nat} {intervalSecs : Nat}

theorem overflowing_of_lt {n : Nat} (h : n < u64Bound) : overflowing profile n = some n :=
  if_pos h

theorem baseMs_eq (hu32 : intervalSecs ≤ u32Max) :
    baseMs profile intervalSecs = some (intervalSecs * 1000) := by
  apply overflowing_of_lt
  simp only [u32Max, u64Bound] at hu32 ⊢
  omega

/-- A random number below a bound: one draw, scaled to the bound. -/
structure Draw (draw : Nat → Nat) : Prop where
  below : ∀ n, 0 < n → draw n < n
  scaled : Monotone draw

/-- The rate limit delay in front of the jitter. -/
def cappedMs (intervalSecs consecutive : Nat) : Nat :=
  min (intervalSecs * 1000 * 2 ^ min consecutive 5) 120000

theorem pow_range (n : Nat) : 1 ≤ 2 ^ min n 5 ∧ 2 ^ min n 5 ≤ 32 := by
  constructor
  · exact Nat.one_le_two_pow
  · exact Nat.pow_le_pow_right (by omega) (Nat.min_le_right n 5)

theorem normalDelay_eq (hu32 : intervalSecs ≤ u32Max) (hdraw : Draw draw) :
    ∃ jitter, normalDelay profile draw intervalSecs = some (intervalSecs * 1000 + jitter) := by
  rw [normalDelay, baseMs_eq hu32]
  refine ⟨_, overflowing_of_lt ?_⟩
  have hlimit : intervalSecs ≤ 4294967295 := hu32
  have hbound : u64Bound = 18446744073709551616 := rfl
  split
  · rename_i hpos
    have hjitter := hdraw.below _ hpos
    omega
  · omega

theorem rateLimitedDelay_eq (hu32 : intervalSecs ≤ u32Max) (hdraw : Draw draw) (n : Nat) :
    rateLimitedDelay profile draw intervalSecs n =
      some (cappedMs intervalSecs n + draw (cappedMs intervalSecs n / 3 + 1)) := by
  obtain ⟨hlow, hhigh⟩ := pow_range n
  have hlimit : intervalSecs ≤ 4294967295 := hu32
  have hbound : u64Bound = 18446744073709551616 := rfl
  have hproduct : intervalSecs * 1000 * 2 ^ min n 5 < u64Bound := by
    have hle : intervalSecs * 1000 * 2 ^ min n 5 ≤ intervalSecs * 1000 * 32 :=
      Nat.mul_le_mul_left _ hhigh
    omega
  have hcapped : cappedMs intervalSecs n ≤ 120000 := Nat.min_le_right _ _
  have hjitter := hdraw.below (cappedMs intervalSecs n / 3 + 1) (Nat.succ_pos _)
  have hrange : addU64 profile (cappedMs intervalSecs n / 3) 1 =
      some (cappedMs intervalSecs n / 3 + 1) := overflowing_of_lt (by omega)
  have hsum : addU64 profile (cappedMs intervalSecs n) (draw (cappedMs intervalSecs n / 3 + 1)) =
      some (cappedMs intervalSecs n + draw (cappedMs intervalSecs n / 3 + 1)) :=
    overflowing_of_lt (by omega)
  rw [rateLimitedDelay, baseMs_eq hu32]
  simp only [Option.bind_eq_bind, Option.bind_some, mulU64, overflowing_of_lt hproduct]
  rw [← cappedMs, hrange, Option.bind_some, hsum]

theorem cappedMs_mono {m n : Nat} (h : m ≤ n) : cappedMs intervalSecs m ≤ cappedMs intervalSecs n := by
  have hpow : 2 ^ min m 5 ≤ 2 ^ min n 5 := Nat.pow_le_pow_right (by omega) (by omega)
  have hproduct := Nat.mul_le_mul_left (intervalSecs * 1000) hpow
  rw [cappedMs, cappedMs]
  omega

theorem le_cappedMs_iff (n : Nat) : intervalSecs * 1000 ≤ cappedMs intervalSecs n ↔ intervalSecs ≤ 120 := by
  have hproduct := Nat.mul_le_mul_left (intervalSecs * 1000) (pow_range n).1
  rw [cappedMs]
  omega

/-- Whether the product of the rebase delay fits. -/
def ProductFits (intervalSecs n : Nat) : Prop :=
  n < rebaseBackoffThreshold ∨ intervalSecs = 1 ∨
    intervalSecs * 2 ^ (n - rebaseBackoffThreshold) < u64Bound

theorem rebaseFailedDelay_below (hu32 : intervalSecs ≤ u32Max) {n : Nat}
    (h : n < rebaseBackoffThreshold) :
    rebaseFailedDelay profile intervalSecs n = some (intervalSecs * 1000) := by
  rw [rebaseFailedDelay, baseMs_eq hu32]
  exact if_neg (by omega)

theorem rebaseFailedDelay_above (hu32 : intervalSecs ≤ u32Max) {n : Nat}
    (h : rebaseBackoffThreshold ≤ n) :
    rebaseFailedDelay profile intervalSecs n =
      (overflowing profile (intervalSecs * saturatingPow 2 (n - rebaseBackoffThreshold))).map
        fun secs => min secs rebaseMaxBackoffSecs * 1000 := by
  have hbase : intervalSecs * 1000 / 1000 = intervalSecs := Nat.mul_div_cancel _ (by omega)
  rw [rebaseFailedDelay, baseMs_eq hu32]
  simp only [Option.bind_eq_bind, Option.bind_some, ge_iff_le, h, if_true, hbase, mulU64]
  cases overflowing profile (intervalSecs * saturatingPow 2 (n - rebaseBackoffThreshold)) <;> rfl

theorem product_lt_iff (hpos : 1 ≤ intervalSecs) (k : Nat) :
    intervalSecs * saturatingPow 2 k < u64Bound ↔
      intervalSecs = 1 ∨ intervalSecs * 2 ^ k < u64Bound := by
  have hbound : u64Bound = 18446744073709551616 := rfl
  by_cases hone : intervalSecs = 1
  · rw [hone, saturatingPow]
    omega
  · rcases Nat.lt_or_ge (2 ^ k) u64Bound with hsmall | hlarge
    · have hpow : saturatingPow 2 k = 2 ^ k := by
        rw [saturatingPow]
        omega
      rw [hpow, or_iff_right hone]
    · have hpow : saturatingPow 2 k = u64Bound - 1 := by
        rw [saturatingPow]
        omega
      have htwo : 2 * (u64Bound - 1) ≤ intervalSecs * (u64Bound - 1) :=
        Nat.mul_le_mul_right _ (by omega)
      have hover : 2 * 2 ^ k ≤ intervalSecs * 2 ^ k := Nat.mul_le_mul_right _ (by omega)
      rw [hpow, or_iff_right hone]
      omega

theorem saturatingPow_mono {j k : Nat} (h : j ≤ k) : saturatingPow 2 j ≤ saturatingPow 2 k := by
  have hpow : 2 ^ j ≤ 2 ^ k := Nat.pow_le_pow_right (by omega) h
  rw [saturatingPow, saturatingPow]
  omega

theorem one_le_saturatingPow (k : Nat) : 1 ≤ saturatingPow 2 k := by
  have hbound : u64Bound = 18446744073709551616 := rfl
  have hpow : 1 ≤ 2 ^ k := Nat.one_le_two_pow
  rw [saturatingPow]
  omega

/-- The rebase delay in seconds once it is limited. -/
def limitedSecs (intervalSecs n : Nat) : Nat :=
  min (intervalSecs * saturatingPow 2 (n - rebaseBackoffThreshold)) rebaseMaxBackoffSecs

/-- The delay after failed rebases where its product fits. -/
def rebaseDelay (intervalSecs n : Nat) : Nat :=
  if n < rebaseBackoffThreshold then intervalSecs * 1000 else limitedSecs intervalSecs n * 1000

theorem rebaseFailedDelay_fits (hpos : 1 ≤ intervalSecs) (hu32 : intervalSecs ≤ u32Max) {n : Nat}
    (hfits : ProductFits intervalSecs n) :
    rebaseFailedDelay profile intervalSecs n = some (rebaseDelay intervalSecs n) := by
  by_cases hbelow : n < rebaseBackoffThreshold
  · rw [rebaseFailedDelay_below hu32 hbelow, rebaseDelay, if_pos hbelow]
  · have hproduct := (product_lt_iff hpos _).mpr (hfits.resolve_left hbelow)
    rw [rebaseFailedDelay_above hu32 (by omega), overflowing_of_lt hproduct, rebaseDelay,
      if_neg hbelow]
    rfl

theorem rebaseFailedDelay_overflows (hpos : 1 ≤ intervalSecs) (hu32 : intervalSecs ≤ u32Max)
    {n : Nat} (hover : ¬ ProductFits intervalSecs n) :
    rebaseFailedDelay .debug intervalSecs n = none := by
  have habove : ¬ n < rebaseBackoffThreshold := fun h => hover (Or.inl h)
  have hproduct : ¬ intervalSecs * saturatingPow 2 (n - rebaseBackoffThreshold) < u64Bound := by
    intro hlt
    exact hover (Or.inr ((product_lt_iff hpos _).mp hlt))
  rw [rebaseFailedDelay_above hu32 (by omega), overflowing, if_neg hproduct]
  rfl

theorem productFits_of_le {m n : Nat} (hle : m ≤ n) (h : ProductFits intervalSecs n) :
    ProductFits intervalSecs m := by
  rcases h with hbelow | hone | hlt
  · exact Or.inl (by omega)
  · exact Or.inr (Or.inl hone)
  · refine Or.inr (Or.inr ?_)
    have hpow : 2 ^ (m - rebaseBackoffThreshold) ≤ 2 ^ (n - rebaseBackoffThreshold) :=
      Nat.pow_le_pow_right (by omega) (by omega)
    have hproduct := Nat.mul_le_mul_left intervalSecs hpow
    omega

theorem le_limitedSecs (h : intervalSecs ≤ 120) (n : Nat) :
    intervalSecs ≤ limitedSecs intervalSecs n := by
  have hproduct := Nat.mul_le_mul_left intervalSecs
    (one_le_saturatingPow (n - rebaseBackoffThreshold))
  rw [limitedSecs, rebaseMaxBackoffSecs]
  omega

theorem limitedSecs_mono {m n : Nat} (h : m ≤ n) :
    limitedSecs intervalSecs m ≤ limitedSecs intervalSecs n := by
  have hproduct := Nat.mul_le_mul_left intervalSecs
    (saturatingPow_mono (Nat.sub_le_sub_right h rebaseBackoffThreshold))
  rw [limitedSecs, limitedSecs]
  omega

theorem base_le_rebaseDelay (h : intervalSecs ≤ 120) (n : Nat) :
    intervalSecs * 1000 ≤ rebaseDelay intervalSecs n := by
  have hle := le_limitedSecs h n
  rw [rebaseDelay]
  split <;> omega

theorem rebaseDelay_mono (hcap : intervalSecs ≤ 120) {m n : Nat} (h : m ≤ n) :
    rebaseDelay intervalSecs m ≤ rebaseDelay intervalSecs n := by
  have hle := le_limitedSecs hcap n
  have hmono : limitedSecs intervalSecs m ≤ limitedSecs intervalSecs n := limitedSecs_mono h
  rw [rebaseDelay, rebaseDelay]
  split <;> split <;> omega

theorem saturatingSucc_mono {m n : Nat} (h : m ≤ n) : saturatingSucc m ≤ saturatingSucc n := by
  rw [saturatingSucc, saturatingSucc]
  omega

end Arithmetic

section Result
variable {intervalSecs rateLimits rebaseFailures : Nat}

/-- After any outcome there is a delay, no shorter than the interval and no shorter than with fewer
failures, whatever is drawn. -/
def DelaysSafe (intervalSecs rateLimits rebaseFailures : Nat) : Prop :=
  ∀ profile draw, Draw draw → ∀ nextDelay outcome, ∃ after,
    schedule profile draw intervalSecs ⟨rateLimits, rebaseFailures, nextDelay⟩ outcome = some after ∧
    intervalSecs * 1000 ≤ after.nextDelay ∧
    ∀ fewer fewer', fewer.consecutiveRateLimits ≤ rateLimits →
      fewer.consecutiveRebaseFailures ≤ rebaseFailures →
      schedule profile draw intervalSecs fewer outcome = some fewer' →
        fewer'.nextDelay ≤ after.nextDelay

theorem draw_zero : Draw fun _ => 0 := by
  constructor
  · intro n hn
    exact hn
  · exact monotone_const

/-- A rate limit waits less than a long interval. -/
theorem interval_le_of_delaysSafe (hu32 : intervalSecs ≤ u32Max)
    (h : DelaysSafe intervalSecs rateLimits rebaseFailures) : intervalSecs ≤ 120 := by
  obtain ⟨after, hafter, hbase, -⟩ := h .release (fun _ => 0) draw_zero 0 .rateLimited
  rw [schedule, rateLimitedDelay_eq hu32 draw_zero] at hafter
  cases hafter
  exact (le_cappedMs_iff (saturatingSucc rateLimits)).mp hbase

theorem productFits_of_delaysSafe (hpos : 1 ≤ intervalSecs) (hu32 : intervalSecs ≤ u32Max)
    (h : DelaysSafe intervalSecs rateLimits rebaseFailures) :
    ProductFits intervalSecs (saturatingSucc rebaseFailures) := by
  by_contra hover
  obtain ⟨after, hafter, -⟩ := h .debug (fun _ => 0) draw_zero 0 .rebaseFailed
  rw [schedule, rebaseFailedDelay_overflows hpos hu32 hover] at hafter
  cases hafter

theorem delaysSafe_of_fits (hpos : 1 ≤ intervalSecs) (hu32 : intervalSecs ≤ u32Max)
    (hcap : intervalSecs ≤ 120)
    (hfits : ProductFits intervalSecs (saturatingSucc rebaseFailures)) :
    DelaysSafe intervalSecs rateLimits rebaseFailures := by
  intro profile draw hdraw nextDelay outcome
  cases outcome with
  | normal =>
    obtain ⟨jitter, hdelay⟩ : ∃ jitter, normalDelay profile draw intervalSecs =
      some (intervalSecs * 1000 + jitter) := normalDelay_eq hu32 hdraw
    simp only [schedule, hdelay, Option.bind_eq_bind, Option.bind_some]
    refine ⟨_, rfl, Nat.le_add_right _ _, ?_⟩
    intro fewer fewer' _ _ hfewer
    cases hfewer
    exact Nat.le_refl _
  | rateLimited =>
    simp only [schedule, rateLimitedDelay_eq hu32 hdraw, Option.bind_eq_bind, Option.bind_some]
    refine ⟨_, rfl, ?_, ?_⟩
    · have hbase := (le_cappedMs_iff (saturatingSucc rateLimits)).mpr hcap
      exact Nat.le_add_right_of_le hbase
    · intro fewer fewer' hlimits _ hfewer
      cases hfewer
      have hmono : cappedMs intervalSecs _ ≤ cappedMs intervalSecs _ :=
        cappedMs_mono (saturatingSucc_mono hlimits)
      have hrange := Nat.add_le_add_right (Nat.div_le_div_right (c := 3) hmono) 1
      exact Nat.add_le_add hmono (hdraw.scaled hrange)
  | authCircuitOpen =>
    simp only [schedule, baseMs_eq hu32, Option.bind_eq_bind, Option.bind_some]
    refine ⟨_, rfl, Nat.le_refl _, ?_⟩
    intro fewer fewer' _ _ hfewer
    cases hfewer
    exact Nat.le_refl _
  | rebaseFailed =>
    simp only [schedule, rebaseFailedDelay_fits hpos hu32 hfits, Option.bind_eq_bind,
      Option.bind_some]
    refine ⟨_, rfl, base_le_rebaseDelay hcap _, ?_⟩
    intro fewer fewer' _ hrebases hfewer
    have hmono := saturatingSucc_mono hrebases
    rw [rebaseFailedDelay_fits hpos hu32 (productFits_of_le hmono hfits)] at hfewer
    cases hfewer
    exact rebaseDelay_mono hcap hmono

/-- When the delays of the sync loop are safe. -/
theorem delays_safe_iff (intervalSecs rateLimits rebaseFailures : Nat) (hpos : 1 ≤ intervalSecs)
    (hu32 : intervalSecs ≤ u32Max) :
    DelaysSafe intervalSecs rateLimits rebaseFailures ↔
      intervalSecs ≤ 120 ∧ ProductFits intervalSecs (saturatingSucc rebaseFailures) := by
  constructor
  · intro h
    exact ⟨interval_le_of_delaysSafe hu32 h, productFits_of_delaysSafe hpos hu32 h⟩
  · rintro ⟨hcap, hfits⟩
    exact delaysSafe_of_fits hpos hu32 hcap hfits

theorem delays_safe_fiveSecs : DelaysSafe 5 4 20 :=
  (delays_safe_iff 5 4 20 (by decide) (by decide)).mpr ⟨by decide, Or.inr (Or.inr (by decide))⟩

/-- Sixty-six failed rebases at an interval of two seconds, and a rate limit at one of five
minutes. -/
theorem not_delays_safe :
    (1 ≤ 2 ∧ rebaseFailedDelay .debug 2 66 = none ∧ rebaseFailedDelay .release 2 66 = some 0) ∧
    (1 ≤ 300 ∧ rateLimitedDelay .release (fun _ => 0) 300 1 = some 120000 ∧
      baseMs .release 300 = some 300000) ∧
    ¬ ∀ intervalSecs rateLimits rebaseFailures, 1 ≤ intervalSecs → intervalSecs ≤ u32Max →
      DelaysSafe intervalSecs rateLimits rebaseFailures := by
  refine ⟨by decide +kernel, by decide +kernel, ?_⟩
  intro h
  have hlong := interval_le_of_delaysSafe (by decide) (h 300 0 0 (by decide) (by decide))
  omega

end Result

end SyncBackoff
