import Mathlib.Algebra.Order.Ring.Int
import Mathlib.Algebra.Order.Monoid.Unbundled.Pow
import PixRail.Messaging.Relay

/-!
# The backoff of the relay

`backoff` doubles the first delay for each failed attempt and compares the
delay with the largest one after a doubling.  The first delay itself is never
compared, and a doubling can wrap before the comparison.  So the delays are
those of the usual law, the doubled delay or the largest one, exactly when the
first delay is not above the largest and some doubling reaches the largest
delay without a wrap (`backoff_law_iff`).
-/

namespace PixRail.Messaging

open Go

/-- The delays are values of `time.Duration`. -/
structure RetryPolicy.InRange (policy : RetryPolicy) : Prop where
  initialBackoff : policy.initialBackoff < 2 ^ 63
  maxBackoff : policy.maxBackoff < 2 ^ 63

/-- What `NewRelay` makes sure of. -/
structure RetryPolicy.Normal (policy : RetryPolicy) : Prop extends policy.InRange where
  initial_pos : 0 < policy.initialBackoff
  max_pos : 0 < policy.maxBackoff

theorem RetryPolicy.InRange.normalize {policy : RetryPolicy} (h : policy.InRange) :
    policy.normalize.Normal := by
  obtain ⟨hinitial, hmax⟩ := h
  refine ⟨⟨?_, ?_⟩, ?_, ?_⟩ <;>
  · unfold RetryPolicy.normalize minute second
    dsimp only
    split <;> lia

section loop

variable {policy : RetryPolicy}

theorem backoffLoop_succ (n : Nat) (b : Int) :
    backoffLoop policy (n + 1) b =
      if policy.maxBackoff ≤ wrap64 (b * 2) then policy.maxBackoff
      else backoffLoop policy n (wrap64 (b * 2)) :=
  rfl

theorem mul_two_pow_mono {b : Int} (hb : 0 < b) {i j : Nat} (h : i ≤ j) :
    b * 2 ^ i ≤ b * 2 ^ j :=
  Int.mul_le_mul_of_nonneg_left (pow_le_pow_right₀ (by decide) h) hb.le

theorem mul_two_pow_succ (b : Int) (k : Nat) : b * 2 ^ (k + 1) = b * 2 * 2 ^ k := by
  rw [pow_succ', Int.mul_assoc]

/-- The loop up to a doubling that is capped or that wraps. -/
theorem backoffLoop_doubles (hmax : policy.maxBackoff < 2 ^ 63) {b : Int} (hb : 0 < b) (n k : Nat)
    (hbelow : ∀ j < k, b * 2 ^ (j + 1) < policy.maxBackoff) :
    backoffLoop policy (k + n) b = backoffLoop policy n (b * 2 ^ k) := by
  induction k generalizing b with
  | zero => simp
  | succ k ih =>
    have hdouble : b * 2 < policy.maxBackoff := by
      simpa using hbelow 0 (Nat.succ_pos k)
    have hwrap : wrap64 (b * 2) = b * 2 := wrap64_of_fits (by omega) (by lia)
    have hnext : ∀ j < k, b * 2 * 2 ^ (j + 1) < policy.maxBackoff := by
      intro j hj
      rw [← mul_two_pow_succ]
      exact hbelow (j + 1) (by omega)
    rw [Nat.add_right_comm, backoffLoop_succ, hwrap, if_neg (by lia), ih (by omega) hnext,
      mul_two_pow_succ]

/-- If a doubling reaches the largest delay without a wrap, the loop is the
law. -/
theorem backoffLoop_eq_min {b : Int} (hb : 0 < b) (hle : b ≤ policy.maxBackoff) {k : Nat}
    (hreach : policy.maxBackoff ≤ b * 2 ^ (k + 1)) (hfits : b * 2 ^ (k + 1) < 2 ^ 63) (n : Nat) :
    backoffLoop policy n b = min (b * 2 ^ n) policy.maxBackoff := by
  induction n generalizing b k with
  | zero =>
    rw [pow_zero, Int.mul_one, min_eq_left hle]
    rfl
  | succ n ih =>
    have hfirst := mul_two_pow_mono hb (show 1 ≤ k + 1 by omega)
    have hlast := mul_two_pow_mono hb (show 1 ≤ n + 1 by omega)
    rw [pow_one] at hfirst hlast
    rw [backoffLoop_succ, wrap64_of_fits (by omega) (by omega)]
    split
    · rename_i hcap
      rw [min_eq_right (hcap.trans hlast)]
    · rename_i hbelow
      -- the doubling that reaches the largest delay is a later one
      obtain _ | k := k
      · rw [Nat.zero_add, pow_one] at hreach
        exact absurd hreach hbelow
      · rw [mul_two_pow_succ] at hreach hfits
        rw [ih (by omega) (le_of_not_ge hbelow) hreach hfits, mul_two_pow_succ]

/-- Some doubling reaches the largest delay, and it is the first one that
does. -/
theorem exists_first_reach {b : Int} (hb : 0 < b) (hmax : policy.maxBackoff < 2 ^ 63) :
    ∃ k, policy.maxBackoff ≤ b * 2 ^ (k + 1) ∧ ∀ j < k, b * 2 ^ (j + 1) < policy.maxBackoff := by
  have hex : ∃ k, policy.maxBackoff ≤ b * 2 ^ (k + 1) := by
    refine ⟨62, hmax.le.trans ?_⟩
    show (2 ^ 63 : Int) ≤ _
    omega
  classical
  exact ⟨Nat.find hex, Nat.find_spec hex, fun j hj => not_le.mp (Nat.find_min hex hj)⟩

/-- If the first doubling that reaches the largest delay does not fit, the
loop returns a negative delay there. -/
theorem backoffLoop_wraps (hmax : policy.maxBackoff < 2 ^ 63) (hpos : 0 < policy.maxBackoff)
    {b : Int} (hb : 0 < b) (hlt : b < 2 ^ 63) {k : Nat}
    (hbelow : ∀ j < k, b * 2 ^ (j + 1) < policy.maxBackoff) (hwrap : 2 ^ 63 ≤ b * 2 ^ (k + 1)) :
    backoffLoop policy (k + 1) b < 0 := by
  have hfits : b * 2 ^ k < 2 ^ 63 := by
    cases k with
    | zero => rwa [pow_zero, Int.mul_one]
    | succ k => exact (hbelow k (Nat.lt_succ_self k)).trans hmax
  have hdouble : b * 2 ^ k * 2 = b * 2 ^ (k + 1) := by
    rw [pow_succ, Int.mul_assoc]
  have hneg : wrap64 (b * 2 ^ k * 2) < 0 := by
    rw [wrap64_of_over (by omega) (by omega)]
    omega
  rw [backoffLoop_doubles hmax hb 1 k hbelow, backoffLoop_succ, if_neg (by lia)]
  exact hneg

end loop

theorem backoff_eq (policy : RetryPolicy) {attempt : Int} (h : 1 ≤ attempt) :
    backoff policy attempt = backoffLoop policy (attempt - 1).toNat policy.initialBackoff := by
  unfold backoff
  dsimp only
  rw [if_neg (by omega)]

/-- The delays of a relay are the first delay, doubled for each attempt, up
to the largest delay. -/
structure BackoffLaw (policy : RetryPolicy) : Prop where
  eq_min : ∀ attempt : Int, 1 ≤ attempt → backoff policy attempt =
    min (policy.initialBackoff * 2 ^ (attempt - 1).toNat) policy.maxBackoff
  pos : ∀ attempt : Int, 1 ≤ attempt → 0 < backoff policy attempt
  le_max : ∀ attempt : Int, 1 ≤ attempt → backoff policy attempt ≤ policy.maxBackoff
  mono : ∀ attempt attempt' : Int, 1 ≤ attempt → attempt ≤ attempt' →
    backoff policy attempt ≤ backoff policy attempt'

/-- The first part of the law gives the others. -/
theorem backoffLaw_of_eq_min {policy : RetryPolicy} (hp : policy.Normal)
    (h : ∀ attempt : Int, 1 ≤ attempt → backoff policy attempt =
      min (policy.initialBackoff * 2 ^ (attempt - 1).toNat) policy.maxBackoff) :
    BackoffLaw policy where
  eq_min := h
  pos attempt hattempt := by
    have hdelay := mul_two_pow_mono hp.initial_pos (Nat.zero_le (attempt - 1).toNat)
    rw [pow_zero, Int.mul_one] at hdelay
    rw [h attempt hattempt]
    exact lt_min (lt_of_lt_of_le hp.initial_pos hdelay) hp.max_pos
  le_max attempt hattempt := by
    rw [h attempt hattempt]
    exact min_le_right _ _
  mono attempt attempt' hattempt hle := by
    rw [h attempt hattempt, h attempt' (hattempt.trans hle)]
    exact min_le_min_right _ (mul_two_pow_mono hp.initial_pos (by omega))

/-- The law holds for a relay exactly when its first delay is not above its
largest, and doubling the first delay once or more comes to the largest delay
or above it without leaving 64 bits. -/
theorem backoff_law_iff (policy : RetryPolicy) (hint : policy.InRange) :
    BackoffLaw policy.normalize ↔
      policy.normalize.initialBackoff ≤ policy.normalize.maxBackoff ∧
        ∃ k : Nat, policy.normalize.maxBackoff ≤ policy.normalize.initialBackoff * 2 ^ (k + 1) ∧
          policy.normalize.initialBackoff * 2 ^ (k + 1) < 2 ^ 63 := by
  have hp := hint.normalize
  generalize policy.normalize = policy at hp
  constructor
  · intro law
    have hfirst := law.le_max 1 le_rfl
    rw [backoff_eq policy le_rfl] at hfirst
    refine ⟨hfirst, ?_⟩
    obtain ⟨k, hreach, hbelow⟩ := exists_first_reach hp.initial_pos hp.maxBackoff
    refine ⟨k, hreach, ?_⟩
    by_contra hwrap
    have hneg := backoffLoop_wraps hp.maxBackoff hp.max_pos hp.initial_pos hp.initialBackoff hbelow
      (not_lt.mp hwrap)
    have hpos := law.pos (k + 2 : Nat) (by omega)
    rw [backoff_eq policy (by omega), show ((k + 2 : Nat) - 1 : Int).toNat = k + 1 by omega] at hpos
    exact absurd hpos (not_lt.mpr hneg.le)
  · rintro ⟨hle, k, hreach, hfits⟩
    refine backoffLaw_of_eq_min hp fun attempt hattempt => ?_
    rw [backoff_eq policy hattempt]
    exact backoffLoop_eq_min hp.initial_pos hle hreach hfits _

/-- The policy of the test: one second, at most three. -/
theorem backoff_law_iff_test :
    BackoffLaw (RetryPolicy.normalize
      { initialBackoff := second, maxBackoff := 3 * second, claimTTL := 0 }) :=
  (backoff_law_iff _ ⟨by decide, by decide⟩).mpr ⟨by decide, 1, by decide, by decide⟩

/-- A first delay above the default of the largest one is returned as it is;
and a doubling of 2⁶² nanoseconds is negative. -/
theorem backoff_breaks :
    let above := RetryPolicy.normalize { initialBackoff := 2 * minute, maxBackoff := 0, claimTTL := 0 }
    let wrapping := RetryPolicy.normalize
      { initialBackoff := 2 ^ 62, maxBackoff := 2 ^ 63 - 1, claimTTL := 0 }
    above.maxBackoff = minute ∧ backoff above 1 = 2 * minute ∧
      backoff wrapping 2 = -2 ^ 63 := by
  decide +kernel

end PixRail.Messaging
