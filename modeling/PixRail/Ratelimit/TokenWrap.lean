import PixRail.Ratelimit.TokenBucket

/-!
# The token bucket on the machine

A refill is computed before it is cut to the capacity: the periods since
`seenAt` times the tokens of one, plus the tokens that are left.  With a large
bucket that sum does not fit an `int`.  It then wraps, and the bucket is
empty, or below empty, when it should be full (`tokenBucket_wraps`).  As long
as the sum fits at every call, a bucket has between none and all of its
tokens, and a period after the last refill there is one (`tokenBucket_safe`).
-/

namespace PixRail.Ratelimit

open Go Keyed

/-- The refill of a call at `now` fits an `int`. -/
def Bucket.Fits (config : BucketConfig) (now : Time) (b : Bucket) : Prop :=
  b.tokens + (timeSub now b.seenAt).tdiv config.refillEvery * config.refillTokens < 2 ^ 63

instance (config : BucketConfig) (now : Time) (b : Bucket) : Decidable (b.Fits config now) :=
  inferInstanceAs (Decidable (_ < _))

/-- The time since an earlier instant, as a `Duration`. -/
theorem timeSub_past {t u : Int} (h : u ≤ t) :
    0 ≤ timeSub t u ∧ timeSub t u ≤ t - u ∧ timeSub t u < 2 ^ 63 := by
  unfold timeSub Duration
  omega

/-- A refill of `p` periods on the machine. -/
theorem Bucket.Sound.refill_eq {config : BucketConfig} (hc : config.Normal) {b : Bucket}
    {now : Int} (hb : b.Sound config now) (hfits : b.Fits config now) :
    ∃ p : Int, 0 ≤ p ∧
      b.refill config now =
        { tokens := min config.capacity (b.tokens + p * config.refillTokens)
          seenAt := b.seenAt + p * config.refillEvery } ∧
      b.seenAt + p * config.refillEvery ≤ now ∧
      (config.refillEvery ≤ timeSub now b.seenAt → 1 ≤ p) := by
  have hseen := hb.seenAt_le
  have htokens := hb.nonneg
  obtain ⟨hnonneg, hle, hlt⟩ := timeSub_past hseen
  obtain ⟨hp, hfloor, hceil⟩ := tdiv_spec (timeSub now b.seenAt) hnonneg hc.refillEvery
  have hmul := Int.mul_nonneg hp hc.refillTokens.le
  have hmove := Int.mul_nonneg hp hc.refillEvery.le
  unfold Bucket.Fits at hfits
  unfold Bucket.refill
  dsimp only
  generalize timeSub now b.seenAt = elapsed at *
  split
  · refine ⟨elapsed.tdiv config.refillEvery, hp, ?_, by lia, fun hlong => ?_⟩
    · rw [wrap64_of_fits (n := _ * config.refillTokens) (by omega) (by omega),
        wrap64_of_fits (by omega) hfits, wrap64_of_fits (by lia) (by lia)]
      congr 1
      split <;> omega
    · by_contra hzero
      rw [show elapsed.tdiv config.refillEvery = 0 by omega, Int.zero_mul] at hceil
      lia
  · rename_i hshort
    refine ⟨0, le_rfl, ?_, ?_, fun hlong => absurd hlong hshort⟩
    · rw [Int.zero_mul, Int.zero_mul, Int.add_zero, Int.add_zero, min_eq_right hb.le_capacity]
    · rw [Int.zero_mul, Int.add_zero]
      exact hseen

/-- A call whose refill fits keeps the bucket in range. -/
theorem Bucket.Sound.allow {config : BucketConfig} (hc : config.Normal) {b : Bucket} {now : Int}
    (hb : b.Sound config now) (hfits : b.Fits config now) :
    (Bucket.allow config now (some b)).2.Sound config now := by
  obtain ⟨p, hp, hrefill, hle, -⟩ := hb.refill_eq hc hfits
  have hmul := Int.mul_nonneg hp hc.refillTokens.le
  have hnonneg := hb.nonneg
  have hcapacity := hc.capacity
  have hsound : (b.refill config now).Sound config now := by
    rw [hrefill]
    exact ⟨by dsimp only; omega, min_le_left _ _, hle⟩
  unfold Bucket.allow
  dsimp only
  split
  · exact hsound
  · rename_i hsome
    exact hsound.spend hsome

/-- A period after the last refill there is a token. -/
theorem Bucket.Sound.allowed {config : BucketConfig} (hc : config.Normal) {b : Bucket} {now : Int}
    (hb : b.Sound config now) (hfits : b.Fits config now)
    (hlong : config.refillEvery ≤ timeSub now b.seenAt) :
    (Bucket.allow config now (some b)).1 = true := by
  obtain ⟨p, -, hrefill, -, hperiod⟩ := hb.refill_eq hc hfits
  have hone := Int.mul_le_mul_of_nonneg_right (hperiod hlong) hc.refillTokens.le
  have hnonneg := hb.nonneg
  have hcapacity := hc.capacity
  have htokens := hc.refillTokens
  have hsome : ¬ (b.refill config now).tokens ≤ 0 := by
    rw [hrefill]
    dsimp only
    omega
  unfold Bucket.allow
  dsimp only
  rw [if_neg hsome]

/-- Every bucket of the limiter is in range at `now`. -/
def Limiter.InRange (now : Time) (l : Limiter) : Prop :=
  l.config.Normal ∧ ∀ key b, l.buckets.lookup key = some b → b.Sound l.config now

theorem Limiter.InRange.wait {now now' : Time} {l : Limiter} (hle : now ≤ now')
    (h : l.InRange now) : l.InRange now' := by
  refine ⟨h.1, fun key b hb => ?_⟩
  obtain ⟨hnonneg, hcapacity, hseen⟩ := h.2 key b hb
  exact ⟨hnonneg, hcapacity, le_trans hseen hle⟩

theorem Limiter.InRange.allow {now : Time} {l : Limiter} {key : GoString} (h : l.InRange now)
    (hfits : ∀ b, l.buckets.lookup key = some b → b.Fits l.config now) :
    (l.allow now key).2.InRange now := by
  obtain ⟨hc, hsound⟩ := h
  refine ⟨hc, fun key' b hb => ?_⟩
  by_cases hkey : key' = key
  · subst hkey
    replace hb : (l.buckets.insert key' _).lookup key' = some b := hb
    rw [Finmap.lookup_insert, Option.some.injEq] at hb
    subst hb
    cases hentry : l.buckets.lookup key' with
    | none =>
      have hcapacity := hc.capacity
      exact ⟨by show 0 ≤ l.config.capacity - 1; omega,
        by show l.config.capacity - 1 ≤ l.config.capacity; omega, le_refl now⟩
    | some b => exact (hsound key' b hentry).allow hc (hfits b hentry)
  · replace hb : (l.buckets.insert key _).lookup key' = some b := hb
    rw [Finmap.lookup_insert_of_ne _ hkey] at hb
    exact hsound key' b hb

/-- The limiter that `New` makes, after calls. -/
def Limiter.after (config : BucketConfig) (calls : List (Call GoString)) : Limiter :=
  (serve Limiter.allow (Limiter.new config) calls).2

theorem after_config (config : BucketConfig) (calls : List (Call GoString)) :
    (Limiter.after config calls).config = config.withDefaults := by
  have h := (allowIn_perKey .machine).serve_config (Limiter.new config) calls
  rw [allowIn_machine] at h
  exact h

/-- In a run in which every refill fits an `int`, every bucket has between
none and all of its tokens, and a call that comes a period or more after
`seenAt` is allowed. -/
theorem tokenBucket_safe (config : BucketConfig) (hint : config.refillEvery < 2 ^ 63)
    (calls : List (Call GoString)) (hclock : Clock calls)
    (hfits : ∀ pre c post, calls = pre ++ c :: post →
      ∀ b, (Limiter.after config pre).buckets.lookup c.key = some b →
        b.Fits config.withDefaults c.time) :
    (∀ pre post, calls = pre ++ post →
      ∀ key b, (Limiter.after config pre).buckets.lookup key = some b →
        0 ≤ b.tokens ∧ b.tokens ≤ config.withDefaults.capacity) ∧
    ∀ pre c post, calls = pre ++ c :: post →
      ∀ b, (Limiter.after config pre).buckets.lookup c.key = some b →
        b.seenAt + config.withDefaults.refillEvery ≤ c.time →
        ((Limiter.after config pre).allow c.time c.key).1 = true := by
  have hc := config.withDefaults_normal
  -- a prefix of the run keeps the buckets in range
  have hrange : ∀ pre post, calls = pre ++ post → ∀ now, (∀ c ∈ pre, c.time ≤ now) →
      (Limiter.after config pre).InRange now := by
    intro pre post hsplit now hnow
    rw [hsplit] at hclock
    refine serve_invariant Limiter.InRange (fun t => ⟨hc, ?_⟩) Limiter.InRange.wait
      (List.pairwise_append.mp hclock).1 ?_ hnow
    · intro key b hb
      exact nomatch (Finmap.lookup_empty key).symm.trans hb
    · intro pre' c post' hsplit' hbefore
      refine hbefore.allow fun b hb => ?_
      have hconfig := after_config config pre'
      unfold Limiter.after at hconfig
      rw [hconfig]
      exact hfits pre' c (post' ++ post) (by rw [hsplit, hsplit']; simp) b hb
  constructor
  · intro pre post hsplit key b hb
    obtain ⟨now, hnow⟩ := exists_bound pre
    have hsound := (hrange pre post hsplit now hnow).2 key b hb
    rw [after_config] at hsound
    exact ⟨hsound.nonneg, hsound.le_capacity⟩
  · intro pre c post hsplit b hb hlong
    have hbefore : ∀ c' ∈ pre, c'.time ≤ c.time := by
      rw [hsplit] at hclock
      exact fun c' hc' => (List.pairwise_append.mp hclock).2.2 c' hc' c List.mem_cons_self
    have hsound := (hrange pre (c :: post) hsplit c.time hbefore).2 c.key b hb
    rw [after_config] at hsound
    have hevery : config.withDefaults.refillEvery < 2 ^ 63 := by
      show (if config.refillEvery ≤ 0 then minute else config.refillEvery) < 2 ^ 63
      unfold minute second
      split <;> lia
    have helapsed : config.withDefaults.refillEvery ≤ timeSub c.time b.seenAt := by
      unfold timeSub
      lia
    show (Bucket.allow (Limiter.after config pre).config c.time _).1 = true
    rw [after_config, hb]
    exact hsound.allowed hc (hfits pre c post hsplit b hb) helapsed

/-- A bucket of two tokens, and a call two minutes after the first. -/
theorem tokenBucket_safe_test :
    let config : BucketConfig := { capacity := 2, refillTokens := 2, refillEvery := minute }
    let first : Call GoString := ⟨unixEpoch, go "k"⟩
    let second : Call GoString := ⟨unixEpoch + 2 * minute, go "k"⟩
    ((Limiter.after config [first]).allow second.time second.key).1 = true := by
  intro config first second
  have hbucket : (Limiter.after config [first]).buckets.lookup (go "k") = some ⟨1, unixEpoch⟩ := by
    decide +kernel
  have hfits : ∀ pre c post, [first, second] = pre ++ c :: post →
      ∀ b, (Limiter.after config pre).buckets.lookup c.key = some b →
        b.Fits config.withDefaults c.time := by
    intro pre c post h b hb
    rcases pre with _ | ⟨c₁, _ | ⟨c₂, pre⟩⟩
    · exact nomatch (Finmap.lookup_empty c.key).symm.trans hb
    · obtain ⟨hfirst, hrest⟩ := List.cons.inj h
      obtain ⟨hsecond, -⟩ := List.cons.inj hrest
      rw [← hfirst, ← hsecond] at hb
      obtain rfl := Option.some.inj (hbucket.symm.trans hb)
      rw [← hsecond]
      decide
    · have hlen := congrArg List.length h
      simp at hlen
  exact (tokenBucket_safe config (by decide) [first, second] (by decide) hfits).2 [first] second []
    rfl _ hbucket (by decide)

/-- A bucket of 2⁶² tokens that is refilled once a minute.  Two minutes of
idling add 2⁶³ tokens, which is a negative number, and the call is refused. -/
theorem tokenBucket_wraps :
    let config : BucketConfig := { capacity := 2 ^ 62, refillTokens := 2 ^ 62, refillEvery := minute }
    let calls : List (Call GoString) :=
      [⟨unixEpoch, go "tenant"⟩, ⟨unixEpoch + 2 * minute, go "tenant"⟩]
    (serve Limiter.allow (Limiter.new config) calls).1.map (·.2) = [true, false] ∧
      (Limiter.after config calls).buckets.lookup (go "tenant") =
        some { tokens := -2 ^ 62 - 1, seenAt := unixEpoch + 2 * minute } := by
  decide +kernel

end PixRail.Ratelimit
