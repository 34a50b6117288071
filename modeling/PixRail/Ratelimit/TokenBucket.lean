import PixRail.Keyed.Run
import PixRail.Ratelimit.Limiter

/-!
# The rate of the token bucket

`refillIn` and `allowIn` are `refill` and `allow` with the integer operations
as a parameter: those of the machine, or the exact ones.  A refill adds whole
periods, and moves `seenAt` by as many (`refillIn_exact`).  So the instant
`seenAt` is less than one period before the call, and an interval of `n`
periods sees at most `n` refills after the first call in it.  The tokens that
are spent in the interval are then at most a full bucket and `n` refills
(`tokenBucket_rate`).  A run that is short enough for 64 bits is the run of
the code (`serve_machine`).
-/

namespace PixRail.Ratelimit

open Go Keyed

/-- The integer operations of the limiters. -/
structure Arith where
  /-- `time.Time.Sub`. -/
  sub : Time → Time → Duration
  /-- The value of a sum or a product. -/
  int : Int → Int

/-- The operations of the machine. -/
def Arith.machine : Arith := ⟨timeSub, wrap64⟩

/-- The operations without a bound. -/
def Arith.exact : Arith := ⟨fun t u => t - u, fun n => n⟩

/-- `Bucket.refill` with the operations of `A`. -/
def Bucket.refillIn (A : Arith) (config : BucketConfig) (b : Bucket) (now : Time) : Bucket :=
  let elapsed := A.sub now b.seenAt
  if elapsed ≥ config.refillEvery then
    let periods := elapsed.tdiv config.refillEvery
    let tokens := A.int (b.tokens + A.int (periods * config.refillTokens))
    { tokens := if tokens > config.capacity then config.capacity else tokens
      seenAt := b.seenAt + A.int (periods * config.refillEvery) }
  else b

/-- `Bucket.allow` with the operations of `A`. -/
def Bucket.allowIn (A : Arith) (config : BucketConfig) (now : Time) :
    Option Bucket → Bool × Bucket
  | none => (true, { tokens := config.capacity - 1, seenAt := now })
  | some b =>
    let b := b.refillIn A config now
    if b.tokens ≤ 0 then (false, b) else (true, { b with tokens := b.tokens - 1 })

/-- `Limiter.Allow` with the operations of `A`. -/
def Limiter.allowIn (A : Arith) (l : Limiter) (now : Time) (key : GoString) : Bool × Limiter :=
  let answer := Bucket.allowIn A l.config now (l.buckets.lookup key)
  (answer.1, { l with buckets := l.buckets.insert key answer.2 })

/-- The code is the instance with the operations of the machine. -/
theorem allowIn_machine : Limiter.allowIn .machine = Limiter.allow := by
  funext l now key
  unfold Limiter.allowIn Limiter.allow Bucket.allowIn Bucket.allow
  rfl

theorem allowIn_perKey (A : Arith) : PerKey (Limiter.allowIn A) Limiter.config
    (fun l key => l.buckets.lookup key) (Bucket.allowIn A) where
  config_eq _ _ _ := rfl
  answer _ _ _ := rfl
  entry_self _ _ _ := Finmap.lookup_insert _
  entry_ne _ _ _ _ hne := Finmap.lookup_insert_of_ne _ hne

/-! ## Configurations -/

/-- What `New` makes sure of. -/
structure BucketConfig.Normal (config : BucketConfig) : Prop where
  capacity : 0 < config.capacity
  refillTokens : 0 < config.refillTokens
  refillEvery : 0 < config.refillEvery

theorem BucketConfig.withDefaults_normal (config : BucketConfig) : config.withDefaults.Normal := by
  have hcapacity : 0 < config.withDefaults.capacity := by
    unfold withDefaults
    dsimp only
    split <;> omega
  refine ⟨hcapacity, ?_, ?_⟩
  · show 0 < if config.refillTokens ≤ 0 then config.withDefaults.capacity else config.refillTokens
    split <;> omega
  · show 0 < if config.refillEvery ≤ 0 then minute else config.refillEvery
    unfold minute second
    split <;> lia

/-! ## One bucket -/

/-- The periods in the time since the last refill. -/
theorem tdiv_spec (elapsed : Int) {every : Int} (helapsed : 0 ≤ elapsed) (hevery : 0 < every) :
    0 ≤ elapsed.tdiv every ∧ elapsed.tdiv every * every ≤ elapsed ∧
      elapsed < elapsed.tdiv every * every + every := by
  have hfloor := Int.ediv_mul_le elapsed hevery.ne'
  have hceil := Int.lt_ediv_add_one_mul_self elapsed hevery
  rw [Int.add_mul, Int.one_mul] at hceil
  rw [Int.tdiv_eq_ediv_of_nonneg helapsed]
  exact ⟨Int.ediv_nonneg helapsed hevery.le, hfloor, hceil⟩

/-- A refill of `p` periods.  The bucket that it leaves was refilled less than
one period ago. -/
theorem refillIn_exact {config : BucketConfig} (hc : config.Normal) {b : Bucket} {now : Time}
    (htokens : b.tokens ≤ config.capacity) (hseen : b.seenAt ≤ now) :
    ∃ p : Int, 0 ≤ p ∧
      b.refillIn .exact config now =
        { tokens := min config.capacity (b.tokens + p * config.refillTokens)
          seenAt := b.seenAt + p * config.refillEvery } ∧
      b.seenAt + p * config.refillEvery ≤ now ∧
      now < b.seenAt + p * config.refillEvery + config.refillEvery := by
  obtain ⟨hp, hfloor, hceil⟩ :=
    tdiv_spec (now - b.seenAt) (by lia) hc.refillEvery
  by_cases hlong : now - b.seenAt ≥ config.refillEvery
  · refine ⟨(now - b.seenAt).tdiv config.refillEvery, hp, ?_, by lia, by lia⟩
    unfold Bucket.refillIn Arith.exact
    dsimp only
    rw [if_pos hlong]
    congr 1
    split <;> omega
  · refine ⟨0, le_rfl, ?_, by lia, by lia⟩
    unfold Bucket.refillIn Arith.exact
    dsimp only
    rw [if_neg hlong, Int.zero_mul, Int.zero_mul, Int.add_zero, Int.add_zero,
      min_eq_right htokens]

theorem allowIn_refuse {A : Arith} {config : BucketConfig} {b : Bucket} {now : Time}
    (h : (b.refillIn A config now).tokens ≤ 0) :
    Bucket.allowIn A config now (some b) = (false, b.refillIn A config now) :=
  if_pos h

theorem allowIn_grant {A : Arith} {config : BucketConfig} {b : Bucket} {now : Time}
    (h : ¬ (b.refillIn A config now).tokens ≤ 0) :
    Bucket.allowIn A config now (some b) =
      (true, { b.refillIn A config now with tokens := (b.refillIn A config now).tokens - 1 }) :=
  if_neg h

/-- What holds of every bucket at `now`. -/
structure Bucket.Sound (config : BucketConfig) (now : Time) (b : Bucket) : Prop where
  nonneg : 0 ≤ b.tokens
  le_capacity : b.tokens ≤ config.capacity
  seenAt_le : b.seenAt ≤ now

/-- A key without a bucket is like one with a full bucket. -/
theorem allowIn_none {config : BucketConfig} (hc : config.Normal) (now : Time) :
    Bucket.allowIn .exact config now none =
      Bucket.allowIn .exact config now (some { tokens := config.capacity, seenAt := now }) := by
  have hcapacity := hc.capacity
  have hevery := hc.refillEvery
  have hrefill : Bucket.refillIn .exact config { tokens := config.capacity, seenAt := now } now =
      { tokens := config.capacity, seenAt := now } :=
    if_neg (by show ¬ now - now ≥ config.refillEvery; lia)
  rw [allowIn_grant (by rw [hrefill]; exact not_le.mpr hcapacity), hrefill]
  rfl

theorem sound_full {config : BucketConfig} (hc : config.Normal) (now : Time) :
    Bucket.Sound config now { tokens := config.capacity, seenAt := now } :=
  ⟨hc.capacity.le, le_rfl, le_rfl⟩

theorem Bucket.Sound.refill {config : BucketConfig} {b : Bucket} {now : Time}
    (hb : b.Sound config now) (hc : config.Normal) :
    (b.refillIn .exact config now).Sound config now ∧
      b.seenAt ≤ (b.refillIn .exact config now).seenAt := by
  obtain ⟨p, hp, hrefill, hle, -⟩ := refillIn_exact hc hb.le_capacity hb.seenAt_le
  have hmul := Int.mul_nonneg hp hc.refillTokens.le
  have hmove := Int.mul_nonneg hp hc.refillEvery.le
  have hnonneg := hb.nonneg
  have hcapacity := hc.capacity
  rw [hrefill]
  exact ⟨⟨by dsimp only; omega, min_le_left _ _, hle⟩, by dsimp only; lia⟩

theorem Bucket.Sound.spend {config : BucketConfig} {b : Bucket} {now : Time}
    (hb : b.Sound config now) (h : ¬ b.tokens ≤ 0) :
    Bucket.Sound config now { b with tokens := b.tokens - 1 } := by
  have hle := hb.le_capacity
  exact ⟨by dsimp only; omega, by dsimp only; omega, hb.seenAt_le⟩

theorem Bucket.Sound.call {config : BucketConfig} {b : Bucket} {now : Time}
    (hb : b.Sound config now) (hc : config.Normal) :
    (Bucket.allowIn .exact config now (some b)).2.Sound config now ∧
      b.seenAt ≤ (Bucket.allowIn .exact config now (some b)).2.seenAt := by
  obtain ⟨hsound, hle⟩ := hb.refill hc
  by_cases hempty : (b.refillIn .exact config now).tokens ≤ 0
  · rw [allowIn_refuse hempty]
    exact ⟨hsound, hle⟩
  · rw [allowIn_grant hempty]
    exact ⟨hsound.spend hempty, hle⟩

/-- A call is refused for want of a token, in the period of the last refill. -/
theorem refused {config : BucketConfig} (hc : config.Normal) {b : Bucket} {now : Time}
    (hb : b.Sound config now) (h : (Bucket.allowIn .exact config now (some b)).1 = false) :
    b.tokens = 0 ∧ now - b.seenAt < config.refillEvery := by
  obtain ⟨p, hp, hrefill, -, hlt⟩ := refillIn_exact hc hb.le_capacity hb.seenAt_le
  have hempty : (b.refillIn .exact config now).tokens ≤ 0 := by
    by_contra hpos
    rw [allowIn_grant hpos] at h
    exact Bool.noConfusion h
  have hnonneg := hb.nonneg
  have hcapacity := hc.capacity
  rw [hrefill] at hempty
  replace hempty : b.tokens + p * config.refillTokens ≤ 0 := by
    dsimp only at hempty
    omega
  -- a refill leaves a token, so there was none
  have hzero : p = 0 := by
    by_contra hne
    have hmul : 1 * config.refillTokens ≤ p * config.refillTokens :=
      Int.mul_le_mul_of_nonneg_right (by omega) hc.refillTokens.le
    have htokens := hc.refillTokens
    omega
  subst hzero
  rw [Int.zero_mul] at hempty hlt
  exact ⟨by omega, by lia⟩

/-! ## What an interval can spend -/

/-- The `k` grants from `a` on, and the tokens that are left, come from a full
bucket and `m` refills; the last of the refills is less than `m` periods after
the first instant from `a` on. -/
def Covered (config : BucketConfig) (a : Time) (k : Int) (b : Bucket) : Prop :=
  k = 0 ∨ ∃ m : Int, k + b.tokens ≤ config.capacity + m * config.refillTokens ∧
    a + m * config.refillEvery < b.seenAt + config.refillEvery

section covered

variable {config : BucketConfig} {a now : Time} {k : Int} {b : Bucket}

theorem Covered.refill (h : Covered config a k b) (hc : config.Normal) (hb : b.Sound config now) :
    Covered config a k (b.refillIn .exact config now) := by
  obtain ⟨p, -, hrefill, -, -⟩ := refillIn_exact hc hb.le_capacity hb.seenAt_le
  rw [hrefill]
  refine h.imp_right ?_
  rintro ⟨m, htokens, hseen⟩
  refine ⟨m + p, ?_, ?_⟩
  · rw [Int.add_mul]
    dsimp only
    omega
  · rw [Int.add_mul]
    dsimp only
    lia

/-- A grant at `now`, from `a` on. -/
theorem Covered.grant (h : Covered config a k b) (hb : b.Sound config now) (ha : a ≤ now)
    (hlast : now < b.seenAt + config.refillEvery) :
    Covered config a (k + 1) { b with tokens := b.tokens - 1 } := by
  have hle := hb.le_capacity
  refine .inr ?_
  rcases h with rfl | ⟨m, htokens, hseen⟩
  · refine ⟨0, ?_, ?_⟩
    · dsimp only
      omega
    · dsimp only
      lia
  · refine ⟨m, ?_, hseen⟩
    dsimp only
    omega

/-- A grant that is not counted. -/
theorem Covered.spend (h : Covered config a k b) :
    Covered config a k { b with tokens := b.tokens - 1 } := by
  refine h.imp_right ?_
  rintro ⟨m, htokens, hseen⟩
  refine ⟨m, ?_, hseen⟩
  dsimp only
  omega

/-- Before the end of `n` periods there were no more than `n` refills. -/
theorem Covered.bound (h : Covered config a k b) (hc : config.Normal) (htokens : 0 ≤ b.tokens)
    {n : Nat} (hend : b.seenAt < a + n * config.refillEvery) :
    k ≤ config.capacity + n * config.refillTokens := by
  have hcapacity := hc.capacity
  rcases h with rfl | ⟨m, hm, hseen⟩
  · have hnonneg : 0 ≤ (n : Int) * config.refillTokens :=
      Int.mul_nonneg (Int.natCast_nonneg n) hc.refillTokens.le
    omega
  · have hlt : m * config.refillEvery < (n + 1) * config.refillEvery := by
      rw [Int.add_mul, Int.one_mul]
      lia
    have hmn : m ≤ n := Int.le_of_lt_add_one (Int.lt_of_mul_lt_mul_right hlt hc.refillEvery.le)
    have hmul := Int.mul_le_mul_of_nonneg_right hmn hc.refillTokens.le
    omega

end covered

/-- The invariant of a key: at most a full bucket and `n` refills were granted
in the `n` periods from `a` on, and the bucket covers the rest. -/
def Paid (config : BucketConfig) (a : Time) (n : Nat) (now : Time) (g : List Time)
    (entry : Option Bucket) : Prop :=
  (within a (a + n * config.refillEvery) g : Int) ≤ config.capacity + n * config.refillTokens ∧
    match entry with
    | none => g = []
    | some b => b.Sound config now ∧
      Covered config a (within a (a + n * config.refillEvery) g) b

theorem Paid.wait {config : BucketConfig} {a : Time} {n : Nat} {t t' : Time} {g : List Time}
    {entry : Option Bucket} (hle : t ≤ t') (h : Paid config a n t g entry) :
    Paid config a n t' g entry := by
  cases entry with
  | none => exact h
  | some b =>
    obtain ⟨hbound, hb, hcovered⟩ := h
    exact ⟨hbound, ⟨hb.nonneg, hb.le_capacity, le_trans hb.seenAt_le hle⟩, hcovered⟩

/-- One call keeps the invariant. -/
theorem Paid.call_some {config : BucketConfig} (hc : config.Normal) {a : Time} {n : Nat}
    {t : Time} {g : List Time} {b : Bucket} (h : Paid config a n t g (some b)) :
    Paid config a n t (if (Bucket.allowIn .exact config t (some b)).1 then g ++ [t] else g)
      (some (Bucket.allowIn .exact config t (some b)).2) := by
  obtain ⟨hbound, hb, hcovered⟩ := h
  have hb' := (hb.refill hc).1
  have hcovered' := hcovered.refill hc hb
  have hlast : t < (b.refillIn .exact config t).seenAt + config.refillEvery := by
    obtain ⟨p, -, hrefill, -, hlt⟩ := refillIn_exact hc hb.le_capacity hb.seenAt_le
    rw [hrefill]
    exact hlt
  by_cases hempty : (b.refillIn .exact config t).tokens ≤ 0
  · rw [allowIn_refuse hempty]
    exact ⟨hbound, hb', hcovered'⟩
  · rw [allowIn_grant hempty]
    generalize b.refillIn .exact config t = b' at hb' hcovered' hlast hempty
    have hspent := hb'.spend hempty
    show Paid config a n t (g ++ [t]) _
    by_cases hin : a ≤ t ∧ t < a + n * config.refillEvery
    · have hgrant := hcovered'.grant hb' hin.1 hlast
      unfold Paid
      rw [within_snoc_inside hin.1 hin.2]
      exact ⟨hgrant.bound hc hspent.nonneg (lt_of_le_of_lt hb'.seenAt_le hin.2), hspent, hgrant⟩
    · unfold Paid
      rw [within_snoc_outside hin]
      exact ⟨hbound, hspent, hcovered'.spend⟩

theorem Paid.call {config : BucketConfig} (hc : config.Normal) {a : Time} {n : Nat} {t : Time}
    {g : List Time} {entry : Option Bucket} (h : Paid config a n t g entry) :
    Paid config a n t (if (Bucket.allowIn .exact config t entry).1 then g ++ [t] else g)
      (some (Bucket.allowIn .exact config t entry).2) := by
  cases entry with
  | some b => exact h.call_some hc
  | none =>
    obtain ⟨hbound, rfl⟩ := h
    rw [allowIn_none hc]
    exact Paid.call_some hc ⟨hbound, sound_full hc t, .inl rfl⟩

/-- In `n` periods a key is granted at most a full bucket and `n` refills; a
bucket has between none and all of its tokens; and a call is refused only if
the tokens of its key are spent and the last refill is less than one period
ago. -/
theorem tokenBucket_rate (config : BucketConfig) (calls : List (Call GoString))
    (hclock : Clock calls) :
    let c := (Limiter.new config).config
    let run := serve (Limiter.allowIn .exact) (Limiter.new config) calls
    (∀ (key : GoString) (n : Nat) (a : Time),
      (within a (a + n * c.refillEvery) (granted key run.1) : Int) ≤
        c.capacity + n * c.refillTokens) ∧
    (∀ key b, run.2.buckets.lookup key = some b → 0 ≤ b.tokens ∧ b.tokens ≤ c.capacity) ∧
    ∀ key now, (∀ call ∈ calls, call.time ≤ now) →
      (run.2.allowIn .exact now key).1 = false →
      ∃ b, run.2.buckets.lookup key = some b ∧ b.tokens = 0 ∧
        now - b.seenAt < c.refillEvery := by
  intro c run
  have hc : c.Normal := config.withDefaults_normal
  have hpaid : ∀ key n a now, (∀ call ∈ calls, call.time ≤ now) →
      Paid c a n now (granted key run.1) (run.2.buckets.lookup key) := by
    intro key n a now hnow
    refine (allowIn_perKey .exact).invariant (Finmap.lookup_empty key) (Paid c a n) ?_
      (fun hle h => h.wait hle) (fun _ h => h.call hc) hclock hnow
    intro t
    have hcapacity := hc.capacity
    have hmul : 0 ≤ (n : Int) * c.refillTokens :=
      Int.mul_nonneg (Int.natCast_nonneg n) hc.refillTokens.le
    refine ⟨?_, rfl⟩
    show (0 : Int) ≤ _
    omega
  obtain ⟨last, hlast⟩ := exists_bound calls
  refine ⟨fun key n a => (hpaid key n a last hlast).1, ?_, ?_⟩
  · intro key b hb
    have h := (hpaid key 0 0 last hlast).2
    rw [hb] at h
    exact ⟨h.1.nonneg, h.1.le_capacity⟩
  · intro key now hnow hrefused
    have h := (hpaid key 0 0 now hnow).2
    rw [(allowIn_perKey .exact).answer, (allowIn_perKey .exact).serve_config] at hrefused
    cases hentry : run.2.buckets.lookup key with
    | none =>
      rw [hentry] at hrefused
      exact Bool.noConfusion hrefused
    | some b =>
      rw [hentry] at h hrefused
      exact ⟨b, rfl, refused hc h.1 hrefused⟩

/-- The third call of a second is over the capacity of two, and has to wait
for the refill. -/
theorem tokenBucket_rate_test :
    let config : BucketConfig := { capacity := 2, refillTokens := 1, refillEvery := second }
    let calls : List (Call GoString) :=
      [⟨unixEpoch, go "k"⟩, ⟨unixEpoch, go "k"⟩, ⟨unixEpoch, go "k"⟩,
        ⟨unixEpoch + second, go "k"⟩]
    let run := serve (Limiter.allowIn .exact) (Limiter.new config) calls
    run.1.map (·.2) = [true, true, false, true] ∧
      (within unixEpoch (unixEpoch + (2 : Nat) * second) (granted (go "k") run.1) : Int) ≤
        2 + (2 : Nat) * 1 :=
  ⟨by decide +kernel,
    (tokenBucket_rate { capacity := 2, refillTokens := 1, refillEvery := second }
      [⟨unixEpoch, go "k"⟩, ⟨unixEpoch, go "k"⟩, ⟨unixEpoch, go "k"⟩,
        ⟨unixEpoch + second, go "k"⟩] (by decide)).1 (go "k") 2 unixEpoch⟩

/-! ## The machine -/

/-- No sum or product of a run over `span` nanoseconds is too large for the
machine. -/
structure BucketConfig.Fits (config : BucketConfig) (span : Int) : Prop where
  span_lt : span < 2 ^ 63
  tokens_lt : span / config.refillEvery * config.refillTokens + config.capacity < 2 ^ 63

theorem refillIn_machine {config : BucketConfig} (hc : config.Normal) {span : Int}
    (hfits : config.Fits span) {b : Bucket} {now : Int} (hb : b.Sound config now)
    (hspan : now - b.seenAt ≤ span) :
    b.refillIn .machine config now = b.refillIn .exact config now := by
  have hseen : b.seenAt ≤ now := hb.seenAt_le
  have htokens := hb.le_capacity
  have hnonneg := hb.nonneg
  have hlarge := hfits.span_lt
  have hsub : timeSub now b.seenAt = now - b.seenAt := timeSub_of_fits hseen (by lia)
  obtain ⟨hp, hfloor, -⟩ := tdiv_spec (now - b.seenAt) (by lia) hc.refillEvery
  have hmore : (now - b.seenAt).tdiv config.refillEvery * config.refillTokens ≤
      span / config.refillEvery * config.refillTokens := by
    rw [Int.tdiv_eq_ediv_of_nonneg (by lia)]
    exact Int.mul_le_mul_of_nonneg_right (Int.ediv_le_ediv hc.refillEvery hspan)
      hc.refillTokens.le
  have hadd := Int.mul_nonneg hp hc.refillTokens.le
  have hmove := Int.mul_nonneg hp hc.refillEvery.le
  have hsum := hfits.tokens_lt
  have hcapacity := hc.capacity
  unfold Bucket.refillIn Arith.machine Arith.exact
  dsimp only
  rw [hsub, wrap64_of_fits (n := _ * config.refillTokens) (by omega) (by omega),
    wrap64_of_fits (n := b.tokens + _) (by omega) (by omega),
    wrap64_of_fits (n := _ * config.refillEvery) (by lia) (by lia)]

/-- Every bucket is sound, and none was refilled before `first`. -/
def Limiter.Ready (l : Limiter) (first now : Int) : Prop :=
  l.config.Normal ∧ ∀ key b, l.buckets.lookup key = some b →
    b.Sound l.config now ∧ first ≤ b.seenAt

/-- The entry that a call leaves. -/
theorem entry_ready {config : BucketConfig} (hc : config.Normal) {first now : Int}
    (hfirst : first ≤ now) {entry : Option Bucket}
    (h : ∀ b, entry = some b → b.Sound config now ∧ first ≤ b.seenAt) :
    (Bucket.allowIn .exact config now entry).2.Sound config now ∧
      first ≤ (Bucket.allowIn .exact config now entry).2.seenAt := by
  cases entry with
  | none =>
    rw [allowIn_none hc]
    obtain ⟨hsound, hle⟩ := (sound_full hc now).call hc
    exact ⟨hsound, le_trans hfirst hle⟩
  | some b =>
    obtain ⟨hb, hseen⟩ := h b rfl
    obtain ⟨hsound, hle⟩ := hb.call hc
    exact ⟨hsound, le_trans hseen hle⟩

theorem Limiter.Ready.allow {l : Limiter} {first now : Int} (h : l.Ready first now)
    {t : Int} (ht : now ≤ t) (hfirst : first ≤ t) {span : Int} (hspan : t ≤ first + span)
    (hfits : l.config.Fits span) (key : GoString) :
    l.allow t key = l.allowIn .exact t key ∧ (l.allowIn .exact t key).2.Ready first t := by
  obtain ⟨hc, hbuckets⟩ := h
  have hlater : ∀ key b, l.buckets.lookup key = some b → b.Sound l.config t ∧ first ≤ b.seenAt := by
    intro key b hb
    obtain ⟨hsound, hseen⟩ := hbuckets key b hb
    exact ⟨⟨hsound.nonneg, hsound.le_capacity, le_trans hsound.seenAt_le ht⟩, hseen⟩
  constructor
  · rw [← allowIn_machine]
    have hrule : Bucket.allowIn .machine l.config t (l.buckets.lookup key) =
        Bucket.allowIn .exact l.config t (l.buckets.lookup key) := by
      cases hentry : l.buckets.lookup key with
      | none => rfl
      | some b =>
        obtain ⟨hb, hseen⟩ := hlater key b hentry
        unfold Bucket.allowIn
        dsimp only
        rw [refillIn_machine hc hfits hb (by lia)]
    unfold Limiter.allowIn
    rw [hrule]
  · refine ⟨hc, fun key' b hb => ?_⟩
    rcases lookup_insert_eq_some.mp hb with ⟨-, rfl⟩ | ⟨-, hold⟩
    · exact entry_ready hc hfirst (hlater key)
    · exact hlater key' b hold

/-- A run that fits is the run of the code. -/
theorem serve_machine {l : Limiter} {first now span : Int} (hready : l.Ready first now)
    (hfits : l.config.Fits span) {calls : List (Call GoString)} (hclock : Clock calls)
    (hstart : ∀ c ∈ calls, now ≤ c.time)
    (hspan : ∀ c ∈ calls, first ≤ c.time ∧ c.time ≤ first + span) :
    serve Limiter.allow l calls = serve (Limiter.allowIn .exact) l calls := by
  induction calls generalizing l now with
  | nil => rfl
  | cons c calls ih =>
    obtain ⟨hlater, hrest⟩ := List.pairwise_cons.mp hclock
    obtain ⟨hc, hcalls⟩ := List.forall_mem_cons.mp hspan
    obtain ⟨hallow, hready'⟩ := hready.allow (hstart c List.mem_cons_self) hc.1 hc.2 hfits c.key
    unfold serve
    rw [hallow]
    dsimp only
    rw [ih hready' hfits hrest hlater hcalls]

end PixRail.Ratelimit
