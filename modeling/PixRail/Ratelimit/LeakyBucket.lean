import PixRail.Ratelimit.TokenBucket

/-!
# The leaky bucket

`LeakyBucketLimiter`.  The level of a bucket falls by one in each period and
rises by one with each call that is allowed.  With one token in each period,
the tokens of the token bucket are what is missing to a full leaky bucket:
the two limiters take the same steps (`leakyBucket_simulates`).

The leaky bucket takes a `seenAt` that is the zero time for a key that it has
not seen.  No clock reading is the zero time, but `seenAt` moves by whole
periods, and meets it if the first call on a key is a whole number of periods
before it and a later one is after it (`leakyBucket_forgets`).
-/

namespace PixRail.Ratelimit

open Go Keyed

structure LeakyBucketConfig where
  capacity : Int
  leakEvery : Duration
  deriving DecidableEq

structure LeakyBucket where
  level : Int
  seenAt : Time
  deriving DecidableEq

structure LeakyBucketLimiter where
  config : LeakyBucketConfig
  buckets : GoMap GoString LeakyBucket

/-- The defaults of `NewLeakyBucket`. -/
def LeakyBucketConfig.withDefaults (config : LeakyBucketConfig) : LeakyBucketConfig where
  capacity := if config.capacity ≤ 0 then 60 else config.capacity
  leakEvery := if config.leakEvery ≤ 0 then second else config.leakEvery

/-- `NewLeakyBucket`. -/
def LeakyBucketLimiter.new (config : LeakyBucketConfig) : LeakyBucketLimiter where
  config := config.withDefaults
  buckets := ∅

/-- What has leaked since `seenAt`, at the head of `Allow`. -/
def LeakyBucket.leakIn (A : Arith) (config : LeakyBucketConfig) (b : LeakyBucket) (now : Time) :
    LeakyBucket :=
  let elapsed := A.sub now b.seenAt
  if elapsed ≥ config.leakEvery then
    let leaked := elapsed.tdiv config.leakEvery
    let level := A.int (b.level - leaked)
    { level := if level < 0 then 0 else level
      seenAt := b.seenAt + A.int (leaked * config.leakEvery) }
  else b

/-- `Allow` on the bucket of its key.  A key without one has the zero value. -/
def LeakyBucket.allowIn (A : Arith) (config : LeakyBucketConfig) (now : Time)
    (entry : Option LeakyBucket) : Bool × LeakyBucket :=
  let bucket := entry.getD { level := 0, seenAt := 0 }
  if bucket.seenAt = 0 then (true, { level := 1, seenAt := now })
  else
    let bucket := bucket.leakIn A config now
    if bucket.level ≥ config.capacity then (false, bucket)
    else (true, { bucket with level := bucket.level + 1 })

/-- `LeakyBucketLimiter.Allow` with the operations of `A`; those of the code
are `Arith.machine`. -/
def LeakyBucketLimiter.allowIn (A : Arith) (l : LeakyBucketLimiter) (now : Time)
    (key : GoString) : Bool × LeakyBucketLimiter :=
  let answer := LeakyBucket.allowIn A l.config now (l.buckets.lookup key)
  (answer.1, { l with buckets := l.buckets.insert key answer.2 })

theorem leakyBucket_perKey (A : Arith) : PerKey (LeakyBucketLimiter.allowIn A)
    LeakyBucketLimiter.config (fun l key => l.buckets.lookup key) (LeakyBucket.allowIn A) where
  config_eq _ _ _ := rfl
  answer _ _ _ := rfl
  entry_self _ _ _ := Finmap.lookup_insert _
  entry_ne _ _ _ _ hne := Finmap.lookup_insert_of_ne _ hne

/-! ## The simulation -/

/-- The level is what is missing to a full bucket of tokens. -/
structure Mirrors (capacity : Int) (b : Bucket) (lb : LeakyBucket) : Prop where
  level : lb.level = capacity - b.tokens
  seenAt : lb.seenAt = b.seenAt

/-- The entries of a key in the two limiters. -/
inductive Simulates (capacity : Int) : Option Bucket → Option LeakyBucket → Prop where
  | new : Simulates capacity none none
  | seen {b : Bucket} {lb : LeakyBucket} (h : Mirrors capacity b lb) :
    Simulates capacity (some b) (some lb)

/-- No call on a key is a whole number of periods before the zero time while
another one is after it. -/
def Clear (d : Duration) (calls : List (Call GoString)) : Prop :=
  ∀ c ∈ calls, ∀ c' ∈ calls, c.key = c'.key → c.time < 0 → 0 < c'.time → ¬ d ∣ c.time

instance (d : Duration) (calls : List (Call GoString)) : Decidable (Clear d calls) :=
  inferInstanceAs (Decidable (∀ c ∈ calls, ∀ c' ∈ calls, c.key = c'.key → c.time < 0 →
    0 < c'.time → ¬ d ∣ c.time))

/-- The token bucket with one token in each period. -/
def oneToken (capacity : Int) (d : Duration) : BucketConfig where
  capacity := capacity
  refillTokens := 1
  refillEvery := d

theorem oneToken_normal {capacity d : Int} (hcapacity : 0 < capacity) (hd : 0 < d) :
    (oneToken capacity d).Normal :=
  ⟨hcapacity, Int.one_pos, hd⟩

theorem oneToken_withDefaults {capacity d : Int} (hcapacity : 0 < capacity) (hd : 0 < d) :
    (oneToken capacity d).withDefaults = oneToken capacity d := by
  unfold BucketConfig.withDefaults oneToken
  simp only [if_neg (not_le.mpr hcapacity), if_neg (not_le.mpr hd), if_neg (not_le.mpr one_pos)]

theorem leaky_withDefaults {capacity d : Int} (hcapacity : 0 < capacity) (hd : 0 < d) :
    LeakyBucketConfig.withDefaults { capacity := capacity, leakEvery := d } =
      { capacity := capacity, leakEvery := d } := by
  unfold LeakyBucketConfig.withDefaults
  simp only [if_neg (not_le.mpr hcapacity), if_neg (not_le.mpr hd)]

/-- A leak is a refill. -/
theorem Mirrors.leak {capacity : Int} {b : Bucket} {lb : LeakyBucket}
    (h : Mirrors capacity b lb) (d : Duration) (now : Time) :
    Mirrors capacity (b.refillIn .exact (oneToken capacity d) now)
      (lb.leakIn .exact { capacity := capacity, leakEvery := d } now) := by
  have hlevel := h.level
  unfold Bucket.refillIn LeakyBucket.leakIn Arith.exact oneToken
  dsimp only
  rw [h.seenAt, Int.mul_one]
  by_cases hlong : now - b.seenAt ≥ d
  · rw [if_pos hlong, if_pos hlong]
    refine ⟨?_, rfl⟩
    dsimp only
    split <;> split <;> omega
  · rw [if_neg hlong, if_neg hlong]
    exact h

/-- Both limiters refuse, or both take one. -/
theorem Mirrors.call {capacity : Int} {b : Bucket} {lb : LeakyBucket} (h : Mirrors capacity b lb)
    (hseen : b.seenAt ≠ 0) (d : Duration) (now : Time) :
    (Bucket.allowIn .exact (oneToken capacity d) now (some b)).1 =
        (LeakyBucket.allowIn .exact { capacity := capacity, leakEvery := d } now (some lb)).1 ∧
      Mirrors capacity (Bucket.allowIn .exact (oneToken capacity d) now (some b)).2
        (LeakyBucket.allowIn .exact { capacity := capacity, leakEvery := d } now (some lb)).2 := by
  have hleak := h.leak d now
  have hlevel := hleak.level
  unfold LeakyBucket.allowIn
  rw [Option.getD_some, if_neg (by rw [h.seenAt]; exact hseen)]
  dsimp only
  by_cases hempty : (b.refillIn .exact (oneToken capacity d) now).tokens ≤ 0
  · rw [allowIn_refuse hempty, if_pos (by omega)]
    exact ⟨rfl, hleak⟩
  · rw [allowIn_grant hempty, if_neg (by omega)]
    exact ⟨rfl, by dsimp only; omega, hleak.seenAt⟩

/-- `seenAt` moves by whole periods. -/
theorem dvd_seenAt {config : BucketConfig} (hc : config.Normal) {b : Bucket} {now : Time}
    (hb : b.Sound config now) :
    config.refillEvery ∣ (Bucket.allowIn .exact config now (some b)).2.seenAt - b.seenAt := by
  obtain ⟨p, -, hrefill, -, -⟩ := refillIn_exact hc hb.le_capacity hb.seenAt_le
  have hseen : (Bucket.allowIn .exact config now (some b)).2.seenAt =
      b.seenAt + p * config.refillEvery := by
    by_cases hempty : (b.refillIn .exact config now).tokens ≤ 0
    · rw [allowIn_refuse hempty, hrefill]
    · rw [allowIn_grant hempty, hrefill]
  rw [hseen, add_sub_cancel_left]
  exact Dvd.intro_left p rfl

/-- A bucket of tokens after calls at the times `past`: `seenAt` is a whole
number of periods after one of them, and is not the zero time. -/
structure OnGrid (capacity : Int) (d : Duration) (past : List Time) (b : Bucket) : Prop where
  sound : ∃ last ∈ past, b.Sound (oneToken capacity d) last
  grid : ∃ first ∈ past, first ≤ b.seenAt ∧ d ∣ b.seenAt - first
  ne_zero : b.seenAt ≠ 0

section grid

variable {capacity d : Int} {past : List Time} {t : Time}

/-- The first call on a key. -/
theorem onGrid_new (hcapacity : 0 < capacity) (ht : t ≠ 0) :
    OnGrid capacity d (past ++ [t]) { tokens := capacity - 1, seenAt := t } where
  sound := ⟨t, by simp, by dsimp only; omega, by show capacity - 1 ≤ capacity; omega, le_rfl⟩
  grid := ⟨t, by simp, le_rfl, by simp⟩
  ne_zero := ht

/-- A later call does not move `seenAt` to the zero time. -/
theorem OnGrid.call (hcapacity : 0 < capacity) (hd : 0 < d) {b : Bucket}
    (h : OnGrid capacity d past b) (hpast : ∀ u ∈ past, u ≤ t ∧ u ≠ 0) (ht : t ≠ 0)
    (hclear : ∀ u ∈ past, u < 0 → 0 < t → ¬ d ∣ u) :
    OnGrid capacity d (past ++ [t])
      (Bucket.allowIn .exact (oneToken capacity d) t (some b)).2 := by
  have hc := oneToken_normal hcapacity hd
  obtain ⟨last, hlast, hsound⟩ := h.sound
  obtain ⟨first, hfirst, hle, hgrid⟩ := h.grid
  have hb : b.Sound (oneToken capacity d) t :=
    ⟨hsound.nonneg, hsound.le_capacity, le_trans hsound.seenAt_le (hpast last hlast).1⟩
  obtain ⟨hsound', hmove⟩ := hb.call hc
  have hgrid' : d ∣ (Bucket.allowIn .exact (oneToken capacity d) t (some b)).2.seenAt - first := by
    have hsum := Int.dvd_add (dvd_seenAt hc hb) hgrid
    rwa [sub_add_sub_cancel] at hsum
  refine ⟨⟨t, by simp, hsound'⟩, ⟨first, by simp [hfirst], le_trans hle hmove, hgrid'⟩, ?_⟩
  intro hzero
  have hend := hsound'.seenAt_le
  have hfirst0 := (hpast first hfirst).2
  rw [hzero] at hgrid' hmove hend
  have hdvd : d ∣ first := by
    rw [Int.zero_sub] at hgrid'
    exact Int.dvd_neg.mp hgrid'
  exact hclear first hfirst (by lia) (by lia) hdvd

end grid

/-- The entries of a key after calls at the times `past`. -/
inductive Synced (capacity : Int) (d : Duration) (past : List Time) :
    Option Bucket → Option LeakyBucket → Prop where
  | new : Synced capacity d past none none
  | seen {b : Bucket} {lb : LeakyBucket} (h : Mirrors capacity b lb)
    (hgrid : OnGrid capacity d past b) : Synced capacity d past (some b) (some lb)

theorem Synced.simulates {capacity : Int} {d : Duration} {past : List Time} {entry : Option Bucket}
    {lentry : Option LeakyBucket} (h : Synced capacity d past entry lentry) :
    Simulates capacity entry lentry := by
  cases h with
  | new => exact .new
  | seen h _ => exact .seen h

theorem Synced.call {capacity d : Int} (hcapacity : 0 < capacity) (hd : 0 < d)
    {past : List Time} {t : Time} {entry : Option Bucket} {lentry : Option LeakyBucket}
    (h : Synced capacity d past entry lentry) (hpast : ∀ u ∈ past, u ≤ t ∧ u ≠ 0) (ht : t ≠ 0)
    (hclear : ∀ u ∈ past, u < 0 → 0 < t → ¬ d ∣ u) :
    (Bucket.allowIn .exact (oneToken capacity d) t entry).1 =
        (LeakyBucket.allowIn .exact { capacity := capacity, leakEvery := d } t lentry).1 ∧
      Synced capacity d (past ++ [t])
        (some (Bucket.allowIn .exact (oneToken capacity d) t entry).2)
        (some (LeakyBucket.allowIn .exact { capacity := capacity, leakEvery := d } t lentry).2) := by
  cases h with
  | new =>
    refine ⟨rfl, .seen ⟨?_, rfl⟩ (onGrid_new hcapacity ht)⟩
    show 1 = capacity - (capacity - 1)
    omega
  | seen h hgrid =>
    obtain ⟨hanswer, hmirrors⟩ := h.call hgrid.ne_zero d t
    exact ⟨hanswer, .seen hmirrors (hgrid.call hcapacity hd hpast ht hclear)⟩

/-- The two limiters give the same answer on every call, and the level of a
key stays what is missing to a full bucket of tokens. -/
theorem leakyBucket_simulates (capacity d : Int) (hcapacity : 0 < capacity) (hd : 0 < d)
    (calls : List (Call GoString)) (hclock : Clock calls) (hnonzero : ∀ c ∈ calls, c.time ≠ 0)
    (hclear : Clear d calls) :
    let token := serve (Limiter.allowIn .exact) (Limiter.new (oneToken capacity d)) calls
    let leaky := serve (LeakyBucketLimiter.allowIn .exact)
      (LeakyBucketLimiter.new { capacity := capacity, leakEvery := d }) calls
    token.1 = leaky.1 ∧
      ∀ key, Simulates capacity (token.2.buckets.lookup key) (leaky.2.buckets.lookup key) := by
  intro token leaky
  have hconfig : (Limiter.new (oneToken capacity d)).config = oneToken capacity d :=
    oneToken_withDefaults hcapacity hd
  have hleaky : (LeakyBucketLimiter.new { capacity := capacity, leakEvery := d }).config =
      { capacity := capacity, leakEvery := d } := leaky_withDefaults hcapacity hd
  obtain ⟨hlog, hentries⟩ := (allowIn_perKey .exact).simulation (leakyBucket_perKey .exact)
    (Synced capacity d) (fun key => Synced.new) calls (by
      intro key past t entry lentry hpast hsynced
      have hmem : ∀ u ∈ past ++ [t], ∃ c ∈ calls, c.key = key ∧ c.time = u :=
        fun u hu => mem_times.mp (hpast.subset hu)
      obtain ⟨c, hc, hkey, rfl⟩ := hmem t (by simp)
      have hsorted := (hclock.times key).sublist hpast.sublist
      rw [hconfig, hleaky]
      refine hsynced.call hcapacity hd ?_ (hnonzero c hc) ?_
      · intro u hu
        obtain ⟨c', hc', -, rfl⟩ := hmem u (by simp [hu])
        exact ⟨(List.pairwise_append.mp hsorted).2.2 _ hu _ (by simp), hnonzero c' hc'⟩
      · intro u hu hneg hpos
        obtain ⟨c', hc', hkey', rfl⟩ := hmem u (by simp [hu])
        exact hclear c' hc' c hc (hkey'.trans hkey.symm) hneg hpos)
  exact ⟨hlog, fun key => (hentries key).simulates⟩

/-- Three calls in the year 2026. -/
theorem leakyBucket_simulates_test :
    let t : Time := unixEpoch + 1780228800 * second
    let calls : List (Call GoString) :=
      [⟨t, go "k"⟩, ⟨t, go "k"⟩, ⟨t + 10, go "k"⟩]
    (serve (Limiter.allowIn .exact) (Limiter.new (oneToken 1 10)) calls).1 =
      (serve (LeakyBucketLimiter.allowIn .exact)
        (LeakyBucketLimiter.new { capacity := 1, leakEvery := 10 }) calls).1 :=
  (leakyBucket_simulates 1 10 (by decide) (by decide) _ (by decide) (by decide) (by decide)).1

/-- A call one period before the zero time.  The second call moves `seenAt` to
the zero time, and the third, which the token bucket refuses, is the first of
its key for the leaky bucket. -/
theorem leakyBucket_forgets :
    let calls : List (Call GoString) := [⟨-10, go "k"⟩, ⟨1, go "k"⟩, ⟨1, go "k"⟩]
    (Clock calls ∧ ∀ c ∈ calls, c.time ≠ 0) ∧
      (serve (Limiter.allowIn .exact) (Limiter.new (oneToken 1 10)) calls).1.map (·.2) =
        [true, true, false] ∧
      (serve (LeakyBucketLimiter.allowIn .exact)
        (LeakyBucketLimiter.new { capacity := 1, leakEvery := 10 }) calls).1.map (·.2) =
        [true, true, true] := by
  decide +kernel

end PixRail.Ratelimit
