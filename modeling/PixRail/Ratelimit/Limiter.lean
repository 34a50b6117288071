import PixRail.Go.Strings
import PixRail.Go.Values

/-!
# The token bucket

`internal/ratelimit/limiter.go`.  A limiter has one bucket for each key.  The
clock reading of `Allow` is an argument.  `tokens` is an `int`, so the refill
wraps at 64 bits.

`allow_answer` and `allow_frame` say that the answer for a key depends on the
bucket of that key alone, and that no other bucket changes.
-/

namespace PixRail.Ratelimit

open Go

structure BucketConfig where
  capacity : Int
  refillTokens : Int
  refillEvery : Duration
  deriving DecidableEq

structure Bucket where
  tokens : Int
  seenAt : Time
  deriving DecidableEq

structure Limiter where
  config : BucketConfig
  buckets : GoMap GoString Bucket

/-- The defaults of `New`. -/
def BucketConfig.withDefaults (config : BucketConfig) : BucketConfig :=
  let capacity := if config.capacity ≤ 0 then 60 else config.capacity
  { capacity := capacity
    refillTokens := if config.refillTokens ≤ 0 then capacity else config.refillTokens
    refillEvery := if config.refillEvery ≤ 0 then minute else config.refillEvery }

/-- `New`. -/
def Limiter.new (config : BucketConfig) : Limiter where
  config := config.withDefaults
  buckets := ∅

/-- The refill at the head of `Allow`, for the periods since `seenAt`. -/
def Bucket.refill (config : BucketConfig) (b : Bucket) (now : Time) : Bucket :=
  let elapsed := timeSub now b.seenAt
  if elapsed ≥ config.refillEvery then
    let periods := elapsed.tdiv config.refillEvery
    let tokens := wrap64 (b.tokens + wrap64 (periods * config.refillTokens))
    { tokens := if tokens > config.capacity then config.capacity else tokens
      seenAt := b.seenAt + wrap64 (periods * config.refillEvery) }
  else b

/-- `Allow` on the bucket of its key, `none` for a key that has none. -/
def Bucket.allow (config : BucketConfig) (now : Time) : Option Bucket → Bool × Bucket
  | none => (true, { tokens := config.capacity - 1, seenAt := now })
  | some b =>
    let b := b.refill config now
    if b.tokens ≤ 0 then (false, b) else (true, { b with tokens := b.tokens - 1 })

/-- `Limiter.Allow`. -/
def Limiter.allow (l : Limiter) (now : Time) (key : GoString) : Bool × Limiter :=
  let answer := Bucket.allow l.config now (l.buckets.lookup key)
  (answer.1, { l with buckets := l.buckets.insert key answer.2 })

/-- The limiters agree on a key. -/
def Agrees (l l' : Limiter) (key : GoString) : Prop :=
  l.config = l'.config ∧ l.buckets.lookup key = l'.buckets.lookup key

theorem allow_answer {l l' : Limiter} {key : GoString} (h : Agrees l l' key) (now : Time) :
    (l.allow now key).1 = (l'.allow now key).1 ∧
      Agrees (l.allow now key).2 (l'.allow now key).2 key := by
  obtain ⟨hconfig, hbucket⟩ := h
  unfold Limiter.allow
  rw [hconfig, hbucket]
  refine ⟨rfl, rfl, ?_⟩
  show (l.buckets.insert key _).lookup key = (l'.buckets.insert key _).lookup key
  rw [Finmap.lookup_insert, Finmap.lookup_insert]

theorem allow_frame {l : Limiter} {key key' : GoString} (hne : key' ≠ key) (now : Time) :
    Agrees (l.allow now key).2 l key' :=
  ⟨rfl, Finmap.lookup_insert_of_ne _ hne⟩

end PixRail.Ratelimit
