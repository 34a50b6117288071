import Mathlib.Data.Finmap

/-!
# Go maps and times

A Go map is `Finmap`: it has no order of its own, and code that ranges over
one names the order it saw.

A `time.Time` is the number of nanoseconds since the zero time, so `IsZero`
is equality with `0`, `UTC` is the identity and `a.After(b)` is `b < a`.
-/

namespace Go

/-- A Go map from `K` to `V`. -/
abbrev GoMap (K V : Type) := Finmap (fun _ : K => V)

/-- What a map holds after an assignment. -/
theorem lookup_insert_eq_some {K V : Type} [DecidableEq K] {m : GoMap K V} {k k' : K}
    {v v' : V} :
    (m.insert k v).lookup k' = some v' ↔
      (k' = k ∧ v' = v) ∨ (k' ≠ k ∧ m.lookup k' = some v') := by
  by_cases h : k' = k
  · subst h
    simp [eq_comm]
  · simp [Finmap.lookup_insert_of_ne _ h, h]

theorem lookup_insert_eq_none {K V : Type} [DecidableEq K] {m : GoMap K V} {k k' : K}
    {v : V} : (m.insert k v).lookup k' = none ↔ k' ≠ k ∧ m.lookup k' = none := by
  by_cases h : k' = k
  · subst h
    simp
  · simp [Finmap.lookup_insert_of_ne _ h, h]

/-- `len` of a map. -/
def GoMap.len {K V : Type} (m : GoMap K V) : Nat := m.keys.card

theorem len_ne_zero {K V : Type} [DecidableEq K] {m : GoMap K V} {k : K} {v : V}
    (h : m.lookup k = some v) : m.len ≠ 0 :=
  Finset.card_ne_zero_of_mem (Finmap.mem_keys.mpr (Finmap.mem_of_lookup_eq_some h))

theorem len_insert {K V : Type} [DecidableEq K] {m : GoMap K V} {k : K} (h : m.lookup k = none)
    (v : V) : GoMap.len (m.insert k v) = m.len + 1 := by
  have hkeys : (m.insert k v).keys = insert k m.keys := by
    ext k'
    simp [Finmap.mem_keys, Finmap.mem_insert]
  have hnew : k ∉ m.keys := fun hk =>
    absurd (Finmap.mem_keys.mp hk) (Finmap.lookup_eq_none.mp h)
  unfold GoMap.len
  rw [hkeys, Finset.card_insert_of_notMem hnew]

/-- `time.Time`, in nanoseconds since the zero time. -/
abbrev Time := Int

/-- `time.Duration`, in nanoseconds. -/
abbrev Duration := Int

/-- `time.Second`. -/
def second : Duration := 1000000000

/-- `time.Minute`. -/
def minute : Duration := 60 * second

/-- The instant of the Unix epoch. -/
def unixEpoch : Time := 62135596800 * second

/-- `time.Time.UnixNano`. -/
def unixNano (t : Time) : Int := t - unixEpoch

/-- The value of an `int64` after a wrap. -/
def wrap64 (n : Int) : Int := n.bmod (2 ^ 64)

theorem wrap64_of_fits {n : Int} (hlo : -2 ^ 63 ≤ n) (hhi : n < 2 ^ 63) : wrap64 n = n :=
  Int.bmod_eq_of_le (by omega) (by omega)

theorem wrap64_of_over {n : Int} (hlo : 2 ^ 63 ≤ n) (hhi : n < 2 ^ 64) :
    wrap64 n = n - 2 ^ 64 := by
  unfold wrap64
  rw [Int.bmod_def]
  split <;> omega

/-- `time.Unix(sec, 0)`, whose seconds since the zero time are an `int64`. -/
def timeUnix (sec : Int) : Time := wrap64 (sec + 62135596800) * second

/-- Only seconds near the end of their range wrap, to instants long before the
zero time. -/
theorem timeUnix_of_recent {sec : Int} (hlo : -2 ^ 63 ≤ sec) (hhi : sec < 2 ^ 63)
    (hrecent : -2 ^ 63 ≤ timeUnix sec) : timeUnix sec = unixEpoch + sec * second := by
  unfold timeUnix unixEpoch second Time at *
  by_cases hfits : sec + 62135596800 < 2 ^ 63
  · rw [wrap64_of_fits (by omega) hfits]
    omega
  · rw [wrap64_of_over (by omega) (by omega)] at hrecent
    omega

/-- `time.Time.Sub`: a difference that does not fit a `Duration` is the
largest or the smallest one. -/
def timeSub (t u : Time) : Duration := max (-2 ^ 63) (min (2 ^ 63 - 1) (t - u))

theorem timeSub_of_fits {t u : Int} (hlo : u ≤ t) (hhi : t - u < 2 ^ 63) :
    timeSub t u = t - u := by
  show max (-2 ^ 63) (min (2 ^ 63 - 1) (t - u)) = t - u
  omega

end Go
