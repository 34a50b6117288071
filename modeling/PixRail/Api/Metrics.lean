import Mathlib.Algebra.Ring.Int.Defs
import PixRail.Go.Strings
import PixRail.Go.Values

/-!
# The metrics of the server

`internal/observability/metrics.go`.  A counter is an `int64` in a map, and
the latency of a route is the window of its last 1024 samples.  A sample is
the elapsed time itself; the source keeps it in seconds.

`observedAll` is the effect of a list of observations.  A counter is the
number of its observations as an `int64` (`requests_observedAll` and the like),
and a window holds the last samples of its key (`latency_observedAll`).
-/

namespace PixRail.Api

open Go

/-- `maxLatencySamplesPerRoute`. -/
def maxLatencySamplesPerRoute : Nat := 1024

structure Metrics where
  requests : GoMap GoString Int
  latency : GoMap GoString (List Duration)
  decisions : GoMap GoString Int
  events : GoMap GoString Int
  started : Time

/-- `NewMetrics`. -/
def newMetrics (started : Time) : Metrics where
  requests := ∅
  latency := ∅
  decisions := ∅
  events := ∅
  started := started

/-- `m[key] += n` for an `int64`. -/
def addTo (m : GoMap GoString Int) (key : GoString) (n : Int) : GoMap GoString Int :=
  m.insert key (wrap64 ((m.lookup key).getD 0 + n))

/-- `m[key]`. -/
def counter (m : GoMap GoString Int) (key : GoString) : Int := (m.lookup key).getD 0

/-- The samples after one more of them. -/
def addSample (samples : List Duration) (elapsed : Duration) : List Duration :=
  let samples := samples ++ [elapsed]
  if maxLatencySamplesPerRoute < samples.length then
    samples.drop (samples.length - maxLatencySamplesPerRoute)
  else samples

/-- The label of a request without its status. -/
def latencyKey (method route : GoString) : GoString :=
  go "method=\"" ++ method ++ go "\",route=\"" ++ route ++ go "\""

/-- The label of a request. -/
def requestKey (method route : GoString) (status : Nat) : GoString :=
  latencyKey method route ++ go ",status=\"" ++ itoa status ++ go "\""

/-- One call of an `Observe` method. -/
inductive Observation where
  | request (method route : GoString) (status : Nat) (elapsed : Duration)
  | decision (status : GoString)
  | events (count : Nat)
  deriving DecidableEq

/-- `ObserveRequest`, `ObserveDecision` and `ObserveEvents`. -/
def Metrics.observe (m : Metrics) : Observation → Metrics
  | .request method route status elapsed =>
    { m with
      requests := addTo m.requests (requestKey method route status) 1
      latency := m.latency.insert (latencyKey method route)
        (addSample ((m.latency.lookup (latencyKey method route)).getD []) elapsed) }
  | .decision status => { m with decisions := addTo m.decisions status 1 }
  | .events count => { m with events := addTo m.events (go "outbox_inserted") count }

/-- The effect of observations, in their order. -/
def observedAll (m : Metrics) (l : List Observation) : Metrics := l.foldl Metrics.observe m

/-! ## Counters -/

theorem wrap64_add (a b : Int) : wrap64 (wrap64 a + b) = wrap64 (a + b) := by
  unfold wrap64
  rw [Int.bmod_add_bmod]

theorem counter_addTo (m : GoMap GoString Int) (key key' : GoString) (n : Int) :
    counter (addTo m key n) key' =
      if key' = key then wrap64 (counter m key + n) else counter m key' := by
  unfold counter addTo
  by_cases h : key' = key
  · subst h
    simp
  · rw [if_neg h, Finmap.lookup_insert_of_ne _ h]

/-- What an observation adds to a counter of requests. -/
def requestsOf (key : GoString) : Observation → Int
  | .request method route status _ => if requestKey method route status = key then 1 else 0
  | _ => 0

/-- What an observation adds to a counter of decisions. -/
def decisionsOf (key : GoString) : Observation → Int
  | .decision status => if status = key then 1 else 0
  | _ => 0

/-- What an observation adds to the counter of the outbox. -/
def eventsOf : Observation → Int
  | .events count => count
  | _ => 0

/-- The sample of an observation for a key. -/
def sampleOf (key : GoString) : Observation → Option Duration
  | .request method route _ elapsed =>
    if latencyKey method route = key then some elapsed else none
  | _ => none

/-- A map that every observation leaves alone or adds to, as counters of
`int64` that start at zero. -/
theorem counter_observedAll (field : Metrics → GoMap GoString Int) (key : GoString)
    (amount : Observation → Int)
    (hstep : ∀ m o, field (m.observe o) = field m ∧ amount o = 0 ∨
      ∃ key' n, field (m.observe o) = addTo (field m) key' n ∧
        amount o = if key' = key then n else 0)
    (l : List Observation) (m : Metrics) {n : Int} (hm : counter (field m) key = wrap64 n) :
    counter (field (observedAll m l)) key = wrap64 (n + (l.map amount).sum) := by
  induction l generalizing m n with
  | nil => simpa [observedAll] using hm
  | cons o l ih =>
    rw [observedAll, List.foldl_cons, ← observedAll, List.map_cons, List.sum_cons, ← add_assoc]
    refine ih (m.observe o) ?_
    rcases hstep m o with ⟨hsame, hzero⟩ | ⟨key', k, hadd, hamount⟩
    · rw [hsame, hzero, add_zero, hm]
    · rw [hadd, counter_addTo, hamount]
      by_cases hkey : key' = key
      · subst hkey
        rw [if_pos rfl, if_pos rfl, hm, wrap64_add]
      · rw [if_neg (Ne.symm hkey), if_neg hkey, add_zero, hm]

section counters

variable (l : List Observation) (started : Time) (key : GoString)

/-- The counter of a label is the number of its requests. -/
theorem requests_observedAll : counter (observedAll (newMetrics started) l).requests key =
    wrap64 (l.map (requestsOf key)).sum := by
  have h := counter_observedAll (fun m => m.requests) key (requestsOf key) ?_ l
    (newMetrics started) (n := 0) rfl
  · rwa [zero_add] at h
  · intro m o
    cases o with
    | request method route status elapsed => exact .inr ⟨_, 1, rfl, rfl⟩
    | decision status | events count => exact .inl ⟨rfl, rfl⟩

theorem decisions_observedAll : counter (observedAll (newMetrics started) l).decisions key =
    wrap64 (l.map (decisionsOf key)).sum := by
  have h := counter_observedAll (fun m => m.decisions) key (decisionsOf key) ?_ l
    (newMetrics started) (n := 0) rfl
  · rwa [zero_add] at h
  · intro m o
    cases o with
    | decision status => exact .inr ⟨_, 1, rfl, rfl⟩
    | request method route status elapsed => exact .inl ⟨rfl, rfl⟩
    | events count => exact .inl ⟨rfl, rfl⟩

theorem events_observedAll :
    counter (observedAll (newMetrics started) l).events (go "outbox_inserted") =
      wrap64 (l.map eventsOf).sum := by
  have h := counter_observedAll (fun m => m.events) (go "outbox_inserted") eventsOf ?_ l
    (newMetrics started) (n := 0) rfl
  · rwa [zero_add] at h
  · intro m o
    cases o with
    | events count => exact .inr ⟨go "outbox_inserted", count, rfl, (if_pos rfl).symm⟩
    | request method route status elapsed => exact .inl ⟨rfl, rfl⟩
    | decision status => exact .inl ⟨rfl, rfl⟩

end counters

/-! ## Windows -/

/-- The last samples of a list. -/
def window (l : List Duration) : List Duration := l.drop (l.length - maxLatencySamplesPerRoute)

/-- A window slides by one sample. -/
theorem addSample_window (l : List Duration) (elapsed : Duration) :
    addSample (window l) elapsed = window (l ++ [elapsed]) := by
  have hpos : 0 < maxLatencySamplesPerRoute := by decide
  unfold addSample window
  dsimp only
  generalize maxLatencySamplesPerRoute = n at hpos ⊢
  rw [← List.drop_append_of_le_length (by omega), List.length_drop, List.length_append,
    List.length_singleton]
  split
  · rw [List.drop_drop]
    congr 1
    omega
  · congr 1
    omega

/-- A window after more observations. -/
theorem window_observedAll (l : List Observation) (m : Metrics) (key : GoString)
    (before : List Duration) (hbefore : (m.latency.lookup key).getD [] = window before) :
    ((observedAll m l).latency.lookup key).getD [] =
      window (before ++ l.filterMap (sampleOf key)) := by
  induction l generalizing m before with
  | nil => simpa [observedAll] using hbefore
  | cons o l ih =>
    rw [observedAll, List.foldl_cons, ← observedAll]
    cases ho : sampleOf key o with
    | none =>
      rw [List.filterMap_cons_none ho]
      refine ih (m.observe o) _ ?_
      cases o with
      | request method route status elapsed =>
        have hne : key ≠ latencyKey method route := by
          intro he
          simp [sampleOf, he] at ho
        rw [Metrics.observe, Finmap.lookup_insert_of_ne _ hne]
        exact hbefore
      | decision status => exact hbefore
      | events count => exact hbefore
    | some elapsed =>
      rw [List.filterMap_cons_some ho, List.append_cons]
      refine ih (m.observe o) _ ?_
      cases o with
      | request method route status elapsed' =>
        simp only [sampleOf, Option.ite_none_right_eq_some, Option.some.injEq] at ho
        obtain ⟨rfl, rfl⟩ := ho
        rw [Metrics.observe, Finmap.lookup_insert, Option.getD_some, hbefore, addSample_window]
      | decision status => cases ho
      | events count => cases ho

/-- The latency of a label has its last samples. -/
theorem latency_observedAll (l : List Observation) (started : Time) (key : GoString) :
    ((observedAll (newMetrics started) l).latency.lookup key).getD [] =
      window (l.filterMap (sampleOf key)) :=
  window_observedAll l (newMetrics started) key [] rfl

end PixRail.Api
