import PixRail.Go.Strings
import PixRail.Go.Values
import PixRail.Keyed.Run

/-!
# The sliding window

`SlidingWindowLimiter`.  The log of a key has the times of the calls that
were allowed.  A call drops the times at the front that are out of the window
and is allowed if fewer than the limit are left.

The log is always the end of the history of the key: the grants after some
instant that no later window reaches (`Logged`).  So the answer to a call is
that of a count over the whole history (`slidingWindow_exact`).
-/

namespace PixRail.Ratelimit

open Go Keyed

structure SlidingWindowConfig where
  limit : Int
  window : Duration
  deriving DecidableEq

structure SlidingWindowLimiter where
  config : SlidingWindowConfig
  events : GoMap GoString (List Time)

/-- The defaults of `NewSlidingWindow`. -/
def SlidingWindowConfig.withDefaults (config : SlidingWindowConfig) : SlidingWindowConfig where
  limit := if config.limit ≤ 0 then 60 else config.limit
  window := if config.window ≤ 0 then minute else config.window

/-- `NewSlidingWindow`. -/
def SlidingWindowLimiter.new (config : SlidingWindowConfig) : SlidingWindowLimiter where
  config := config.withDefaults
  events := ∅

/-- The loop of `Allow`: how many times at the front are not after the
cutoff. -/
def keepFrom (cutoff : Time) : List Time → Nat
  | [] => 0
  | e :: events => if e > cutoff then 0 else keepFrom cutoff events + 1

/-- `Allow` on the log of its key, `none` for a key that has none. -/
def slide (config : SlidingWindowConfig) (now : Time) (entry : Option (List Time)) :
    Bool × List Time :=
  let cutoff := now - config.window
  let events := entry.getD []
  let events := events.drop (keepFrom cutoff events)
  if events.length ≥ config.limit then (false, events) else (true, events ++ [now])

/-- `SlidingWindowLimiter.Allow`. -/
def SlidingWindowLimiter.allow (l : SlidingWindowLimiter) (now : Time) (key : GoString) :
    Bool × SlidingWindowLimiter :=
  let answer := slide l.config now (l.events.lookup key)
  (answer.1, { l with events := l.events.insert key answer.2 })

theorem slidingWindow_perKey : PerKey SlidingWindowLimiter.allow SlidingWindowLimiter.config
    (fun l key => l.events.lookup key) slide where
  config_eq _ _ _ := rfl
  answer _ _ _ := rfl
  entry_self _ _ _ := Finmap.lookup_insert _
  entry_ne _ _ _ _ hne := Finmap.lookup_insert_of_ne _ hne

/-- What `NewSlidingWindow` makes sure of. -/
structure SlidingWindowConfig.Normal (config : SlidingWindowConfig) : Prop where
  limit : 0 < config.limit
  window : 0 < config.window

theorem SlidingWindowConfig.withDefaults_normal (config : SlidingWindowConfig) :
    config.withDefaults.Normal := by
  constructor
  · show 0 < if config.limit ≤ 0 then 60 else config.limit
    split <;> omega
  · show 0 < if config.window ≤ 0 then minute else config.window
    unfold minute second
    split <;> lia

/-- In a sorted log the times at the front are all of those up to the
cutoff. -/
theorem drop_keepFrom (cutoff : Int) {events : List Int} (h : events.Pairwise (· ≤ ·)) :
    events.drop (keepFrom cutoff events) = events.filter (cutoff < ·) := by
  induction events with
  | nil => rfl
  | cons e events ih =>
    obtain ⟨he, hevents⟩ := List.pairwise_cons.mp h
    by_cases hlate : cutoff < e
    · have hall : ∀ u ∈ e :: events, decide (cutoff < u) = true := by
        refine List.forall_mem_cons.mpr ⟨decide_eq_true hlate, fun u hu => ?_⟩
        exact decide_eq_true (lt_of_lt_of_le hlate (he u hu))
      rw [keepFrom, if_pos hlate, List.drop_zero, List.filter_eq_self.mpr hall]
    · rw [keepFrom, if_neg hlate, List.drop_succ_cons, ih hevents,
        List.filter_cons_of_neg (by simpa using hlate)]

/-- The log of a key at `now`, when its calls were allowed at the times `g`. -/
structure Logged (config : SlidingWindowConfig) (now : Int) (g : List Int)
    (entry : Option (List Time)) : Prop where
  sorted : g.Pairwise (· ≤ ·)
  past : ∀ u ∈ g, u ≤ now
  /-- The log is what was granted after some instant. -/
  log : ∃ cut : Int, cut ≤ now - config.window ∧ entry.getD [] = g.filter (cut < ·)
  short : ((entry.getD []).length : Int) ≤ config.limit
  /-- No window has too many grants. -/
  window : ∀ a : Int, (within a (a + config.window) g : Int) ≤ config.limit

section logged

variable {config : SlidingWindowConfig} {now : Int} {g : List Int} {entry : Option (List Time)}

theorem Logged.start (hc : config.Normal) (now : Int) : Logged config now [] none where
  sorted := List.Pairwise.nil
  past := by simp
  log := ⟨now - config.window, le_rfl, rfl⟩
  short := hc.limit.le
  window _ := hc.limit.le

theorem Logged.wait (h : Logged config now g entry) {now' : Int} (hle : now ≤ now') :
    Logged config now' g entry where
  sorted := h.sorted
  past u hu := le_trans (h.past u hu) hle
  log := by
    obtain ⟨cut, hcut, hlog⟩ := h.log
    exact ⟨cut, by lia, hlog⟩
  short := h.short
  window := h.window

/-- What is left of the log are the grants in the window. -/
theorem Logged.kept (h : Logged config now g entry) :
    (entry.getD []).drop (keepFrom (now - config.window) (entry.getD [])) =
      g.filter (now - config.window < ·) := by
  obtain ⟨cut, hcut, hlog⟩ := h.log
  rw [hlog, drop_keepFrom _ (h.sorted.sublist List.filter_sublist), List.filter_filter]
  refine List.filter_congr fun u _ => ?_
  rw [Bool.eq_iff_iff, Bool.and_eq_true, decide_eq_true_iff, decide_eq_true_iff]
  exact ⟨And.left, fun hu => ⟨hu, lt_of_le_of_lt hcut hu⟩⟩

theorem Logged.slide_eq (h : Logged config now g entry) :
    slide config now entry =
      if ((g.filter (now - config.window < ·)).length : Int) ≥ config.limit then
        (false, g.filter (now - config.window < ·))
      else (true, g.filter (now - config.window < ·) ++ [now]) := by
  unfold slide
  dsimp only
  rw [h.kept]

/-- A call is allowed if there is room in the window that ends with it. -/
theorem Logged.allowed_iff (h : Logged config now g entry) :
    (slide config now entry).1 = true ↔
      ((g.countP fun u => now - config.window < u ∧ u ≤ now : Nat) : Int) < config.limit := by
  have hcount : (g.countP fun u => now - config.window < u ∧ u ≤ now) =
      (g.filter (now - config.window < ·)).length := by
    rw [← List.countP_eq_length_filter]
    refine List.countP_congr fun u hu => ?_
    rw [decide_eq_true_iff, decide_eq_true_iff]
    exact ⟨And.left, fun h' => ⟨h', h.past u hu⟩⟩
  rw [h.slide_eq, hcount]
  split <;> simp <;> omega

/-- A window that has this call has the earlier ones after the cutoff. -/
theorem within_le_kept {config : SlidingWindowConfig} {a now : Int} {g : List Int}
    (hlast : now < a + config.window) :
    within a (a + config.window) g ≤ (g.filter (now - config.window < ·)).length := by
  unfold within
  rw [← List.countP_eq_length_filter]
  refine List.countP_mono_left fun u _ hu => ?_
  rw [decide_eq_true_iff] at hu ⊢
  lia

theorem Logged.refuse (h : Logged config now g entry) :
    Logged config now g (some (g.filter (now - config.window < ·))) := by
  refine ⟨h.sorted, h.past, ⟨now - config.window, le_rfl, rfl⟩, ?_, h.window⟩
  have hshort := h.short
  have hle := List.length_drop (i := keepFrom (now - config.window) (entry.getD []))
    (l := entry.getD [])
  rw [h.kept] at hle
  show ((g.filter (now - config.window < ·)).length : Int) ≤ config.limit
  omega

theorem Logged.grant (h : Logged config now g entry) (hc : config.Normal)
    (hroom : ((g.filter (now - config.window < ·)).length : Int) < config.limit) :
    Logged config now (g ++ [now]) (some (g.filter (now - config.window < ·) ++ [now])) where
  sorted := by
    refine List.pairwise_append.mpr ⟨h.sorted, List.pairwise_singleton _ _, ?_⟩
    intro u hu v hv
    rw [List.mem_singleton.mp hv]
    exact h.past u hu
  past := by
    intro u hu
    rcases List.mem_append.mp hu with hold | hnew
    · exact h.past u hold
    · exact (List.mem_singleton.mp hnew).le
  log := by
    have hwindow := hc.window
    refine ⟨now - config.window, le_rfl, ?_⟩
    rw [List.filter_append, List.filter_cons_of_pos (by rw [decide_eq_true_iff]; lia)]
    rfl
  short := by
    show ((g.filter (now - config.window < ·) ++ [now]).length : Int) ≤ config.limit
    rw [List.length_append, List.length_singleton]
    omega
  window := by
    intro a
    by_cases hin : a ≤ now ∧ now < a + config.window
    · have hle := within_le_kept (g := g) hin.2
      rw [within_snoc_inside hin.1 hin.2]
      omega
    · rw [within_snoc_outside hin]
      exact h.window a

theorem Logged.call (h : Logged config now g entry) (hc : config.Normal) :
    Logged config now (if (slide config now entry).1 then g ++ [now] else g)
      (some (slide config now entry).2) := by
  rw [h.slide_eq]
  split
  · exact h.refuse
  · rename_i hroom
    exact h.grant hc (not_le.mp hroom)

end logged

/-- A call is allowed exactly if fewer calls than the limit were allowed in
the window that ends with it; no window has more grants than the limit, and
no log has more entries. -/
theorem slidingWindow_exact (config : SlidingWindowConfig) (calls : List (Call GoString))
    (hclock : Clock calls) :
    let c := (SlidingWindowLimiter.new config).config
    let run := serve SlidingWindowLimiter.allow (SlidingWindowLimiter.new config) calls
    (∀ key now, (∀ call ∈ calls, call.time ≤ now) →
      ((run.2.allow now key).1 = true ↔
        (((granted key run.1).countP fun u => now - c.window < u ∧ u ≤ now : Nat) : Int) <
          c.limit)) ∧
    (∀ (key : GoString) (a : Time),
      (within a (a + c.window) (granted key run.1) : Int) ≤ c.limit) ∧
    ∀ key events, run.2.events.lookup key = some events → (events.length : Int) ≤ c.limit := by
  intro c run
  have hc : c.Normal := config.withDefaults_normal
  have hlogged : ∀ key now, (∀ call ∈ calls, call.time ≤ now) →
      Logged c now (granted key run.1) (run.2.events.lookup key) := fun key now hnow =>
    slidingWindow_perKey.invariant (Finmap.lookup_empty key) (Logged c) (Logged.start hc)
      (fun hle h => h.wait hle) (fun _ h => h.call hc) hclock hnow
  obtain ⟨last, hlast⟩ := exists_bound calls
  refine ⟨?_, fun key a => (hlogged key last hlast).window a, ?_⟩
  · intro key now hnow
    rw [slidingWindow_perKey.answer, slidingWindow_perKey.serve_config]
    exact (hlogged key now hnow).allowed_iff
  · intro key events hevents
    have hshort := (hlogged key last hlast).short
    rw [hevents] at hshort
    exact hshort

/-- A second after two calls there is room again, and not before. -/
theorem slidingWindow_exact_test :
    let config : SlidingWindowConfig := { limit := 2, window := second }
    let calls : List (Call GoString) := [⟨unixEpoch, go "k"⟩, ⟨unixEpoch, go "k"⟩]
    let run := serve SlidingWindowLimiter.allow (SlidingWindowLimiter.new config) calls
    (run.2.allow (unixEpoch + second - 1) (go "k")).1 = false ∧
      (run.2.allow (unixEpoch + second) (go "k")).1 = true :=
  have h := slidingWindow_exact { limit := 2, window := second }
    [⟨unixEpoch, go "k"⟩, ⟨unixEpoch, go "k"⟩] (by decide)
  ⟨Bool.eq_false_iff.mpr ((h.1 (go "k") (unixEpoch + second - 1) (by decide)).not.mpr
      (by decide +kernel)),
    (h.1 (go "k") (unixEpoch + second) (by decide)).mpr (by decide +kernel)⟩

end PixRail.Ratelimit
