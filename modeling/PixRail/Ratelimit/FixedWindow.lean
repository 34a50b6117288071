import PixRail.Go.Strings
import PixRail.Go.Values
import PixRail.Keyed.Run

/-!
# The fixed window

`FixedWindowLimiter`.  The window of a key starts with the first call that is
allowed after the last one has ended, and allows `limit` calls.  A key that
has no window has the zero value, which has the zero time.

An interval as long as a window can meet two of them.  The first one then
started before the interval, so its first call is not in the interval, and
the two allow `2 * limit - 1` calls in it.  That many can be reached
(`fixedWindow_burst`).
-/

namespace PixRail.Ratelimit

open Go Keyed

structure FixedWindowConfig where
  limit : Int
  window : Duration
  deriving DecidableEq

structure FixedWindow where
  start : Time := 0
  count : Int := 0
  deriving DecidableEq

structure FixedWindowLimiter where
  config : FixedWindowConfig
  windows : GoMap GoString FixedWindow

/-- The defaults of `NewFixedWindow`. -/
def FixedWindowConfig.withDefaults (config : FixedWindowConfig) : FixedWindowConfig where
  limit := if config.limit ≤ 0 then 60 else config.limit
  window := if config.window ≤ 0 then minute else config.window

/-- `NewFixedWindow`. -/
def FixedWindowLimiter.new (config : FixedWindowConfig) : FixedWindowLimiter where
  config := config.withDefaults
  windows := ∅

/-- `FixedWindowLimiter.Allow`. -/
def FixedWindowLimiter.allow (l : FixedWindowLimiter) (now : Time) (key : GoString) :
    Bool × FixedWindowLimiter :=
  let window := (l.windows.lookup key).getD {}
  if window.start = 0 ∨ timeSub now window.start ≥ l.config.window then
    (true, { l with windows := l.windows.insert key { start := now, count := 1 } })
  else if window.count ≥ l.config.limit then (false, l)
  else
    (true, { l with windows := l.windows.insert key { window with count := window.count + 1 } })

/-- `Allow` on the window of its key, `none` for a key that has none. -/
def FixedWindow.allow (config : FixedWindowConfig) (now : Time) (entry : Option FixedWindow) :
    Bool × FixedWindow :=
  let window := entry.getD {}
  if window.start = 0 ∨ timeSub now window.start ≥ config.window then
    (true, { start := now, count := 1 })
  else if window.count ≥ config.limit then (false, window)
  else (true, { window with count := window.count + 1 })

/-- The call that is refused leaves the map alone, and had a window. -/
theorem fixedWindow_perKey : PerKey FixedWindowLimiter.allow FixedWindowLimiter.config
    (fun l key => l.windows.lookup key) FixedWindow.allow where
  config_eq l t k := by
    unfold FixedWindowLimiter.allow
    dsimp only
    split_ifs <;> rfl
  answer l t k := by
    unfold FixedWindowLimiter.allow FixedWindow.allow
    dsimp only
    split_ifs <;> rfl
  entry_self l t k := by
    unfold FixedWindowLimiter.allow FixedWindow.allow
    dsimp only
    split_ifs with hnew
    · exact Finmap.lookup_insert _
    · cases hentry : l.windows.lookup k with
      | none => exact absurd (.inl (by rw [hentry]; rfl)) hnew
      | some window => rfl
    · exact Finmap.lookup_insert _
  entry_ne l t k k' hne := by
    unfold FixedWindowLimiter.allow
    dsimp only
    split_ifs
    · exact Finmap.lookup_insert_of_ne _ hne
    · rfl
    · exact Finmap.lookup_insert_of_ne _ hne

/-- What `NewFixedWindow` makes sure of, and that a `Duration` has 64 bits. -/
structure FixedWindowConfig.Normal (config : FixedWindowConfig) : Prop where
  limit : 0 < config.limit
  window : 0 < config.window
  window_lt : config.window < 2 ^ 63

theorem FixedWindowConfig.withDefaults_normal {config : FixedWindowConfig}
    (hint : config.window < 2 ^ 63) : config.withDefaults.Normal := by
  refine ⟨?_, ?_, ?_⟩
  · show 0 < if config.limit ≤ 0 then 60 else config.limit
    split <;> omega
  · show 0 < if config.window ≤ 0 then minute else config.window
    unfold minute second
    split <;> lia
  · show (if config.window ≤ 0 then minute else config.window) < 2 ^ 63
    unfold minute second
    split <;> lia

/-- A window has ended when its length has passed, also if the difference of
the times does not fit a `Duration`. -/
theorem ended_iff {config : FixedWindowConfig} (hc : config.Normal) {now start : Int} :
    timeSub now start ≥ config.window ↔ start + config.window ≤ now := by
  have hlt := hc.window_lt
  have hpos := hc.window
  unfold timeSub
  lia

/-! ## How many calls an interval can see -/

/-- The window of a key at `now`, with `k` grants in the interval
`[a, a + window)`. -/
structure Straddles (config : FixedWindowConfig) (a now : Int) (k : Nat) (w : FixedWindow) :
    Prop where
  started : w.start ≠ 0
  start_le : w.start ≤ now
  count_pos : 1 ≤ w.count
  count_le : w.count ≤ config.limit
  /-- Before the interval there was nothing in it. -/
  early : now < a → k = 0
  /-- The first call of a window that started before the interval is not in
  the interval, nor is any call of an older window. -/
  before : w.start < a → (k : Int) ≤ w.count - 1
  /-- A window that starts in the interval comes after one that started before
  it. -/
  inside : a ≤ w.start → w.start < a + config.window → (k : Int) ≤ config.limit - 1 + w.count

/-- The invariant of a key. -/
def Burst (config : FixedWindowConfig) (a now : Int) (g : List Int) (entry : Option FixedWindow) :
    Prop :=
  (within a (a + config.window) g : Int) ≤ 2 * config.limit - 1 ∧
    match entry with
    | none => g = []
    | some w => Straddles config a now (within a (a + config.window) g) w

section burst

variable {config : FixedWindowConfig} {a now : Int} {k k' : Nat} {w : FixedWindow}
  {entry : Option FixedWindow} {g : List Int}

theorem FixedWindow.allow_open
    (h : (entry.getD {}).start = 0 ∨ timeSub now (entry.getD {}).start ≥ config.window) :
    FixedWindow.allow config now entry = (true, { start := now, count := 1 }) :=
  if_pos h

theorem FixedWindow.allow_full (h : ¬ (w.start = 0 ∨ timeSub now w.start ≥ config.window))
    (hfull : w.count ≥ config.limit) : FixedWindow.allow config now (some w) = (false, w) := by
  unfold FixedWindow.allow
  dsimp only [Option.getD]
  rw [if_neg h, if_pos hfull]

theorem FixedWindow.allow_count (h : ¬ (w.start = 0 ∨ timeSub now w.start ≥ config.window))
    (hroom : ¬ w.count ≥ config.limit) :
    FixedWindow.allow config now (some w) = (true, { w with count := w.count + 1 }) := by
  unfold FixedWindow.allow
  dsimp only [Option.getD]
  rw [if_neg h, if_neg hroom]

/-- What a call can do: start a window, be refused, or be counted. -/
theorem FixedWindow.allow_cases (hc : config.Normal) (now : Int)
    (hstarted : ∀ w, entry = some w → w.start ≠ 0) :
    ((∀ w, entry = some w → w.start + config.window ≤ now) ∧
        FixedWindow.allow config now entry = (true, { start := now, count := 1 })) ∨
      (∃ w, entry = some w ∧ FixedWindow.allow config now entry = (false, w)) ∨
      ∃ w, entry = some w ∧ w.count < config.limit ∧
        FixedWindow.allow config now entry = (true, { w with count := w.count + 1 }) := by
  cases entry with
  | none => exact .inl ⟨nofun, allow_open (.inl rfl)⟩
  | some w =>
    have hzero := hstarted w rfl
    by_cases hended : timeSub now w.start ≥ config.window
    · refine .inl ⟨?_, allow_open (.inr hended)⟩
      rintro w' ⟨⟩
      exact (ended_iff hc).mp hended
    · have hold : ¬ (w.start = 0 ∨ timeSub now w.start ≥ config.window) :=
        not_or.mpr ⟨hzero, hended⟩
      by_cases hfull : w.count ≥ config.limit
      · exact .inr (.inl ⟨w, rfl, allow_full hold hfull⟩)
      · exact .inr (.inr ⟨w, rfl, not_le.mp hfull, allow_count hold hfull⟩)

theorem Straddles.wait (h : Straddles config a now k w) {now' : Int} (hle : now ≤ now') :
    Straddles config a now' k w where
  started := h.started
  start_le := le_trans h.start_le hle
  count_pos := h.count_pos
  count_le := h.count_le
  early hearly := h.early (lt_of_le_of_lt hle hearly)
  before := h.before
  inside := h.inside

/-- A window that starts at `now`. -/
theorem straddles_open (hc : config.Normal) (hnow : now ≠ 0) (hearly : now < a → k = 0)
    (hold : a ≤ now → now < a + config.window → (k : Int) ≤ config.limit - 1)
    (hk : k' = k + if a ≤ now ∧ now < a + config.window then 1 else 0) :
    Straddles config a now k' { start := now, count := 1 } where
  started := hnow
  start_le := le_refl now
  count_pos := le_refl 1
  count_le := hc.limit
  early hlt := by
    rw [hk, hearly hlt, if_neg (by lia)]
  before hlt := by
    rw [hk, hearly hlt, if_neg (by lia)]
    rfl
  inside ha hb := by
    have hle := hold ha hb
    rw [hk, if_pos ⟨ha, hb⟩]
    push_cast
    omega

/-- A call more in the window. -/
theorem Straddles.count (h : Straddles config a now k w) (hfull : w.count < config.limit)
    (hk : k' = k + if a ≤ now ∧ now < a + config.window then 1 else 0) :
    Straddles config a now k' { w with count := w.count + 1 } where
  started := h.started
  start_le := h.start_le
  count_pos := by
    have hpos := h.count_pos
    dsimp only
    omega
  count_le := hfull
  early hlt := by
    rw [hk, h.early hlt, if_neg (by lia)]
  before hlt := by
    have hle := h.before hlt
    dsimp only
    rw [hk]
    split_ifs <;> push_cast <;> omega
  inside ha hb := by
    have hle := h.inside ha hb
    dsimp only
    rw [hk]
    split_ifs <;> push_cast <;> omega

/-- No interval sees too much. -/
theorem Straddles.bound (h : Straddles config a now k w) (hb : w.start < a + config.window) :
    (k : Int) ≤ 2 * config.limit - 1 := by
  have hpos := h.count_pos
  have hle := h.count_le
  rcases lt_or_ge w.start a with hlt | hge
  · have hk := h.before hlt
    omega
  · have hk := h.inside hge hb
    omega

theorem Burst.wait {now' : Int} (hle : now ≤ now') (h : Burst config a now g entry) :
    Burst config a now' g entry := by
  cases entry with
  | none => exact h
  | some w => exact ⟨h.1, h.2.wait hle⟩

/-- A grant after the interval does not count. -/
theorem Burst.grant (h : Burst config a now g entry)
    (hw : Straddles config a now (within a (a + config.window) (g ++ [now])) w) :
    Burst config a now (g ++ [now]) (some w) := by
  refine ⟨?_, hw⟩
  rcases lt_or_ge w.start (a + config.window) with hlt | hge
  · exact hw.bound hlt
  · have hle := h.1
    have hstart := hw.start_le
    rw [within_snoc_outside (by lia)]
    exact hle

theorem Burst.call (hc : config.Normal) (hnow : now ≠ 0) (h : Burst config a now g entry) :
    Burst config a now (if (FixedWindow.allow config now entry).1 then g ++ [now] else g)
      (some (FixedWindow.allow config now entry).2) := by
  have hstarted : ∀ w, entry = some w → w.start ≠ 0 := by
    rintro w rfl
    exact h.2.started
  have hsnoc := within_snoc a (a + config.window) now g
  obtain ⟨hended, hallow⟩ | ⟨w, rfl, hallow⟩ | ⟨w, rfl, hfull, hallow⟩ :=
    FixedWindow.allow_cases hc now hstarted
  · rw [hallow]
    refine h.grant (straddles_open hc hnow ?_ ?_ hsnoc)
    · intro hearly
      cases entry with
      | none => rw [show g = [] from h.2]; rfl
      | some w => exact h.2.early hearly
    · intro ha hb
      cases entry with
      | none =>
        have hlimit := hc.limit
        rw [show g = [] from h.2]
        show (0 : Int) ≤ _
        omega
      | some w =>
        -- the window that has ended started before the interval
        have hend := hended w rfl
        have hle := h.2.before (by lia)
        have hcount := h.2.count_le
        omega
  · rw [hallow]
    exact h
  · rw [hallow]
    exact h.grant (h.2.count hfull hsnoc)

end burst

/-! ## The bound is reached -/

section reached

variable {config : FixedWindowConfig}

/-- Calls at one time in a window that has room for them. -/
theorem alone_replicate (hc : config.Normal) (start t count : Int) (hstart : start ≠ 0)
    (ht : t < start + config.window) (n : Nat) (hroom : count + n ≤ config.limit) :
    alone (FixedWindow.allow config) (some { start := start, count := count })
        (List.replicate n t) =
      (List.replicate n (t, true), some { start := start, count := count + n }) := by
  induction n generalizing count with
  | zero => simp [alone]
  | succ n ih =>
    push_cast at hroom
    have hold : ¬ (start = 0 ∨ timeSub t start ≥ config.window) := by
      rw [ended_iff hc]
      exact not_or.mpr ⟨hstart, not_le.mpr ht⟩
    have hallow : FixedWindow.allow config t (some { start := start, count := count }) =
        (true, { start := start, count := count + 1 }) :=
      FixedWindow.allow_count hold (by dsimp only; omega)
    have hcount : count + 1 + (n : Int) = count + ((n + 1 : Nat) : Int) := by
      push_cast
      omega
    rw [List.replicate_succ, alone, hallow, ih _ (by omega), List.replicate_succ, hcount]

/-- The times of a burst: the first call of a window, the others in its last
instant, and all calls of the next window at its start. -/
def burstTimes (limit : Nat) (window : Int) : List Int :=
  1 :: List.replicate (limit - 1) window ++ List.replicate limit (1 + window)

theorem grants_burstTimes (hc : config.Normal) {limit : Nat} (hlimit : config.limit = limit) :
    grants (alone (FixedWindow.allow config) none (burstTimes limit config.window)).1 =
      burstTimes limit config.window := by
  have hpos := hc.limit
  have hwindow := hc.window
  obtain ⟨n, rfl⟩ : ∃ n, limit = n + 1 := ⟨limit - 1, by omega⟩
  have hfirst : FixedWindow.allow config 1 none = (true, { start := 1, count := 1 }) :=
    FixedWindow.allow_open (.inl rfl)
  have hnext : ∀ w : FixedWindow, w.start = 1 →
      FixedWindow.allow config (1 + config.window) (some w) =
        (true, { start := 1 + config.window, count := 1 }) := by
    intro w hw
    refine FixedWindow.allow_open (.inr ?_)
    show timeSub (1 + config.window) w.start ≥ config.window
    rw [hw, ended_iff hc]
  have hwindow₁ := alone_replicate hc 1 config.window 1 (by decide) (by lia) n (by omega)
  have hwindow₂ := alone_replicate hc (1 + config.window) (1 + config.window) 1 (by lia) (by lia) n
    (by omega)
  unfold burstTimes
  rw [List.cons_append, alone, hfirst, alone_append, Nat.add_sub_cancel, hwindow₁,
    List.replicate_succ, alone, hnext _ rfl, hwindow₂]
  simp [grants]

theorem burstTimes_clock (limit : Nat) {window : Int} (hwindow : 1 < window) :
    (burstTimes limit window).Pairwise (· ≤ ·) ∧ ∀ t ∈ burstTimes limit window, t ≠ 0 := by
  have hmem : ∀ t ∈ burstTimes limit window, t = 1 ∨ t = window ∨ t = 1 + window := by
    intro t ht
    simp only [burstTimes, List.cons_append, List.mem_cons, List.mem_append,
      List.mem_replicate] at ht
    tauto
  constructor
  · unfold burstTimes
    rw [List.cons_append, List.pairwise_cons, List.pairwise_append]
    refine ⟨fun t ht => ?_, List.pairwise_replicate.mpr (.inr le_rfl),
      List.pairwise_replicate.mpr (.inr le_rfl), fun t ht u hu => ?_⟩
    · have hcases := hmem t (List.mem_cons_of_mem _ ht)
      omega
    · rw [List.eq_of_mem_replicate ht, List.eq_of_mem_replicate hu]
      omega
  · intro t ht
    have hcases := hmem t ht
    omega

theorem within_burstTimes {limit : Nat} (hlimit : 0 < limit) {window : Int} (hwindow : 1 < window) :
    within 2 (2 + window) (burstTimes limit window) = 2 * limit - 1 := by
  unfold burstTimes within
  simp only [List.cons_append, List.countP_cons, List.countP_append, List.countP_replicate]
  rw [if_pos (by simp; omega), if_pos (by simp; omega), if_neg (by simp)]
  omega

end reached

/-- An interval as long as a window sees at most `2 * limit - 1` allowed calls
of a key, and it can see that many. -/
theorem fixedWindow_burst (config : FixedWindowConfig) (hint : config.window < 2 ^ 63) :
    let c := (FixedWindowLimiter.new config).config
    (∀ calls : List (Call GoString), Clock calls → (∀ call ∈ calls, call.time ≠ 0) →
      ∀ (key : GoString) (a : Int),
        (within a (a + c.window)
          (granted key (serve FixedWindowLimiter.allow (FixedWindowLimiter.new config) calls).1) :
            Int) ≤ 2 * c.limit - 1) ∧
    (1 < c.window → ∃ calls : List (Call GoString), Clock calls ∧
      (∀ call ∈ calls, call.time ≠ 0) ∧ ∃ (key : GoString) (a : Int),
        (within a (a + c.window)
          (granted key (serve FixedWindowLimiter.allow (FixedWindowLimiter.new config) calls).1) :
            Int) = 2 * c.limit - 1) := by
  intro c
  have hc : c.Normal := FixedWindowConfig.withDefaults_normal hint
  constructor
  · intro calls hclock hnonzero key a
    obtain ⟨last, hlast⟩ := exists_bound calls
    refine (fixedWindow_perKey.invariant (Finmap.lookup_empty key) (Burst c a) ?_ Burst.wait ?_
      hclock hlast).1
    · intro t
      have hlimit := hc.limit
      refine ⟨?_, rfl⟩
      show (0 : Int) ≤ _
      omega
    · intro t g entry hmem h
      obtain ⟨call, hcall, -, rfl⟩ := mem_times.mp hmem
      exact h.call hc (hnonzero call hcall)
  · intro hwindow
    have hpos := hc.limit
    obtain ⟨limit, hlimit⟩ := Int.eq_ofNat_of_zero_le hpos.le
    obtain ⟨hsorted, hnonzero⟩ := burstTimes_clock limit hwindow
    refine ⟨(burstTimes limit c.window).map fun t => ⟨t, go "k"⟩, List.pairwise_map.mpr hsorted,
      ?_, go "k", 2, ?_⟩
    · intro call hcall
      obtain ⟨t, ht, rfl⟩ := List.mem_map.mp hcall
      exact hnonzero t ht
    · have htimes : times (go "k") ((burstTimes limit c.window).map fun t => ⟨t, go "k"⟩) =
          burstTimes limit c.window := by
        simp [times, List.filter_map, Function.comp_def]
      have hlog := (fixedWindow_perKey.serve_key (go "k") (FixedWindowLimiter.new config)
        ((burstTimes limit c.window).map fun t => ⟨t, go "k"⟩)).1
      unfold granted
      rw [hlog, htimes, show (FixedWindowLimiter.new config).windows.lookup (go "k") = none from
        Finmap.lookup_empty _, grants_burstTimes hc hlimit, within_burstTimes (by omega) hwindow]
      omega

/-- Two calls a second, on six calls around the end of the first window; and
calls that reach the bound. -/
theorem fixedWindow_burst_test :
    let config : FixedWindowConfig := { limit := 2, window := second }
    let calls : List (Call GoString) :=
      [⟨1, go "k"⟩, ⟨second, go "k"⟩, ⟨second, go "k"⟩, ⟨second + 1, go "k"⟩,
        ⟨second + 1, go "k"⟩, ⟨second + 1, go "k"⟩]
    let run := serve FixedWindowLimiter.allow (FixedWindowLimiter.new config)
    (run calls).1.map (·.2) = [true, true, false, true, true, false] ∧
      (within 2 (2 + second) (granted (go "k") (run calls).1) : Int) ≤ 2 * 2 - 1 ∧
      ∃ calls : List (Call GoString), Clock calls ∧ (∀ call ∈ calls, call.time ≠ 0) ∧
        ∃ (key : GoString) (a : Int),
          (within a (a + second) (granted key (run calls).1) : Int) = 2 * 2 - 1 :=
  have h := fixedWindow_burst { limit := 2, window := second } (by decide)
  ⟨by decide +kernel, h.1 _ (by decide) (by decide) (go "k") 2, h.2 (by decide)⟩

end PixRail.Ratelimit
