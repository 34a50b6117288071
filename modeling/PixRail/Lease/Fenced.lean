import Mathlib.Data.List.Induction
import Mathlib.Data.List.Nodup
import Mathlib.Order.Lattice

/-!
# Fenced leases

An item that workers take turns on.  A worker claims it until some time, and
then either finishes it for good or hands it back, with a time before which
it may not be claimed again.  A worker that stops keeps the item until its
claim lapses; the next worker then takes it over.

A `Log` of what the workers did is replayed from the free item.  The results
are about every log that can be replayed: a claim that has not lapsed keeps
the others out (`claim_excludes`), so does the time of a release
(`release_delays`), and a worker whose claim was taken over never holds the
item again (`not_holder_of_later_claim`).  At no time are two claims open
(`Open.unique`).
-/

namespace Lease

/-- What a worker did with the item. -/
inductive Ev (W T : Type) where
  | claim (w : W) (now till : T)
  | finish (w : W)
  | release (w : W) (retry : T)

/-- The item: who holds it, from when on it may be claimed, whether it is
finished, and how often it was claimed. -/
structure Item (W T : Type) where
  holder : Option W := none
  till : Option T := none
  done : Bool := false
  claims : Nat := 0

variable {W T : Type}

def Ev.claimer : Ev W T → Option W
  | .claim w _ _ => some w
  | _ => none

def Ev.claimedAt : Ev W T → Option T
  | .claim _ now _ => some now
  | _ => none

/-- The workers that claimed the item, in order. -/
def claimers (log : List (Ev W T)) : List W := log.filterMap Ev.claimer

/-- The times of the claims, in order. -/
def times (log : List (Ev W T)) : List T := log.filterMap Ev.claimedAt

/-- The worker finished the item or handed it back. -/
def Ended (w : W) (log : List (Ev W T)) : Prop :=
  .finish w ∈ log ∨ ∃ retry, .release w retry ∈ log

@[simp] theorem claimers_nil : claimers ([] : List (Ev W T)) = [] := rfl

@[simp] theorem claimers_append (l₁ l₂ : List (Ev W T)) :
    claimers (l₁ ++ l₂) = claimers l₁ ++ claimers l₂ :=
  List.filterMap_append

@[simp] theorem claimers_claim (w : W) (now till : T) (l : List (Ev W T)) :
    claimers (.claim w now till :: l) = w :: claimers l := rfl

@[simp] theorem claimers_finish (w : W) (l : List (Ev W T)) :
    claimers (.finish w :: l) = claimers l := rfl

@[simp] theorem claimers_release (w : W) (retry : T) (l : List (Ev W T)) :
    claimers (.release w retry :: l) = claimers l := rfl

@[simp] theorem times_append (l₁ l₂ : List (Ev W T)) :
    times (l₁ ++ l₂) = times l₁ ++ times l₂ :=
  List.filterMap_append

@[simp] theorem times_claim (w : W) (now till : T) (l : List (Ev W T)) :
    times (.claim w now till :: l) = now :: times l := rfl

theorem mem_times {w : W} {now till : T} {l : List (Ev W T)} (h : .claim w now till ∈ l) :
    now ∈ times l :=
  List.mem_filterMap.mpr ⟨_, h, rfl⟩

theorem Ended.snoc {w : W} {l : List (Ev W T)} (h : Ended w l) (e : Ev W T) :
    Ended w (l ++ [e]) := by
  rcases h with h | ⟨retry, h⟩
  · exact .inl (List.mem_append_left _ h)
  · exact .inr ⟨retry, List.mem_append_left _ h⟩

/-! ## Replaying a log -/

section replay

variable [DecidableEq W] [LinearOrder T]

/-- `none` when the item does not allow the event.  Handing back a finished
item changes nothing. -/
def Item.step (x : Item W T) : Ev W T → Option (Item W T)
  | .claim w now till =>
    if x.done = false ∧ ∀ t ∈ x.till, t ≤ now then
      some { x with holder := some w, till := some till, claims := x.claims + 1 }
    else none
  | .finish w =>
    if x.done = false ∧ x.holder = some w then
      some { x with holder := none, till := none, done := true }
    else none
  | .release w retry =>
    if x.done then some x
    else if x.holder = some w then some { x with holder := none, till := some retry }
    else none

/-- The item after a log. -/
def replay (x : Item W T) (log : List (Ev W T)) : Option (Item W T) :=
  log.foldlM Item.step x

variable {x y : Item W T} {log : List (Ev W T)} {w w' : W}

@[simp] theorem replay_nil (x : Item W T) : replay x [] = some x := rfl

theorem replay_append {l₁ l₂ : List (Ev W T)} :
    replay x (l₁ ++ l₂) = some y ↔ ∃ z, replay x l₁ = some z ∧ replay z l₂ = some y := by
  rw [replay, List.foldlM_append]
  exact Option.bind_eq_some_iff

theorem replay_cons {e : Ev W T} :
    replay x (e :: log) = some y ↔ ∃ z, x.step e = some z ∧ replay z log = some y := by
  rw [replay, List.foldlM_cons]
  exact Option.bind_eq_some_iff

theorem replay_snoc {e : Ev W T} :
    replay x (log ++ [e]) = some y ↔ ∃ z, replay x log = some z ∧ z.step e = some y := by
  simp [replay_append, replay_cons]

/-- What an event can do to the item. -/
theorem step_cases {e : Ev W T} (h : x.step e = some y) :
    (∃ w now till, e = .claim w now till ∧ x.done = false ∧ (∀ t ∈ x.till, t ≤ now) ∧
      y = { x with holder := some w, till := some till, claims := x.claims + 1 }) ∨
    (∃ w, e = .finish w ∧ x.done = false ∧ x.holder = some w ∧
      y = { x with holder := none, till := none, done := true }) ∨
    (∃ w retry, e = .release w retry ∧ x.done = false ∧ x.holder = some w ∧
      y = { x with holder := none, till := some retry }) ∨
    ∃ w retry, e = .release w retry ∧ x.done = true ∧ y = x := by
  cases e with
  | claim w now till =>
    obtain ⟨hg, hy⟩ := Option.ite_none_right_eq_some.mp h
    exact .inl ⟨w, now, till, rfl, hg.1, hg.2, (Option.some.inj hy).symm⟩
  | finish w =>
    obtain ⟨hg, hy⟩ := Option.ite_none_right_eq_some.mp h
    exact .inr (.inl ⟨w, rfl, hg.1, hg.2, (Option.some.inj hy).symm⟩)
  | release w retry =>
    simp only [Item.step] at h
    split at h
    · rename_i hdone
      exact .inr (.inr (.inr ⟨w, retry, rfl, hdone, (Option.some.inj h).symm⟩))
    · rename_i hdone
      obtain ⟨hg, hy⟩ := Option.ite_none_right_eq_some.mp h
      exact .inr (.inr (.inl
        ⟨w, retry, rfl, Bool.eq_false_iff.mpr hdone, hg, (Option.some.inj hy).symm⟩))

/-- The rule for invariants of logs. -/
theorem replay_invariant {I : List (Ev W T) → Item W T → Prop} (hinit : I [] x)
    (hstep : ∀ {log y e z}, I log y → y.step e = some z → I (log ++ [e]) z)
    (h : replay x log = some y) : I log y := by
  induction log using List.reverseRecOn generalizing y with
  | nil =>
    obtain rfl := Option.some.inj h
    exact hinit
  | append_singleton log e ih =>
    obtain ⟨z, hz, he⟩ := replay_snoc.mp h
    exact hstep (ih hz) he

/-! ## Claims keep the others out -/

omit [DecidableEq W] in
theorem le_of_mem_times {l₁ l₂ l₃ : List (Ev W T)} {e : Ev W T} {now t till : T}
    (hclock : (times (l₁ ++ e :: l₂ ++ .claim w now till :: l₃)).Pairwise (· ≤ ·))
    (ht : t ∈ times l₂) : t ≤ now := by
  rw [times, List.filterMap_append, List.pairwise_append] at hclock
  refine hclock.2.2 t ?_ now List.mem_cons_self
  obtain ⟨f, hf, hft⟩ := List.mem_filterMap.mp ht
  exact List.mem_filterMap.mpr
    ⟨f, List.mem_append_right _ (List.mem_cons_of_mem _ hf), hft⟩

/-- What an item allows a claim. -/
theorem step_claim {now till : T} (h : x.step (.claim w now till) = some y) :
    x.done = false ∧ (∀ t ∈ x.till, t ≤ now) ∧
      y = { x with holder := some w, till := some till, claims := x.claims + 1 } := by
  obtain ⟨hg, hy⟩ := Option.ite_none_right_eq_some.mp h
  exact ⟨hg.1, hg.2, (Option.some.inj hy).symm⟩

/-- The time of an item stays, until a claim finds it over or the holder
itself ends its claim. -/
theorem till_stays {t : T} (ht : x.till = some t) (h : replay x log = some y) :
    (∃ t' ∈ times log, t ≤ t') ∨ (∃ w, x.holder = some w ∧ Ended w log) ∨
      y.holder = x.holder ∧ y.till = some t := by
  refine replay_invariant (I := fun log y => (∃ t' ∈ times log, t ≤ t') ∨
    (∃ w, x.holder = some w ∧ Ended w log) ∨ y.holder = x.holder ∧ y.till = some t)
    (.inr (.inr ⟨rfl, ht⟩)) ?_ h
  intro log y e z hi hstep
  rcases hi with ⟨t', ht', hle⟩ | ⟨w, hw, hend⟩ | ⟨hhold, hy⟩
  · refine .inl ⟨t', ?_, hle⟩
    rw [times, List.filterMap_append]
    exact List.mem_append_left _ ht'
  · exact .inr (.inl ⟨w, hw, hend.snoc e⟩)
  · rcases step_cases hstep with ⟨w, now, till, rfl, -, hfree, -⟩ | ⟨w, rfl, -, hw, -⟩ |
      ⟨w, retry, rfl, -, hw, -⟩ | ⟨_, _, -, -, rfl⟩
    · have hmem : Ev.claim w now till ∈ log ++ [.claim w now till] :=
        List.mem_append_right _ List.mem_cons_self
      exact .inl ⟨now, mem_times hmem, hfree t hy⟩
    · exact .inr (.inl ⟨w, by rw [← hhold, hw], .inl (List.mem_append_right _ List.mem_cons_self)⟩)
    · exact .inr (.inl ⟨w, by rw [← hhold, hw],
        .inr ⟨retry, List.mem_append_right _ List.mem_cons_self⟩⟩)
    · exact .inr (.inr ⟨hhold, hy⟩)

/-- A finished item stays finished. -/
theorem done_stays (hd : x.done = true) (h : replay x log = some y) : y.done = true := by
  refine replay_invariant (I := fun _ y => y.done = true) hd ?_ h
  intro log y e z hd hstep
  rcases step_cases hstep with ⟨_, _, _, -, hd', -⟩ | ⟨_, -, hd', -⟩ | ⟨_, _, -, hd', -⟩ |
    ⟨_, _, -, -, rfl⟩
  · exact absurd hd (by simp [hd'])
  · exact absurd hd (by simp [hd'])
  · exact absurd hd (by simp [hd'])
  · exact hd

/-- A claim that was followed by another one had lapsed at a claim after it,
or its worker had ended it. -/
theorem claim_lapsed {l₁ l₂ l₃ : List (Ev W T)} {now till now' till' : T}
    (h : replay x (l₁ ++ .claim w now till :: l₂ ++ .claim w' now' till' :: l₃) = some y) :
    (∃ t, (t ∈ times l₂ ∨ t = now') ∧ till ≤ t) ∨ Ended w l₂ := by
  obtain ⟨z, hz, hrest⟩ := replay_append.mp h
  obtain ⟨_, -, hz⟩ := replay_append.mp hz
  obtain ⟨x₁, hx₁, hz⟩ := replay_cons.mp hz
  obtain ⟨z₁, hz₁, -⟩ := replay_cons.mp hrest
  obtain ⟨-, -, rfl⟩ := step_claim hx₁
  obtain ⟨-, hfree, -⟩ := step_claim hz₁
  rcases till_stays rfl hz with ⟨t, ht, hle⟩ | ⟨w₁, hw₁, hend⟩ | ⟨-, ht⟩
  · exact .inl ⟨t, .inl ht, hle⟩
  · obtain rfl := Option.some.inj hw₁
    exact .inr hend
  · exact .inl ⟨now', .inr rfl, hfree till ht⟩

/-- Between a claim and the earlier of its end and of what the worker does
itself, nobody else claims. -/
theorem claim_excludes {l₁ l₂ l₃ : List (Ev W T)} {now till now' till' : T}
    (h : replay x (l₁ ++ .claim w now till :: l₂ ++ .claim w' now' till' :: l₃) = some y)
    (hclock : (times (l₁ ++ .claim w now till :: l₂ ++ .claim w' now' till' :: l₃)).Pairwise
      (· ≤ ·)) : till ≤ now' ∨ Ended w l₂ := by
  refine (claim_lapsed h).imp_left ?_
  rintro ⟨t, ht | rfl, hle⟩
  · exact le_trans hle (le_of_mem_times hclock ht)
  · exact hle

/-- After a release nobody claims before its time. -/
theorem release_delays {l₁ l₂ l₃ : List (Ev W T)} {retry now' till' : T}
    (h : replay x (l₁ ++ .release w retry :: l₂ ++ .claim w' now' till' :: l₃) = some y)
    (hclock : (times (l₁ ++ .release w retry :: l₂ ++ .claim w' now' till' :: l₃)).Pairwise
      (· ≤ ·)) : retry ≤ now' := by
  obtain ⟨z, hz, hrest⟩ := replay_append.mp h
  obtain ⟨_, -, hz⟩ := replay_append.mp hz
  obtain ⟨x₁, hx₁, hz⟩ := replay_cons.mp hz
  obtain ⟨z₁, hz₁, -⟩ := replay_cons.mp hrest
  obtain ⟨hd, hfree, -⟩ := step_claim hz₁
  rcases step_cases hx₁ with ⟨_, _, _, he, -⟩ | ⟨_, he, -⟩ | ⟨_, _, he, -, -, rfl⟩ |
    ⟨_, _, -, hd', rfl⟩
  · exact absurd he (by simp)
  · exact absurd he (by simp)
  · injection he with _ hretry
    subst hretry
    rcases till_stays rfl hz with ⟨t, ht, hle⟩ | ⟨w₁, hw₁, -⟩ | ⟨-, ht⟩
    · exact le_trans hle (le_of_mem_times hclock ht)
    · exact absurd hw₁ (by simp)
    · exact hfree retry ht
  · rw [done_stays hd' hz] at hd
    exact absurd hd (by simp)

/-! ## Who holds the item -/

/-- Only the latest claim holds the item, and only its worker finishes it. -/
theorem last_claimer (h : replay {} log = some y) :
    (∀ w, y.holder = some w → (claimers log).getLast? = some w) ∧
      ∀ w, .finish w ∈ log → y.done = true ∧ (claimers log).getLast? = some w := by
  refine replay_invariant (I := fun log y =>
    (∀ w, y.holder = some w → (claimers log).getLast? = some w) ∧
      ∀ w, .finish w ∈ log → y.done = true ∧ (claimers log).getLast? = some w) ?_ ?_ h
  · exact ⟨by simp, by simp⟩
  · intro log y e z hi hstep
    obtain ⟨hhold, hfin⟩ := hi
    rcases step_cases hstep with ⟨w, now, till, rfl, hd, -, rfl⟩ | ⟨w, rfl, hd, hw, rfl⟩ |
      ⟨w, retry, rfl, hd, hw, rfl⟩ | ⟨w, retry, rfl, -, rfl⟩
    · refine ⟨fun w' hw' => ?_, fun w' hw' => ?_⟩
      · rw [claimers_append, claimers_claim, ← hw']
        exact List.getLast?_concat
      · have hmem : Ev.finish w' ∈ log := by simpa using hw'
        exact absurd (hfin w' hmem).1 (by simp [hd])
    · refine ⟨by simp, fun w' hw' => ⟨rfl, ?_⟩⟩
      have hlast : claimers (log ++ [.finish w]) = claimers log :=
        (claimers_append _ _).trans (List.append_nil _)
      rw [hlast]
      rcases List.mem_append.mp hw' with hw' | hw'
      · exact (hfin w' hw').2
      · obtain rfl : w' = w := by simpa using hw'
        exact hhold _ hw
    · refine ⟨by simp, fun w' hw' => ?_⟩
      have hmem : Ev.finish w' ∈ log := by simpa using hw'
      exact absurd (hfin w' hmem).1 (by simp [hd])
    · have hlast : claimers (log ++ [.release w retry]) = claimers log :=
        (claimers_append _ _).trans (List.append_nil _)
      rw [hlast]
      exact ⟨hhold, fun w' hw' => hfin w' (by simpa using hw')⟩

/-- A worker whose claim was taken over does not hold the item again. -/
theorem not_holder_of_later_claim {l₁ l₂ : List (Ev W T)} {now till : T}
    (h : replay {} (l₁ ++ .claim w now till :: l₂) = some y)
    (hnodup : (claimers (l₁ ++ .claim w now till :: l₂)).Nodup)
    (hlater : claimers l₂ ≠ []) : y.holder ≠ some w := by
  intro hw
  have hlast := (last_claimer h).1 w hw
  rw [claimers_append, claimers_claim] at hlast hnodup
  have hmem : w ∈ claimers l₂ := by
    rw [List.append_cons, List.getLast?_append_of_ne_nil _ hlater] at hlast
    exact List.mem_of_getLast? hlast
  exact (List.nodup_cons.mp (List.nodup_append.mp hnodup).2.1).1 hmem

/-- Nobody holds a finished item. -/
theorem holder_of_done (h : replay {} log = some y) (hd : y.done = true) : y.holder = none := by
  refine replay_invariant (I := fun _ y => y.done = true → y.holder = none)
    (fun hd => absurd hd (by simp)) ?_ h hd
  intro log y e z hi hstep hd
  rcases step_cases hstep with ⟨_, _, _, -, hd', -, rfl⟩ | ⟨w, rfl, -, -, rfl⟩ |
    ⟨_, _, -, hd', -, rfl⟩ | ⟨_, _, -, hd', rfl⟩
  · exact absurd hd (by simp [hd'])
  · rfl
  · rfl
  · exact hi hd'

omit [DecidableEq W] [LinearOrder T] in
theorem ended_snoc {e : Ev W T} (h : Ended w (log ++ [e])) :
    Ended w log ∨ e = .finish w ∨ ∃ retry, e = .release w retry := by
  rcases h with h | ⟨retry, h⟩
  · rcases List.mem_append.mp h with h | h
    · exact .inl (.inl h)
    · exact .inr (.inl (List.mem_singleton.mp h).symm)
  · rcases List.mem_append.mp h with h | h
    · exact .inl (.inr ⟨retry, h⟩)
    · exact .inr (.inr ⟨retry, (List.mem_singleton.mp h).symm⟩)

/-- A worker that ended its claim does not hold the item, when no worker
claims twice.  Until the item is finished, such a worker is a claimer. -/
theorem Ended.not_holder (hend : Ended w log) (h : replay {} log = some y)
    (hnodup : (claimers log).Nodup) :
    y.holder ≠ some w ∧ (y.done = false → w ∈ claimers log) := by
  induction log using List.reverseRecOn generalizing y w with
  | nil => exact absurd hend (by simp [Ended])
  | append_singleton log e ih =>
    obtain ⟨z, hz, hstep⟩ := replay_snoc.mp h
    rw [claimers_append] at hnodup ⊢
    obtain ⟨hold, -, hdisj⟩ := List.nodup_append.mp hnodup
    rcases step_cases hstep with ⟨w', now, till, rfl, hd, -, rfl⟩ | ⟨w', rfl, hd, hw, rfl⟩ |
      ⟨w', retry, rfl, hd, hw, rfl⟩ | ⟨w', retry, rfl, hd, rfl⟩
    · have hmem : w ∈ claimers log := by
        rcases ended_snoc hend with hend | he | ⟨retry, he⟩
        · exact (ih hend hz hold).2 hd
        · exact absurd he (by simp)
        · exact absurd he (by simp)
      refine ⟨fun he => ?_, fun _ => List.mem_append_left _ hmem⟩
      exact hdisj w hmem w' List.mem_cons_self (Option.some.inj he).symm
    · exact ⟨by simp, by simp⟩
    · refine ⟨by simp, fun _ => List.mem_append_left _ ?_⟩
      rcases ended_snoc hend with hend | he | ⟨retry', he⟩
      · exact (ih hend hz hold).2 hd
      · exact absurd he (by simp)
      · obtain ⟨rfl, -⟩ := Ev.release.inj he
        exact List.mem_of_getLast? ((last_claimer hz).1 _ hw)
    · exact ⟨by simp [holder_of_done hz hd], by simp [hd]⟩

/-- A claim of the log that has neither lapsed at `t` nor been ended by its
worker. -/
structure Open (log : List (Ev W T)) (t : T) (l₁ : List (Ev W T)) (w : W) (now till : T)
    (l₂ : List (Ev W T)) : Prop where
  eq : log = l₁ ++ .claim w now till :: l₂
  notLapsed : t < till
  notEnded : ¬ Ended w l₂

/-- Once the clock has reached the times of the claims, no claim is open
before another one. -/
theorem Open.last {t : T} {l₁ l₂ l₃ : List (Ev W T)} {now till now' till' : T}
    (hopen : Open log t l₁ w now till (l₂ ++ .claim w' now' till' :: l₃))
    (h : replay x log = some y) (hclock : ∀ now ∈ times log, now ≤ t) : False := by
  have hlog : log = l₁ ++ .claim w now till :: l₂ ++ .claim w' now' till' :: l₃ := by
    rw [hopen.eq]
    simp
  rw [hlog] at h
  rcases claim_lapsed h with ⟨t', ht', hle⟩ | hend
  · have hmem : t' ∈ times log := by
      rw [hlog]
      rcases ht' with ht' | rfl
      · simp [ht']
      · simp
    exact absurd (le_trans hle (hclock t' hmem)) (not_le.mpr hopen.notLapsed)
  · refine hopen.notEnded ?_
    rcases hend with hend | ⟨retry, hend⟩
    · exact .inl (List.mem_append_left _ hend)
    · exact .inr ⟨retry, List.mem_append_left _ hend⟩

/-- At no time are two claims open. -/
theorem Open.unique {t : T} {l₁ l₂ l₁' l₂' : List (Ev W T)} {now till now' till' : T}
    (h₁ : Open log t l₁ w now till l₂) (h₂ : Open log t l₁' w' now' till' l₂')
    (h : replay x log = some y) (hclock : ∀ now ∈ times log, now ≤ t) :
    l₁ = l₁' ∧ w = w' := by
  have heq := h₁.eq.symm.trans h₂.eq
  rcases List.append_eq_append_iff.mp heq with ⟨a, rfl, ha⟩ | ⟨a, rfl, ha⟩
  · cases a with
    | nil =>
      rw [List.nil_append, List.cons.injEq, Ev.claim.injEq] at ha
      exact ⟨(List.append_nil _).symm, ha.1.1⟩
    | cons e a =>
      rw [List.cons_append, List.cons.injEq] at ha
      obtain ⟨-, rfl⟩ := ha
      exact (h₁.last h hclock).elim
  · cases a with
    | nil =>
      rw [List.nil_append, List.cons.injEq, Ev.claim.injEq] at ha
      exact ⟨List.append_nil _, ha.1.1.symm⟩
    | cons e a =>
      rw [List.cons_append, List.cons.injEq] at ha
      obtain ⟨-, rfl⟩ := ha
      exact (h₂.last h hclock).elim

/-- The item counts its claims. -/
theorem claims_eq (h : replay {} log = some y) : y.claims = (claimers log).length := by
  refine replay_invariant (I := fun log y => y.claims = (claimers log).length) rfl ?_ h
  intro log y e z hi hstep
  rw [claimers_append, List.length_append, ← hi]
  rcases step_cases hstep with ⟨w, now, till, rfl, -, -, rfl⟩ | ⟨w, rfl, -, -, rfl⟩ |
    ⟨w, retry, rfl, -, -, rfl⟩ | ⟨w, retry, rfl, -, rfl⟩ <;> rfl

end replay

end Lease
