import Mathlib.Data.List.Basic
import Mathlib.Data.List.Induction

/-!
# Calls on keys

A limiter answers calls one after another.  A call has a key and the time
that the clock reads.  `PerKey` says that a limiter has one entry for each
key, and that the answer to a call and the new entry depend on the entry of
its key alone.  What such a limiter does on a key is then what a limiter of
that key alone does on the calls for it (`PerKey.serve_key`), and an invariant
of one entry holds in every run (`alone_invariant`).
-/

namespace Keyed

/-- A call on a key. -/
structure Call (K : Type) where
  time : Int
  key : K
  deriving DecidableEq

/-- The clock does not go back. -/
def Clock {K : Type} (cs : List (Call K)) : Prop :=
  cs.Pairwise fun c c' => c.time ≤ c'.time

instance {K : Type} (cs : List (Call K)) : Decidable (Clock cs) :=
  inferInstanceAs (Decidable (cs.Pairwise fun c c' => c.time ≤ c'.time))

/-- There is a time after all of the calls. -/
theorem exists_bound {K : Type} (cs : List (Call K)) : ∃ now, ∀ c ∈ cs, c.time ≤ now := by
  induction cs with
  | nil => exact ⟨0, by simp⟩
  | cons c cs ih =>
    obtain ⟨now, hnow⟩ := ih
    refine ⟨max c.time now, List.forall_mem_cons.mpr ⟨by omega, ?_⟩⟩
    intro c' hc'
    have hle := hnow c' hc'
    omega

section serve

variable {L K : Type} (allow : L → Int → K → Bool × L)

/-- The calls with their answers, and the limiter after them. -/
def serve : L → List (Call K) → List (Call K × Bool) × L
  | l, [] => ([], l)
  | l, c :: cs =>
    let r := allow l c.time c.key
    let rest := serve r.2 cs
    ((c, r.1) :: rest.1, rest.2)

theorem serve_append (l : L) (cs cs' : List (Call K)) :
    serve allow l (cs ++ cs') =
      ((serve allow l cs).1 ++ (serve allow (serve allow l cs).2 cs').1,
        (serve allow (serve allow l cs).2 cs').2) := by
  induction cs generalizing l with
  | nil => rfl
  | cons c cs ih =>
    rw [List.cons_append, serve, serve, ih]
    rfl

variable {allow}

/-- An invariant of the time and the limiter, if it outlasts a wait and every
call of a run, holds after the run. -/
theorem serve_invariant (Inv : Int → L → Prop) {l : L} (start : ∀ t, Inv t l)
    (wait : ∀ {t t' l}, t ≤ t' → Inv t l → Inv t' l) {cs : List (Call K)} (hclock : Clock cs)
    (call : ∀ pre c post, cs = pre ++ c :: post → Inv c.time (serve allow l pre).2 →
      Inv c.time (allow (serve allow l pre).2 c.time c.key).2)
    {now : Int} (hnow : ∀ c ∈ cs, c.time ≤ now) : Inv now (serve allow l cs).2 := by
  induction cs using List.reverseRecOn generalizing now with
  | nil => exact start now
  | append_singleton cs c ih =>
    obtain ⟨hcs, -, hlast⟩ := List.pairwise_append.mp hclock
    have hbefore := ih hcs (fun pre c' post hsplit => call pre c' (post ++ [c]) (by simp [hsplit]))
      fun c' hc' => hlast c' hc' c List.mem_cons_self
    have hafter := call cs c [] rfl hbefore
    rw [serve_append]
    exact wait (hnow c (List.mem_append_right _ List.mem_cons_self)) hafter

end serve

section keys

variable {K : Type} [DecidableEq K]

/-- The times of the calls on a key. -/
def times (key : K) (cs : List (Call K)) : List Int :=
  (cs.filter (·.key = key)).map (·.time)

/-- The calls on a key, with their answers. -/
def keyLog (key : K) (log : List (Call K × Bool)) : List (Int × Bool) :=
  (log.filter (·.1.key = key)).map fun e => (e.1.time, e.2)

theorem Clock.times {cs : List (Call K)} (h : Clock cs) (key : K) :
    (times key cs).Pairwise (· ≤ ·) :=
  List.pairwise_map.mpr (h.sublist List.filter_sublist)

theorem mem_times {key : K} {cs : List (Call K)} {t : Int} :
    t ∈ times key cs ↔ ∃ c ∈ cs, c.key = key ∧ c.time = t := by
  simp only [times, List.mem_map, List.mem_filter, decide_eq_true_eq, and_assoc]

end keys

/-! ## One key -/

/-- The times of the calls that were allowed. -/
def grants (log : List (Int × Bool)) : List Int :=
  (log.filter (·.2)).map (·.1)

/-- The times at which a call on the key was allowed. -/
def granted {K : Type} [DecidableEq K] (key : K) (log : List (Call K × Bool)) : List Int :=
  grants (keyLog key log)

/-- How many of the times lie in `[a, b)`. -/
def within (a b : Int) (g : List Int) : Nat := g.countP fun t => a ≤ t ∧ t < b

theorem within_snoc_inside {a b t : Int} (ha : a ≤ t) (hb : t < b) (g : List Int) :
    within a b (g ++ [t]) = within a b g + 1 := by
  simp [within, ha, hb]

theorem within_snoc_outside {a b t : Int} (h : ¬ (a ≤ t ∧ t < b)) (g : List Int) :
    within a b (g ++ [t]) = within a b g := by
  simp only [within, List.countP_append, List.countP_singleton, decide_eq_true_eq, if_neg h,
    Nat.add_zero]

theorem within_snoc (a b t : Int) (g : List Int) :
    within a b (g ++ [t]) = within a b g + if a ≤ t ∧ t < b then 1 else 0 := by
  split_ifs with h
  · exact within_snoc_inside h.1 h.2 g
  · exact within_snoc_outside h g

section alone

variable {σ : Type} (rule : Int → Option σ → Bool × σ)

/-- A limiter of one key. -/
def alone : Option σ → List Int → List (Int × Bool) × Option σ
  | s, [] => ([], s)
  | s, t :: ts =>
    let r := rule t s
    let rest := alone (some r.2) ts
    ((t, r.1) :: rest.1, rest.2)

variable {rule}

theorem alone_append (s : Option σ) (ts ts' : List Int) :
    alone rule s (ts ++ ts') =
      ((alone rule s ts).1 ++ (alone rule (alone rule s ts).2 ts').1,
        (alone rule (alone rule s ts).2 ts').2) := by
  induction ts generalizing s with
  | nil => rfl
  | cons t ts ih =>
    rw [List.cons_append, alone, alone, ih]
    rfl

/-- An invariant of the time, the grants so far and the entry, if it outlasts
a wait and a call, holds after any calls. -/
theorem alone_invariant (Inv : Int → List Int → Option σ → Prop)
    (wait : ∀ {t t' g s}, t ≤ t' → Inv t g s → Inv t' g s)
    {ts : List Int} (hclock : ts.Pairwise (· ≤ ·))
    (call : ∀ {t g s}, t ∈ ts → Inv t g s →
      Inv t (if (rule t s).1 then g ++ [t] else g) (some (rule t s).2))
    {t now : Int} {g : List Int} {s : Option σ}
    (hinv : Inv t g s) (hstart : ∀ u ∈ ts, t ≤ u) (hnow : ∀ u ∈ ts, u ≤ now) (hle : t ≤ now) :
    Inv now (g ++ grants (alone rule s ts).1) (alone rule s ts).2 := by
  induction ts generalizing t g s with
  | nil =>
    show Inv now (g ++ []) s
    rw [List.append_nil]
    exact wait hle hinv
  | cons u ts ih =>
    obtain ⟨hu, hts⟩ := List.pairwise_cons.mp hclock
    have hcall := call List.mem_cons_self (wait (hstart u List.mem_cons_self) hinv)
    have hrest := ih hts (fun hmem => call (List.mem_cons_of_mem _ hmem)) hcall hu
      (fun v hv => hnow v (List.mem_cons_of_mem _ hv)) (hnow u List.mem_cons_self)
    show Inv now (g ++ grants ((u, (rule u s).1) :: _)) _
    cases hr : (rule u s).1 with
    | true =>
      rw [hr, if_pos rfl, List.append_assoc] at hrest
      exact hrest
    | false =>
      rw [hr, if_neg Bool.false_ne_true] at hrest
      exact hrest

end alone

/-! ## Many keys -/

/-- `allow` has an entry for each key, and goes by `rule` on the entry of the
key it is called with. -/
structure PerKey {L K C σ : Type} (allow : L → Int → K → Bool × L) (config : L → C)
    (entry : L → K → Option σ) (rule : C → Int → Option σ → Bool × σ) : Prop where
  config_eq : ∀ l t k, config (allow l t k).2 = config l
  answer : ∀ l t k, (allow l t k).1 = (rule (config l) t (entry l k)).1
  entry_self : ∀ l t k, entry (allow l t k).2 k = some (rule (config l) t (entry l k)).2
  entry_ne : ∀ l t {k k'}, k' ≠ k → entry (allow l t k).2 k' = entry l k'

namespace PerKey

variable {L K C σ : Type} {allow : L → Int → K → Bool × L} {config : L → C}
  {entry : L → K → Option σ} {rule : C → Int → Option σ → Bool × σ}

theorem serve_config (h : PerKey allow config entry rule) (l : L) (cs : List (Call K)) :
    config (serve allow l cs).2 = config l := by
  induction cs generalizing l with
  | nil => rfl
  | cons c cs ih => exact (ih _).trans (h.config_eq l c.time c.key)

variable [DecidableEq K]

/-- A key sees the calls on it alone. -/
theorem serve_key (h : PerKey allow config entry rule) (key : K) (l : L) (cs : List (Call K)) :
    keyLog key (serve allow l cs).1 = (alone (rule (config l)) (entry l key) (times key cs)).1 ∧
      entry (serve allow l cs).2 key =
        (alone (rule (config l)) (entry l key) (times key cs)).2 := by
  induction cs generalizing l with
  | nil => exact ⟨rfl, rfl⟩
  | cons c cs ih =>
    obtain ⟨hlog, hentry⟩ := ih (allow l c.time c.key).2
    rw [h.config_eq] at hlog hentry
    by_cases hkey : c.key = key
    · subst hkey
      rw [h.entry_self] at hlog hentry
      have htimes : times c.key (c :: cs) = c.time :: times c.key cs := by
        simp [times]
      have hserve : keyLog c.key (serve allow l (c :: cs)).1 =
          (c.time, (allow l c.time c.key).1) ::
            keyLog c.key (serve allow (allow l c.time c.key).2 cs).1 := by
        simp [keyLog, serve]
      rw [htimes, hserve, h.answer]
      exact ⟨congrArg _ hlog, hentry⟩
    · rw [h.entry_ne l c.time (Ne.symm hkey)] at hlog hentry
      have htimes : times key (c :: cs) = times key cs := by
        simp [times, hkey]
      have hserve : keyLog key (serve allow l (c :: cs)).1 =
          keyLog key (serve allow (allow l c.time c.key).2 cs).1 := by
        simp [keyLog, serve, hkey]
      rw [htimes, hserve]
      exact ⟨hlog, hentry⟩

/-- An invariant of one entry holds in every run of a limiter that starts
without entries. -/
theorem invariant (h : PerKey allow config entry rule) {key : K} {l : L}
    (hnew : entry l key = none) (Inv : Int → List Int → Option σ → Prop)
    (start : ∀ t, Inv t [] none)
    (wait : ∀ {t t' g s}, t ≤ t' → Inv t g s → Inv t' g s)
    {cs : List (Call K)} (call : ∀ {t g s}, t ∈ times key cs → Inv t g s →
      Inv t (if (rule (config l) t s).1 then g ++ [t] else g) (some (rule (config l) t s).2))
    (hclock : Clock cs) {now : Int} (hnow : ∀ c ∈ cs, c.time ≤ now) :
    Inv now (granted key (serve allow l cs).1) (entry (serve allow l cs).2 key) := by
  obtain ⟨hlog, hentry⟩ := h.serve_key key l cs
  have hsorted := hclock.times key
  have hle : ∀ u ∈ times key cs, u ≤ now := by
    intro u hu
    obtain ⟨c, hc, -, rfl⟩ := mem_times.mp hu
    exact hnow c hc
  unfold granted
  rw [hlog, hentry, hnew]
  cases hts : times key cs with
  | nil => exact start now
  | cons t ts =>
    rw [hts] at hsorted hle call
    have hfirst : ∀ u ∈ t :: ts, t ≤ u :=
      List.forall_mem_cons.mpr ⟨Int.le_refl t, (List.pairwise_cons.mp hsorted).1⟩
    exact alone_invariant Inv wait hsorted call (start t) hfirst hle (hle t List.mem_cons_self)

/-- Two limiters whose entries stay related, whatever the key and the calls on
it, answer every call alike.  `R past` relates the entries of a key after
calls at the times `past`. -/
theorem simulation {L₂ C₂ σ₂ : Type} {allow₂ : L₂ → Int → K → Bool × L₂} {config₂ : L₂ → C₂}
    {entry₂ : L₂ → K → Option σ₂} {rule₂ : C₂ → Int → Option σ₂ → Bool × σ₂}
    (h : PerKey allow config entry rule) (h₂ : PerKey allow₂ config₂ entry₂ rule₂)
    {l : L} {l₂ : L₂} (R : List Int → Option σ → Option σ₂ → Prop)
    (start : ∀ key, R [] (entry l key) (entry₂ l₂ key)) (cs : List (Call K))
    (call : ∀ {key past t s s₂}, past ++ [t] <+: times key cs → R past s s₂ →
      (rule (config l) t s).1 = (rule₂ (config₂ l₂) t s₂).1 ∧
        R (past ++ [t]) (some (rule (config l) t s).2) (some (rule₂ (config₂ l₂) t s₂).2)) :
    (serve allow l cs).1 = (serve allow₂ l₂ cs).1 ∧
      ∀ key, R (times key cs) (entry (serve allow l cs).2 key)
        (entry₂ (serve allow₂ l₂ cs).2 key) := by
  induction cs using List.reverseRecOn with
  | nil => exact ⟨rfl, start⟩
  | append_singleton cs c ih =>
    have hsplit : ∀ key, times key (cs ++ [c]) = times key cs ++ times key [c] := fun key => by
      simp [times]
    obtain ⟨hlog, hrel⟩ := ih fun hpast => call (hpast.trans ⟨_, (hsplit _).symm⟩)
    have hself : times c.key [c] = [c.time] := by
      simp [times]
    have hpast : times c.key cs ++ [c.time] <+: times c.key (cs ++ [c]) :=
      ⟨[], by rw [hsplit, hself, List.append_nil]⟩
    obtain ⟨hanswer, hnext⟩ := call hpast (hrel c.key)
    rw [serve_append, serve_append]
    rw [← h.serve_config l cs, ← h₂.serve_config l₂ cs, ← h.answer, ← h₂.answer] at hanswer
    refine ⟨?_, fun key => ?_⟩
    · show _ ++ [(c, _)] = _ ++ [(c, _)]
      rw [hlog, hanswer]
    · show R _ (entry (allow _ c.time c.key).2 key) (entry₂ (allow₂ _ c.time c.key).2 key)
      by_cases hkey : key = c.key
      · subst hkey
        rw [h.entry_self, h₂.entry_self, h.serve_config, h₂.serve_config, hsplit, hself]
        exact hnext
      · have hother : times key [c] = [] := by
          simp [times, Ne.symm hkey]
        rw [h.entry_ne _ _ hkey, h₂.entry_ne _ _ hkey, hsplit, hother, List.append_nil]
        exact hrel key

end PerKey

end Keyed
