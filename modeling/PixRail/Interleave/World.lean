import PixRail.Interleave.Prog
import Mathlib.Logic.Function.Basic

/-!
# Interleaved calls over a shared state

A `System` answers the operations of a signature over a shared state and
lists the calls that may be made.  A `World` is the shared state together
with the calls in flight.  One step starts a call or performs the next
operation of a call; the operation is atomic and everything between two
operations of a call is open to the others.  A call that is never scheduled
again has stopped.

A `Run` records its trace.  `Run.thread` ties a call in flight to its own
part of the trace, and `Contract` packages the proof rule that follows: what
the calls do is shown once, per call, with `Prog.Obeys`, and an invariant of
the shared state is then preserved by one operation at a time.
-/

namespace Interleave

/-- A shared state, the answers to the operations over it, and the calls.
`handle` is partial: the input must be one that fits the operation. -/
structure System (S : Sig) where
  Input : Type
  State : Type
  Call : Type
  Out : Type
  handle : (o : S.Op) → Input → State → Option (S.Ret o × State)
  body : Call → Prog S Out

variable {S : Sig} (Y : System S)

/-- A call in flight: the call, and what is left of its body. -/
structure Thread where
  call : Y.Call
  prog : Prog S Y.Out

structure World where
  state : Y.State
  threads : Nat → Option (Thread Y)

/-- One entry of a trace.  Calls are named by numbers. -/
inductive Ev where
  | spawn (cid : Nat) (call : Y.Call)
  | act (cid : Nat) (a : Action S Y.Input)

abbrev Trace := List (Ev Y)

variable {Y}

/-- The world with no call in flight. -/
def World.init (s : Y.State) : World Y := ⟨s, fun _ => none⟩

/-- The world with shared state `s` and `th` as call `cid`. -/
def World.put (w : World Y) (s : Y.State) (cid : Nat) (th : Thread Y) : World Y :=
  ⟨s, Function.update w.threads cid (some th)⟩

@[simp] theorem World.put_state (w : World Y) (s : Y.State) (cid : Nat) (th : Thread Y) :
    (w.put s cid th).state = s := rfl

@[simp] theorem World.put_threads_self (w : World Y) (s : Y.State) (cid : Nat)
    (th : Thread Y) : (w.put s cid th).threads cid = some th :=
  Function.update_self ..

theorem World.put_threads_ne (w : World Y) (s : Y.State) {cid cid' : Nat} (th : Thread Y)
    (h : cid' ≠ cid) : (w.put s cid th).threads cid' = w.threads cid' :=
  Function.update_of_ne h ..

theorem World.put_put (w : World Y) (s s' : Y.State) (cid : Nat) (th th' : Thread Y) :
    (w.put s cid th).put s' cid th' = w.put s' cid th' := by
  unfold World.put
  rw [Function.update_idem]

theorem World.forall_put {P : Thread Y → Prop} {w : World Y} {s : Y.State} {cid : Nat}
    {th : Thread Y} (hself : P th) (hold : ∀ cid' th', w.threads cid' = some th' → P th') :
    ∀ cid' th', (w.put s cid th).threads cid' = some th' → P th' := by
  intro cid' th' hth
  by_cases hc : cid' = cid
  · subst hc
    rw [put_threads_self, Option.some.injEq] at hth
    exact hth ▸ hself
  · rw [put_threads_ne _ _ _ hc] at hth
    exact hold cid' th' hth

inductive Step : World Y → Ev Y → World Y → Prop where
  | spawn {w : World Y} {cid : Nat} (c : Y.Call) (hfree : w.threads cid = none) :
      Step w (.spawn cid c) (w.put w.state cid ⟨c, Y.body c⟩)
  | act {w : World Y} {cid : Nat} {c : Y.Call} {o : S.Op} {k : S.Ret o → Prog S Y.Out}
      {i : Y.Input} {r : S.Ret o} {s' : Y.State}
      (hthread : w.threads cid = some ⟨c, .call o k⟩)
      (hhandle : Y.handle o i w.state = some (r, s')) :
      Step w (.act cid ⟨o, i, r⟩) (w.put s' cid ⟨c, k r⟩)

/-- Steps from `w₀`, with the trace in the order of the steps. -/
inductive Run (w₀ : World Y) : Trace Y → World Y → Prop where
  | nil : Run w₀ [] w₀
  | snoc {tr : Trace Y} {w w' : World Y} {e : Ev Y} (hrun : Run w₀ tr w)
      (hstep : Step w e w') : Run w₀ (tr ++ [e]) w'

namespace Run

variable {w₀ w₁ w₂ : World Y} {s : Y.State} {tr : Trace Y} {w : World Y}

theorem append {t₁ t₂ : Trace Y} (h₁ : Run w₀ t₁ w₁) (h₂ : Run w₁ t₂ w₂) :
    Run w₀ (t₁ ++ t₂) w₂ := by
  induction h₂ with
  | nil => rwa [List.append_nil]
  | snoc _ hstep ih =>
    rw [← List.append_assoc]
    exact ih.snoc hstep

/-- A run stops at the world each prefix of its trace leads to. -/
theorem split {t₁ t₂ : Trace Y} (h : Run w₀ (t₁ ++ t₂) w₂) :
    ∃ w₁, Run w₀ t₁ w₁ ∧ Run w₁ t₂ w₂ := by
  induction t₂ using List.reverseRecOn generalizing w₂ with
  | nil =>
    rw [List.append_nil] at h
    exact ⟨w₂, h, .nil⟩
  | append_singleton t₂ e ih =>
    rw [← List.append_assoc] at h
    generalize hx : t₁ ++ t₂ ++ [e] = x at h
    cases h with
    | nil => simp at hx
    | snoc hrun hstep =>
      obtain ⟨htr, he⟩ := List.append_inj' hx rfl
      subst htr
      obtain rfl := List.singleton_inj.mp he
      obtain ⟨w₁, h₁, h₂⟩ := ih hrun
      exact ⟨w₁, h₁, h₂.snoc hstep⟩

theorem nil_inv (h : Run w₀ [] w₂) : w₂ = w₀ := by
  generalize hx : ([] : Trace Y) = x at h
  cases h with
  | nil => rfl
  | snoc hrun hstep => simp at hx

theorem snoc_inv {e : Ev Y} (h : Run w₀ (tr ++ [e]) w₂) :
    ∃ w₁, Run w₀ tr w₁ ∧ Step w₁ e w₂ := by
  generalize hx : tr ++ [e] = x at h
  cases h with
  | nil => simp at hx
  | snoc hrun hstep =>
    obtain ⟨htr, he⟩ := List.append_inj' hx rfl
    subst htr
    obtain rfl := List.singleton_inj.mp he
    exact ⟨_, hrun, hstep⟩

/-- The world before an entry of the trace, the step of that entry, and the
rest of the run. -/
theorem at_entry {t₁ t₂ : Trace Y} {e : Ev Y} (h : Run w₀ (t₁ ++ e :: t₂) w₂) :
    ∃ w w', Run w₀ t₁ w ∧ Step w e w' ∧ Run w' t₂ w₂ := by
  rw [List.append_cons] at h
  obtain ⟨w', h₁, h₂⟩ := h.split
  obtain ⟨w, h₀, hstep⟩ := h₁.snoc_inv
  exact ⟨w, w', h₀, hstep, h₂⟩

end Run

/-! ## The part of a trace that belongs to one call -/

/-- The actions of call `cid`, oldest first. -/
def hist (cid : Nat) : Trace Y → List (Action S Y.Input)
  | [] => []
  | .spawn _ _ :: tr => hist cid tr
  | .act cid' a :: tr => if cid' = cid then a :: hist cid tr else hist cid tr

@[simp] theorem hist_nil (cid : Nat) : hist cid ([] : Trace Y) = [] := rfl

theorem hist_append (cid : Nat) (t₁ t₂ : Trace Y) :
    hist cid (t₁ ++ t₂) = hist cid t₁ ++ hist cid t₂ := by
  induction t₁ with
  | nil => rfl
  | cons e t₁ ih =>
    cases e with
    | spawn cid' c => simpa [hist] using ih
    | act cid' a =>
      simp only [List.cons_append, hist, ih]
      split <;> rfl

@[simp] theorem hist_snoc_spawn (cid cid' : Nat) (c : Y.Call) (tr : Trace Y) :
    hist cid (tr ++ [.spawn cid' c]) = hist cid tr := by
  simp [hist_append, hist]

@[simp] theorem hist_snoc_act_self (cid : Nat) (a : Action S Y.Input) (tr : Trace Y) :
    hist cid (tr ++ [.act cid a]) = hist cid tr ++ [a] := by
  simp [hist_append, hist]

theorem hist_snoc_act_ne {cid cid' : Nat} (h : cid' ≠ cid) (a : Action S Y.Input)
    (tr : Trace Y) : hist cid (tr ++ [.act cid' a]) = hist cid tr := by
  simp [hist_append, hist, h]

/-- The actions of a call are the entries of the trace under its number. -/
theorem mem_hist {cid : Nat} {a : Action S Y.Input} {tr : Trace Y} :
    a ∈ hist cid tr ↔ Ev.act cid a ∈ tr := by
  induction tr with
  | nil => simp
  | cons e tr ih =>
    cases e with
    | spawn cid' c => simp [hist, ih]
    | act cid' b =>
      by_cases h : cid' = cid
      · subst h
        simp [hist, ih]
      · have h' : ¬ cid = cid' := fun he => h he.symm
        simp [hist, h, h', ih]

/-- A cut in the history of a call is a cut in the trace. -/
theorem hist_split {cid : Nat} {tr : Trace Y} {h₁ h₂ : List (Action S Y.Input)}
    {a : Action S Y.Input} (h : hist cid tr = h₁ ++ a :: h₂) :
    ∃ t₁ t₂, tr = t₁ ++ .act cid a :: t₂ ∧ hist cid t₁ = h₁ ∧ hist cid t₂ = h₂ := by
  induction tr generalizing h₁ with
  | nil => simp at h
  | cons e tr ih =>
    cases e with
    | spawn cid' c =>
      have htail : hist cid tr = h₁ ++ a :: h₂ := by simpa [hist] using h
      obtain ⟨t₁, t₂, rfl, ht₁, ht₂⟩ := ih htail
      exact ⟨.spawn cid' c :: t₁, t₂, rfl, by simpa [hist] using ht₁, ht₂⟩
    | act cid' b =>
      by_cases hc : cid' = cid
      · subst hc
        simp only [hist, if_true] at h
        cases h₁ with
        | nil =>
          obtain ⟨rfl, htail⟩ := List.cons.inj h
          exact ⟨[], tr, rfl, rfl, htail⟩
        | cons b' h₁ =>
          obtain ⟨rfl, htail⟩ := List.cons.inj h
          obtain ⟨t₁, t₂, rfl, ht₁, ht₂⟩ := ih htail
          exact ⟨.act cid' b :: t₁, t₂, rfl, by simp [hist, ht₁], ht₂⟩
      · simp only [hist, if_neg hc] at h
        obtain ⟨t₁, t₂, rfl, ht₁, ht₂⟩ := ih h
        exact ⟨.act cid' b :: t₁, t₂, rfl, by simpa [hist, hc] using ht₁, ht₂⟩

namespace Run

variable {s : Y.State} {tr : Trace Y} {w : World Y} {cid : Nat}

private theorem thread_aux (h : Run (.init s) tr w) (cid : Nat) :
    (w.threads cid = none → hist cid tr = [] ∧ ∀ c, Ev.spawn cid c ∉ tr) ∧
    ∀ th, w.threads cid = some th →
      (∀ c, Ev.spawn cid c ∈ tr ↔ c = th.call) ∧
      (Y.body th.call).After (hist cid tr) th.prog := by
  induction h with
  | nil => simp [World.init]
  | @snoc tr w w' e hrun hstep ih =>
    cases hstep with
    | @spawn cid' c hfree =>
      by_cases hc : cid' = cid
      · subst hc
        obtain ⟨hhist, hno⟩ := ih.1 hfree
        refine ⟨fun hn => by simp at hn, fun th hth => ?_⟩
        rw [World.put_threads_self, Option.some.injEq] at hth
        subst hth
        refine ⟨fun c' => ?_, ?_⟩
        · simp [hno c']
        · rw [hist_snoc_spawn, hhist]
          exact .refl
      · have hne : cid ≠ cid' := fun he => hc he.symm
        rw [World.put_threads_ne _ _ _ hne, hist_snoc_spawn]
        refine ⟨fun hn => ?_, fun th hth => ?_⟩
        · obtain ⟨hhist, hno⟩ := ih.1 hn
          exact ⟨hhist, fun c' => by simp [hno c', hne]⟩
        · obtain ⟨hsp, haft⟩ := ih.2 th hth
          exact ⟨fun c' => by simp [hsp c', hne], haft⟩
    | @act cid' c o k i r s' hthread hhandle =>
      by_cases hc : cid' = cid
      · subst hc
        refine ⟨fun hn => by simp at hn, fun th hth => ?_⟩
        rw [World.put_threads_self, Option.some.injEq] at hth
        subst hth
        obtain ⟨hsp, haft⟩ := ih.2 _ hthread
        refine ⟨fun c' => by simp [hsp c'], ?_⟩
        rw [hist_snoc_act_self]
        exact haft.snoc i r
      · have hne : cid ≠ cid' := fun he => hc he.symm
        rw [World.put_threads_ne _ _ _ hne, hist_snoc_act_ne hc]
        refine ⟨fun hn => ?_, fun th hth => ?_⟩
        · obtain ⟨hhist, hno⟩ := ih.1 hn
          exact ⟨hhist, fun c' => by simp [hno c']⟩
        · obtain ⟨hsp, haft⟩ := ih.2 th hth
          exact ⟨fun c' => by simp [hsp c'], haft⟩

/-- A call in flight was started once, and what is left of its body is what
its own actions leave. -/
theorem thread (h : Run (.init s) tr w) {th : Thread Y} (hth : w.threads cid = some th) :
    Ev.spawn cid th.call ∈ tr ∧ (Y.body th.call).After (hist cid tr) th.prog := by
  obtain ⟨hsp, haft⟩ := (h.thread_aux cid).2 th hth
  exact ⟨(hsp _).mpr rfl, haft⟩

/-- A number that names no call has done nothing. -/
theorem hist_eq_nil (h : Run (.init s) tr w) (hth : w.threads cid = none) :
    hist cid tr = [] :=
  ((h.thread_aux cid).1 hth).1

/-- A call has done nothing before it starts. -/
theorem hist_eq_nil_of_spawn {t₁ t₂ : Trace Y} (h : Run (.init s) (t₁ ++ t₂) w) {c : Y.Call}
    (hc : Ev.spawn cid c ∈ t₂) : hist cid t₁ = [] := by
  obtain ⟨a, b, rfl⟩ := List.append_of_mem hc
  rw [← List.append_assoc] at h
  obtain ⟨w₁, w₂, h₁, hstep, -⟩ := h.at_entry
  cases hstep with
  | spawn c hfree =>
    have hnil := h₁.hist_eq_nil hfree
    rw [hist_append] at hnil
    exact (List.append_eq_nil_iff.mp hnil).1

/-- A call that acts or starts in `t₂` performs its last operation there. -/
theorem last_after {t₁ t₂ : Trace Y} (h : Run (.init s) (t₁ ++ t₂) w)
    (hlater : (∃ c, Ev.spawn cid c ∈ t₂) ∨ hist cid t₂ ≠ []) {o : S.Op} {r : S.Ret o}
    (hlast : Last (hist cid (t₁ ++ t₂)) o r) :
    ∃ t₃ t₄ i, t₂ = t₃ ++ .act cid ⟨o, i, r⟩ :: t₄ := by
  obtain ⟨h₀, i, hh⟩ := hlast
  have hne : hist cid t₂ ≠ [] := by
    rcases hlater with ⟨c, hc⟩ | hne
    · intro hnil
      rw [hist_append, h.hist_eq_nil_of_spawn hc, hnil] at hh
      exact absurd hh (by simp)
    · exact hne
  rw [hist_append, ← List.dropLast_append_getLast hne, ← List.append_assoc] at hh
  have hx := List.singleton_inj.mp (List.append_inj' hh rfl).2
  have hcut := (List.dropLast_append_getLast hne).symm
  rw [hx] at hcut
  obtain ⟨t₃, t₄, rfl, -, -⟩ := hist_split hcut
  exact ⟨t₃, t₄, i, rfl⟩

/-- A started call stays in flight. -/
theorem thread_of_spawn (h : Run (.init s) tr w) {c : Y.Call} (hc : Ev.spawn cid c ∈ tr) :
    ∃ p, w.threads cid = some ⟨c, p⟩ := by
  cases hth : w.threads cid with
  | none => exact absurd hc (((h.thread_aux cid).1 hth).2 c)
  | some th =>
    have := ((h.thread_aux cid).2 th hth).1 c |>.mp hc
    subst this
    exact ⟨th.prog, rfl⟩

/-- A number names one call. -/
theorem spawn_unique (h : Run (.init s) tr w) {c c' : Y.Call} (hc : Ev.spawn cid c ∈ tr)
    (hc' : Ev.spawn cid c' ∈ tr) : c = c' := by
  obtain ⟨p, hp⟩ := h.thread_of_spawn hc
  obtain ⟨p', hp'⟩ := h.thread_of_spawn hc'
  rw [hp, Option.some.injEq, Thread.mk.injEq] at hp'
  exact hp'.1

end Run

namespace Run

variable {s : Y.State} {tr : Trace Y} {w : World Y} {cid : Nat}
  {ens : (o : S.Op) → Y.Input → S.Ret o → Prop}
  {P : List (Action S Y.Input) → S.Op → Prop} {Q : List (Action S Y.Input) → Y.Out → Prop}

/-- What is left of a call obeys what its body obeys, if its answers were as
they should be. -/
theorem obeys_thread (h : Run (.init s) tr w) {th : Thread Y}
    (hth : w.threads cid = some th) (hob : (Y.body th.call).Obeys ens P Q [])
    (hens : ∀ a ∈ hist cid tr, ens a.op a.inp a.ret) :
    th.prog.Obeys ens P Q (hist cid tr) :=
  hob.after (h.thread hth).2 hens

/-- An operation of such a call is one that `P` allows. -/
theorem obeys_step (h : Run (.init s) tr w) {a : Action S Y.Input} {w' : World Y}
    (hstep : Step w (.act cid a) w') {c : Y.Call} (hc : Ev.spawn cid c ∈ tr)
    (hob : (Y.body c).Obeys ens P Q [])
    (hens : ∀ a ∈ hist cid tr, ens a.op a.inp a.ret) : P (hist cid tr) a.op := by
  cases hstep with
  | @act _ c' o k i r s' hthread hhandle =>
    obtain rfl := h.spawn_unique hc (h.thread hthread).1
    exact (h.obeys_thread hthread hob hens).1

end Run

/-! ## The proof rule -/

/-- What the calls of a system promise.  `ens` is what they may rely on for
the answers, `allows` what they perform and `returns` what they return, both
after their own history. -/
structure Contract (Y : System S) (s : Y.State) where
  ens : (o : S.Op) → Y.Input → S.Ret o → Prop
  allows : Y.Call → List (Action S Y.Input) → S.Op → Prop
  returns : Y.Call → List (Action S Y.Input) → Y.Out → Prop
  obeys : ∀ c, (Y.body c).Obeys ens (allows c) (returns c) []
  sound : ∀ {tr : Trace Y} {w : World Y}, Run (.init s) tr w →
    ∀ {o i r s'}, Y.handle o i w.state = some (r, s') → ens o i r

namespace Contract

variable {s : Y.State} (K : Contract Y s) {tr : Trace Y} {w : World Y} {cid : Nat}

theorem ens_of_mem (h : Run (.init s) tr w) {a : Action S Y.Input}
    (ha : Ev.act cid a ∈ tr) : K.ens a.op a.inp a.ret := by
  obtain ⟨t₁, t₂, rfl⟩ := List.append_of_mem ha
  obtain ⟨w₁, w₂, hrun, hstep, -⟩ := h.at_entry
  cases hstep with
  | act hthread hhandle => exact K.sound hrun hhandle

/-- Every operation a call performs is one that its contract allows after
its own history. -/
theorem allows_of_step (h : Run (.init s) tr w) {a : Action S Y.Input} {w' : World Y}
    (hstep : Step w (.act cid a) w') :
    ∃ c, Ev.spawn cid c ∈ tr ∧ K.allows c (hist cid tr) a.op := by
  have hens : ∀ b ∈ hist cid tr, K.ens b.op b.inp b.ret :=
    fun b hb => K.ens_of_mem h (mem_hist.mp hb)
  cases hstep with
  | @act _ c o k i r s' hthread hhandle =>
    have hc := (h.thread hthread).1
    exact ⟨c, hc, h.obeys_step (.act hthread hhandle) hc (K.obeys c) hens⟩

/-- Every result is one that the contract of the call allows. -/
theorem returns_of_thread (h : Run (.init s) tr w) {c : Y.Call} {out : Y.Out}
    (hth : w.threads cid = some ⟨c, .ret out⟩) : K.returns c (hist cid tr) out := by
  exact h.obeys_thread hth (K.obeys c) fun b hb => K.ens_of_mem h (mem_hist.mp hb)

/-- The operation at an entry of the trace. -/
theorem allows_at {t₁ t₂ : Trace Y} {a : Action S Y.Input}
    (h : Run (.init s) (t₁ ++ .act cid a :: t₂) w) :
    ∃ c, Ev.spawn cid c ∈ t₁ ∧ K.allows c (hist cid t₁) a.op := by
  obtain ⟨w₁, w₂, hrun, hstep, -⟩ := h.at_entry
  exact K.allows_of_step hrun hstep

end Contract

/-! ## Executing a schedule -/

/-- A scheduling decision: start a call, or let a call perform its next
operation under an input. -/
inductive Label (Y : System S) where
  | spawn (cid : Nat) (call : Y.Call)
  | step (cid : Nat) (i : Y.Input)

def World.next (w : World Y) : Label Y → Option (Ev Y × World Y)
  | .spawn cid c =>
    match w.threads cid with
    | none => some (.spawn cid c, w.put w.state cid ⟨c, Y.body c⟩)
    | some _ => none
  | .step cid i =>
    match w.threads cid with
    | some ⟨c, .call o k⟩ =>
      match Y.handle o i w.state with
      | some (r, s') => some (.act cid ⟨o, i, r⟩, w.put s' cid ⟨c, k r⟩)
      | none => none
    | _ => none

/-- Execute a schedule; `none` when a decision does not apply. -/
def World.exec (w : World Y) : List (Label Y) → Option (Trace Y × World Y)
  | [] => some ([], w)
  | l :: ls =>
    match w.next l with
    | none => none
    | some (e, w') =>
      match w'.exec ls with
      | none => none
      | some (tr, w'') => some (e :: tr, w'')

theorem World.step_of_next {w w' : World Y} {l : Label Y} {e : Ev Y}
    (h : w.next l = some (e, w')) : Step w e w' := by
  cases l with
  | spawn cid c =>
    simp only [World.next] at h
    split at h
    · rename_i hfree
      obtain ⟨rfl, rfl⟩ := Prod.mk.inj (Option.some.inj h)
      exact .spawn c hfree
    · exact absurd h (by simp)
  | step cid i =>
    simp only [World.next] at h
    split at h
    · rename_i c o k hthread
      split at h
      · rename_i r s' hhandle
        obtain ⟨rfl, rfl⟩ := Prod.mk.inj (Option.some.inj h)
        exact .act hthread hhandle
      · exact absurd h (by simp)
    · exact absurd h (by simp)

/-- An executed schedule is a run. -/
theorem World.run_of_exec {w w' : World Y} {ls : List (Label Y)} {tr : Trace Y}
    (h : w.exec ls = some (tr, w')) : Run w tr w' := by
  induction ls generalizing w tr with
  | nil =>
    obtain ⟨rfl, rfl⟩ := Prod.mk.inj (Option.some.inj h)
    exact .nil
  | cons l ls ih =>
    simp only [World.exec] at h
    split at h
    · exact absurd h (by simp)
    · rename_i e w₁ hnext
      split at h
      · exact absurd h (by simp)
      · rename_i tr₁ w₂ hexec
        obtain ⟨rfl, rfl⟩ := Prod.mk.inj (Option.some.inj h)
        have h₁ : Run w [e] w₁ := Run.nil.snoc (World.step_of_next hnext)
        exact h₁.append (ih hexec)

/-- The trace and the world that a schedule leads to. -/
def World.ran (w : World Y) (ls : List (Label Y)) (h : (w.exec ls).isSome) : Trace Y × World Y :=
  (w.exec ls).get h

theorem World.run_ran (w : World Y) (ls : List (Label Y)) (h : (w.exec ls).isSome) :
    Run w (w.ran ls h).1 (w.ran ls h).2 :=
  World.run_of_exec (Option.some_get h).symm

/-- What call `cid` has returned. -/
def World.result (w : World Y) (cid : Nat) : Option Y.Out :=
  match w.threads cid with
  | some ⟨_, .ret out⟩ => some out
  | _ => none

theorem World.result_eq_some {w : World Y} {cid : Nat} {out : Y.Out}
    (h : w.result cid = some out) : ∃ c, w.threads cid = some ⟨c, .ret out⟩ := by
  unfold World.result at h
  split at h
  · rename_i c out' hth
    obtain rfl := Option.some.inj h
    exact ⟨c, hth⟩
  · exact absurd h (by simp)

/-! ## Runs under a condition -/

/-- A run each of whose steps meets a condition on the trace before it, the
world it is taken in and its entry. -/
inductive RunIf (P : Trace Y → World Y → Ev Y → Prop) (w₀ : World Y) : Trace Y → World Y →
    Prop where
  | nil : RunIf P w₀ [] w₀
  | snoc {tr : Trace Y} {w w' : World Y} {e : Ev Y} (h : RunIf P w₀ tr w) (hstep : Step w e w')
      (hp : P tr w e) : RunIf P w₀ (tr ++ [e]) w'

section conditions

variable {P : Trace Y → World Y → Ev Y → Prop} {w₀ w : World Y}

theorem RunIf.run {tr : Trace Y} (h : RunIf P w₀ tr w) : Run w₀ tr w := by
  induction h with
  | nil => exact .nil
  | snoc _ hstep _ ih => exact ih.snoc hstep

theorem RunIf.at_entry {t₁ t₂ : Trace Y} {e : Ev Y} (h : RunIf P w₀ (t₁ ++ e :: t₂) w) :
    ∃ w₁ w₂, RunIf P w₀ t₁ w₁ ∧ P t₁ w₁ e ∧ Step w₁ e w₂ ∧ Run w₂ t₂ w := by
  generalize htr : t₁ ++ e :: t₂ = tr at h
  induction h generalizing t₂ with
  | nil => exact absurd htr (by simp)
  | @snoc tr w w' e' h hstep hp ih =>
    rcases snoc_eq_append_cons htr.symm with ⟨rfl, rfl, rfl⟩ | ⟨t₂', rfl, htr'⟩
    · exact ⟨w, w', h, hp, hstep, .nil⟩
    · obtain ⟨w₁, w₂, h₁, hp₁, hstep₁, h₂⟩ := ih htr'.symm
      exact ⟨w₁, w₂, h₁, hp₁, hstep₁, h₂.snoc hstep⟩

variable [∀ tr w e, Decidable (P tr w e)]

/-- Execute a schedule after a trace; `none` also when a step does not meet
the condition. -/
def World.execIf (P : Trace Y → World Y → Ev Y → Prop) [∀ tr w e, Decidable (P tr w e)]
    (tr : Trace Y) (w : World Y) : List (Label Y) → Option (Trace Y × World Y)
  | [] => some (tr, w)
  | l :: ls =>
    match w.next l with
    | none => none
    | some (e, w') => if P tr w e then w'.execIf P (tr ++ [e]) ls else none

theorem World.runIf_of_execIf {tr tr' : Trace Y} {w' : World Y} {ls : List (Label Y)}
    (h₀ : RunIf P w₀ tr w) (h : w.execIf P tr ls = some (tr', w')) : RunIf P w₀ tr' w' := by
  induction ls generalizing w tr with
  | nil =>
    obtain ⟨rfl, rfl⟩ := Prod.mk.inj (Option.some.inj h)
    exact h₀
  | cons l ls ih =>
    simp only [World.execIf] at h
    split at h
    · exact absurd h (by simp)
    · rename_i e w₁ hnext
      obtain ⟨hp, hexec⟩ := Option.ite_none_right_eq_some.mp h
      exact ih (h₀.snoc (World.step_of_next hnext) hp) hexec

/-- The trace and the world that a schedule leads to under the condition. -/
def World.ranIf (P : Trace Y → World Y → Ev Y → Prop) [∀ tr w e, Decidable (P tr w e)]
    (w : World Y) (ls : List (Label Y)) (h : (w.execIf P [] ls).isSome) : Trace Y × World Y :=
  (w.execIf P [] ls).get h

theorem World.runIf_ranIf (w : World Y) (ls : List (Label Y))
    (h : (w.execIf P [] ls).isSome) : RunIf P w (w.ranIf P ls h).1 (w.ranIf P ls h).2 :=
  World.runIf_of_execIf .nil (Option.some_get h).symm

end conditions

end Interleave
