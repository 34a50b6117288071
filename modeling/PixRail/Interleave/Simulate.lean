import Mathlib.Data.List.Forall2
import Mathlib.Data.Option.Defs
import PixRail.Interleave.World

/-!
# Two ways to answer the same calls

`System.over` keeps the calls of a system and answers their operations from
another state.  If related answers lead a program to the same operations
(`Prog.Alike`), and one step of the new system is matched by one step of the
old one with a related answer, then every run of the new system is matched by
a run of the old one (`Run.simulated`).
-/

namespace Interleave

variable {S : Sig}

/-! ## Programs -/

namespace Prog

variable {α α' β β' : Type} {R : (o : S.Op) → S.Ret o → S.Ret o → Prop}
  {Q : α → α' → Prop} {Q' : β → β' → Prop}

/-- The programs perform the same operations as long as `R` relates the
answers they get, and return results that `Q` relates. -/
inductive Alike (R : (o : S.Op) → S.Ret o → S.Ret o → Prop) (Q : α → α' → Prop) :
    Prog S α → Prog S α' → Prop where
  | ret {a : α} {a' : α'} (h : Q a a') : Alike R Q (.ret a) (.ret a')
  | call {o : S.Op} {k : S.Ret o → Prog S α} {k' : S.Ret o → Prog S α'}
      (h : ∀ r r', R o r r' → Alike R Q (k r) (k' r')) : Alike R Q (.call o k) (.call o k')

/-- The rule for sequencing. -/
theorem Alike.bind {p : Prog S α} {p' : Prog S α'} {f : α → Prog S β} {f' : α' → Prog S β'}
    (hp : Alike R Q p p') (hf : ∀ a a', Q a a' → Alike R Q' (f a) (f' a')) :
    Alike R Q' (p >>= f) (p' >>= f') := by
  induction hp with
  | ret h => exact hf _ _ h
  | call h ih => exact .call fun r r' hr => ih r r' hr

theorem Alike.map {p : Prog S α} {p' : Prog S α'} {f : α → β} {f' : α' → β'}
    (hp : Alike R Q p p') (hf : ∀ a a', Q a a' → Q' (f a) (f' a')) :
    Alike R Q' (f <$> p) (f' <$> p') :=
  hp.bind fun a a' h => .ret (hf a a' h)

/-- Programs that start with the same operation. -/
theorem alike_perform {o : S.Op} {f : S.Ret o → Prog S β} {f' : S.Ret o → Prog S β'}
    (hf : ∀ r r', R o r r' → Alike R Q' (f r) (f' r')) :
    Alike R Q' (perform o >>= f) (perform o >>= f') :=
  .call hf

end Prog

/-! ## Systems -/

/-- The calls of `Y`, with their operations answered from another state. -/
@[reducible] def System.over (Y : System S) (St : Type)
    (hd : (o : S.Op) → Y.Input → St → Option (S.Ret o × St)) : System S where
  Input := Y.Input
  State := St
  Call := Y.Call
  Out := Y.Out
  handle := hd
  body := Y.body

/-- The same scheduling decision, for the other state. -/
def Label.over {Y : System S} {St : Type}
    {hd : (o : S.Op) → Y.Input → St → Option (S.Ret o × St)} : Label Y → Label (Y.over St hd)
  | .spawn cid c => .spawn cid c
  | .step cid i => .step cid i

variable {Y : System S} {St : Type} {hd : (o : S.Op) → Y.Input → St → Option (S.Ret o × St)}
  {R : (o : S.Op) → S.Ret o → S.Ret o → Prop} {Q : Y.Out → Y.Out → Prop}

/-- The next operation of a call is one that its contract allows. -/
theorem Contract.allows_of_thread {s : Y.State} (K : Contract Y s) {tr : Trace Y} {w : World Y}
    (h : Run (.init s) tr w) {cid : Nat} {c : Y.Call} {o : S.Op} {k : S.Ret o → Prog S Y.Out}
    (hth : w.threads cid = some ⟨c, .call o k⟩) :
    Ev.spawn cid c ∈ tr ∧ K.allows c (hist cid tr) o :=
  ⟨(h.thread hth).1,
    (h.obeys_thread hth (K.obeys c) fun _ ha => K.ens_of_mem h (mem_hist.mp ha)).1⟩

/-- The same start of a call, or the same operation with related answers. -/
inductive Ev.Alike (R : (o : S.Op) → S.Ret o → S.Ret o → Prop) :
    Ev (Y.over St hd) → Ev Y → Prop where
  | spawn (cid : Nat) (c : Y.Call) : Alike R (.spawn cid c) (.spawn cid c)
  | act (cid : Nat) {o : S.Op} (i : Y.Input) {r r' : S.Ret o} (h : R o r r') :
      Alike R (.act cid ⟨o, i, r⟩) (.act cid ⟨o, i, r'⟩)

/-- The same call, and what is left of it does the same. -/
def Thread.Alike (R : (o : S.Op) → S.Ret o → S.Ret o → Prop) (Q : Y.Out → Y.Out → Prop)
    (th : Thread (Y.over St hd)) (th' : Thread Y) : Prop :=
  th.call = th'.call ∧ th.prog.Alike R Q th'.prog

/-- The calls in flight are alike. -/
def World.Alike (R : (o : S.Op) → S.Ret o → S.Ret o → Prop) (Q : Y.Out → Y.Out → Prop)
    (w : World (Y.over St hd)) (v : World Y) : Prop :=
  ∀ cid, Option.Rel (Thread.Alike R Q) (w.threads cid) (v.threads cid)

theorem World.Alike.put {w : World (Y.over St hd)} {v : World Y} (h : w.Alike R Q v) (t : St)
    (s : Y.State) (cid : Nat) {th : Thread (Y.over St hd)} {th' : Thread Y}
    (hth : th.Alike R Q th') : (w.put t cid th).Alike R Q (v.put s cid th') := by
  intro cid'
  by_cases hc : cid' = cid
  · subst hc
    rw [World.put_threads_self, World.put_threads_self]
    exact .some hth
  · rw [World.put_threads_ne _ _ _ hc, World.put_threads_ne _ _ _ hc]
    exact h cid'

/-- What one step of the new system must be matched by: after matching runs,
the next operation of a call has a related answer in the old system, and `I`
goes on to relate the states. -/
def Matched (R : (o : S.Op) → S.Ret o → S.Ret o → Prop) (I : Trace Y → St → Y.State → Prop)
    (A : Trace (Y.over St hd) → Prop) (s₀ : Y.State) : Prop :=
  ∀ {tr : Trace (Y.over St hd)} {tr' : Trace Y} {v : World Y} {cid : Nat} {c : Y.Call} {o : S.Op}
    {k : S.Ret o → Prog S Y.Out} {i : Y.Input} {r : S.Ret o} {t t' : St},
    Run (.init s₀) tr' v → List.Forall₂ (Ev.Alike R) tr tr' → A (tr ++ [.act cid ⟨o, i, r⟩]) →
    I tr' t v.state → v.threads cid = some ⟨c, .call o k⟩ → hd o i t = some (r, t') →
      ∃ r' s', Y.handle o i v.state = some (r', s') ∧ R o r r' ∧
        I (tr' ++ [.act cid ⟨o, i, r'⟩]) t' s'

/-- Every run of the new system is matched by a run of the old one, as long as
the assumption `A` holds of its trace. -/
theorem Run.simulated {I : Trace Y → St → Y.State → Prop} {A : Trace (Y.over St hd) → Prop}
    {s₀ : Y.State} {t₀ : St} (hbody : ∀ c, (Y.body c).Alike R Q (Y.body c)) (hinit : I [] t₀ s₀)
    (hspawn : ∀ {tr t s} cid c, I tr t s → I (tr ++ [.spawn cid c]) t s)
    (hcut : ∀ {tr e}, A (tr ++ [e]) → A tr) (hmatch : Matched R I A s₀)
    {tr : Trace (Y.over St hd)} {w : World (Y.over St hd)} (h : Run (.init t₀) tr w) (hA : A tr) :
    ∃ tr' v, Run (.init s₀) tr' v ∧ List.Forall₂ (Ev.Alike R) tr tr' ∧ I tr' w.state v.state ∧
      w.Alike R Q v := by
  induction h with
  | nil => exact ⟨[], .init s₀, .nil, .nil, hinit, fun _ => .none⟩
  | snoc hrun hstep ih =>
    obtain ⟨tr', v, hrun', htr, hI, halike⟩ := ih (hcut hA)
    cases hstep with
    | @spawn cid c hfree =>
      have hfree' : v.threads cid = none := by
        have hrel := halike cid
        rw [hfree] at hrel
        cases hv : v.threads cid with
        | none => rfl
        | some th =>
          rw [hv] at hrel
          cases hrel
      exact ⟨tr' ++ [.spawn cid c], v.put v.state cid ⟨c, Y.body c⟩,
        hrun'.snoc (.spawn (Y := Y) c hfree'),
        List.rel_append htr (.cons (.spawn (Y := Y) cid c) .nil),
        hspawn cid c hI, halike.put _ _ cid ⟨rfl, hbody c⟩⟩
    | @act cid c o k i r t' hthread hhandle =>
      have hrel := halike cid
      rw [hthread] at hrel
      cases hv : v.threads cid with
      | none =>
        rw [hv] at hrel
        cases hrel
      | some th =>
        rw [hv] at hrel
        obtain ⟨c', p'⟩ := th
        cases hrel with
        | some hth =>
          obtain ⟨rfl, hprog⟩ := hth
          cases hprog with
          | call hk =>
            obtain ⟨r', s', hhandle', hr, hI'⟩ := hmatch hrun' htr hA hI hv hhandle
            exact ⟨tr' ++ [.act cid ⟨o, i, r'⟩], _, hrun'.snoc (.act hv hhandle'),
              List.rel_append htr (.cons (.act (Y := Y) cid i hr) .nil), hI',
              halike.put _ _ cid ⟨rfl, hk r r' hr⟩⟩

end Interleave
