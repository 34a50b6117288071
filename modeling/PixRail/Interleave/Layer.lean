import PixRail.Interleave.World

/-!
# A system in front of another

A `Layer` stands in front of a system `Y` and has operations of its own,
given by a signature `Q`.  Its calls are `Front` programs: they perform own
operations, hand at most one call over to `Y`, and go on with own operations
once `Y` has returned.  An own operation may read the state of `Y`, and never
changes it.

`Layer.system` is the layer and `Y` as one system, whose runs interleave the
operations of both.  `Layer.refines`: what such a run does to `Y` is a run of
`Y`, and every call of the layer is in one of three stages, before, during or
after its call to `Y`.

`Front.Gives` is the judgement for front programs: what holds of a result
without a call below, of the call below, and of a result with one.
`Stage.finished` and `Stage.entered` carry it over to the calls of a run.
-/

namespace Interleave

variable {S : Sig}

/-! ## Programs -/

/-- The operations of a layer: those of the system below, its own, and the
start of a call to the system below. -/
inductive LayerOp (Y : System S) (Q : Sig) where
  | inner (o : S.Op)
  | own (q : Q.Op)
  | enter (c : Y.Call)

@[reducible] def LayerOp.Ret {Y : System S} {Q : Sig} : LayerOp Y Q → Type
  | inner o => S.Ret o
  | own q => Q.Ret q
  | enter _ => Unit

@[reducible] def layerSig (Y : System S) (Q : Sig) : Sig := ⟨LayerOp Y Q, LayerOp.Ret⟩

/-- A call to the system below, and what is done with its outcome. -/
structure Serve (Y : System S) (Q : Sig) (β : Type) where
  call : Y.Call
  after : Y.Out → Prog Q β

/-- A call of a layer: own operations that end in a result or in a call to
the system below. -/
abbrev Front (Y : System S) (Q : Sig) (β : Type) := Prog Q (β ⊕ Serve Y Q β)

section programs

variable {Y : System S} {Q : Sig} {β : Type}

/-- A program of own operations. -/
def Prog.own : Prog Q β → Prog (layerSig Y Q) β
  | .ret b => .ret b
  | .call q k => .call (.own q) fun r => (k r).own

/-- A call below with `p` left of its body. -/
def Serve.during (sv : Serve Y Q β) : Prog S Y.Out → Prog (layerSig Y Q) β
  | .ret out => (sv.after out).own
  | .call o k => .call (.inner o) fun r => sv.during (k r)

/-- Goes on with the result of a front program. -/
def Front.andThen {γ : Type} (f : Front Y Q β) (k : β → Prog Q γ) : Front Y Q γ :=
  Prog.bind f fun x =>
    match x with
    | .inl b => Sum.inl <$> k b
    | .inr sv => .ret (.inr ⟨sv.call, fun out => sv.after out >>= k⟩)

/-- A front program with its call to the system below. -/
def Front.prog : Front Y Q β → Prog (layerSig Y Q) β
  | .ret (.inl b) => .ret b
  | .ret (.inr sv) => .call (.enter sv.call) fun _ => sv.during (Y.body sv.call)
  | .call q k => .call (.own q) fun r => Front.prog (k r)

end programs

/-! ## Judgements -/

section judgements

variable {Y : System S} {Q : Sig} {β γ : Type} {I : Type}

/-- From the history `h` on, the program returns only what `R` allows. -/
abbrev Prog.Ends (R : List (Action Q I) → β → Prop) (h : List (Action Q I)) (p : Prog Q β) :
    Prop :=
  Prog.Obeys (fun _ _ _ => True) (fun _ _ => True) R h p

/-- What holds of a front program after the history `g`.  A result without a
call below is one that `P` allows, the call below is one that `C` allows, and
`R` relates that call, its outcome, the operations after it and the result. -/
def Front.Gives (P : List (Action Q I) → β → Prop) (C : List (Action Q I) → Y.Call → Prop)
    (R : List (Action Q I) → Y.Call → Y.Out → List (Action Q I) → β → Prop)
    (g : List (Action Q I)) (f : Front Y Q β) : Prop :=
  Prog.Ends (fun g x =>
    match x with
    | .inl b => P g b
    | .inr sv => C g sv.call ∧ ∀ out, (sv.after out).Ends (R g sv.call out) []) g f

variable {P : List (Action Q I) → β → Prop} {C : List (Action Q I) → Y.Call → Prop}
  {R : List (Action Q I) → Y.Call → Y.Out → List (Action Q I) → β → Prop}
  {P' : List (Action Q I) → γ → Prop}
  {R' : List (Action Q I) → Y.Call → Y.Out → List (Action Q I) → γ → Prop}
  {g : List (Action Q I)} {f : Front Y Q β}

/-- Nothing is left to do of a result. -/
theorem Prog.After.of_ret {b : β} {h : List (Action Q I)} {p : Prog Q β}
    (ha : (Prog.ret b).After h p) : h = [] ∧ p = .ret b := by
  induction ha with
  | refl => exact ⟨rfl, rfl⟩
  | snoc hp i r ih => cases ih.2

theorem Front.Gives.andThen {k : β → Prog Q γ} (hf : f.Gives P C R g)
    (hP : ∀ g₁ b, g <+: g₁ → P g₁ b → (k b).Ends P' g₁)
    (hR : ∀ g₁ c out g₂ b, g <+: g₁ → R g₁ c out g₂ b → (k b).Ends (R' g₁ c out) g₂) :
    (f.andThen k).Gives P' C R' g := by
  refine Prog.Obeys.bind hf fun g₁ x hg hx => ?_
  cases x with
  | inl b => exact Prog.Obeys.map (f := Sum.inl) (hP g₁ b hg hx)
  | inr sv =>
    exact ⟨hx.1, fun out => (hx.2 out).bind fun g₂ b _ hb => hR g₁ _ out g₂ b hg hb⟩

theorem Front.Gives.mono {C' : List (Action Q I) → Y.Call → Prop}
    {P' : List (Action Q I) → β → Prop}
    {R' : List (Action Q I) → Y.Call → Y.Out → List (Action Q I) → β → Prop}
    (hf : f.Gives P C R g) (hP : ∀ g b, P g b → P' g b) (hC : ∀ g c, C g c → C' g c)
    (hR : ∀ g c out g' b, C g c → R g c out g' b → R' g c out g' b) : f.Gives P' C' R' g := by
  refine Prog.Obeys.mono hf fun g x _ hx => ?_
  cases x with
  | inl b => exact hP g b hx
  | inr sv => exact ⟨hC g _ hx.1, fun out => (hx.2 out).mono fun g' b _ => hR g _ out g' b hx.1⟩

end judgements

/-! ## The layer and the system below -/

structure Layer (Y : System S) (Q : Sig) where
  Input : Type
  State : Type
  Call : Type
  Out : Type
  handle : (q : Q.Op) → Input → Y.State → State → Option (Q.Ret q × State)
  body : Call → Front Y Q Out

variable {Y : System S} {Q : Sig}

namespace Layer

variable (Z : Layer Y Q)

def answer : (o : LayerOp Y Q) → Y.Input ⊕ Z.Input → Y.State × Z.State →
    Option (o.Ret × (Y.State × Z.State))
  | .inner o, .inl i, s => (Y.handle o i s.1).map fun p => (p.1, p.2, s.2)
  | .own q, .inr i, s => (Z.handle q i s.1 s.2).map fun p => (p.1, s.1, p.2)
  | .enter _, .inr _, s => some ((), s)
  | _, _, _ => none

/-- The layer and the system below as one system. -/
@[reducible] def system : System (layerSig Y Q) where
  Input := Y.Input ⊕ Z.Input
  State := Y.State × Z.State
  Call := Z.Call
  Out := Z.Out
  handle := Z.answer
  body := fun c => (Z.body c).prog

/-- An own action, in the system. -/
def ownAct (a : Action Q Z.Input) : Action (layerSig Y Q) (Y.Input ⊕ Z.Input) :=
  ⟨.own a.op, .inr a.inp, a.ret⟩

/-- An action of the system below, in the system. -/
def innerAct (a : Action S Y.Input) : Action (layerSig Y Q) (Y.Input ⊕ Z.Input) :=
  ⟨.inner a.op, .inl a.inp, a.ret⟩

/-- What an entry of a trace is for the system below. -/
def innerEv : Ev Z.system → Option (Ev Y)
  | .act cid ⟨.inner o, .inl i, r⟩ => some (.act cid ⟨o, i, r⟩)
  | .act cid ⟨.enter c, _, _⟩ => some (.spawn cid c)
  | _ => none

/-- A trace, for the system below. -/
def innerTrace (tr : Trace Z.system) : Trace Y := tr.filterMap Z.innerEv

theorem innerTrace_append (t₁ t₂ : Trace Z.system) :
    Z.innerTrace (t₁ ++ t₂) = Z.innerTrace t₁ ++ Z.innerTrace t₂ :=
  List.filterMap_append

theorem innerTrace_single_none {Z : Layer Y Q} {e : Ev Z.system} (h : Z.innerEv e = none) :
    Z.innerTrace [e] = [] :=
  List.filterMap_cons_none h

theorem innerTrace_single_some {Z : Layer Y Q} {e : Ev Z.system} {e' : Ev Y}
    (h : Z.innerEv e = some e') : Z.innerTrace [e] = [e'] :=
  List.filterMap_cons_some h

/-- An action of the system below is an action of the same call. -/
theorem innerEv_act {Z : Layer Y Q} {e : Ev Z.system} {cid : Nat} {a : Action S Y.Input}
    (h : Z.innerEv e = some (.act cid a)) : ∃ a', e = .act cid a' := by
  rcases e with ⟨cid', d⟩ | ⟨cid', o, i, r⟩
  · cases h
  · cases o with
    | inner o =>
      cases i with
      | inl i =>
        cases h
        exact ⟨_, rfl⟩
      | inr i => cases h
    | own q => cases h
    | enter c => cases h

/-- What an operation is for the system below. -/
def innerOf : Action (layerSig Y Q) (Y.Input ⊕ Z.Input) → Option (Action S Y.Input)
  | ⟨.inner o, .inl i, r⟩ => some ⟨o, i, r⟩
  | _ => none

/-- An operation starts the call below, or is one of the system below, or
nothing. -/
theorem innerTrace_single_act (cid : Nat) (a : Action (layerSig Y Q) (Y.Input ⊕ Z.Input)) :
    (∃ c, Z.innerTrace [.act cid a] = [.spawn cid c] ∧ Z.innerOf a = none) ∨
      Z.innerTrace [.act cid a] = (Z.innerOf a).toList.map (.act cid) := by
  obtain ⟨o, i, r⟩ := a
  cases o with
  | inner o => cases i <;> exact .inr rfl
  | own q => exact .inr rfl
  | enter c => exact .inl ⟨c, rfl, rfl⟩

/-- The operations of a call below are its operations of the system below. -/
theorem hist_innerTrace (tr : Trace Z.system) (cid : Nat) :
    hist cid (Z.innerTrace tr) = (hist cid tr).filterMap Z.innerOf := by
  induction tr using List.reverseRecOn with
  | nil => rfl
  | append_singleton tr e ih =>
    rw [innerTrace_append, hist_append, hist_append, List.filterMap_append, ih]
    congr 1
    cases e with
    | spawn cid' d => rfl
    | act cid' a =>
      rcases Z.innerTrace_single_act cid' a with ⟨c, htr, hnone⟩ | htr
      · rw [htr]
        by_cases hc : cid' = cid <;> simp [hist, hc, hnone]
      · rw [htr]
        by_cases hc : cid' = cid <;> cases ha : Z.innerOf a <;> simp [hist, hc, ha]

/-- A call `d` of the layer with the history `h` and the program `p` left is
before, during or after its call to the system below, where `th` is that
call. -/
inductive Stage (d : Z.Call) (h : List (Action (layerSig Y Q) (Y.Input ⊕ Z.Input)))
    (p : Prog (layerSig Y Q) Z.Out) (th : Option (Thread Y)) : Prop where
  | before {g : List (Action Q Z.Input)} {f : Front Y Q Z.Out} (hfront : (Z.body d).After g f)
      (hh : h = g.map Z.ownAct) (hp : p = f.prog) (hth : th = none)
  | during {g : List (Action Q Z.Input)} {sv : Serve Y Q Z.Out} {i : Z.Input}
      {h' : List (Action S Y.Input)} {q : Prog S Y.Out}
      (hfront : (Z.body d).After g (.ret (.inr sv))) (hbody : (Y.body sv.call).After h' q)
      (hh : h = g.map Z.ownAct ++ ⟨.enter sv.call, .inr i, ()⟩ :: h'.map Z.innerAct)
      (hp : p = sv.during q) (hth : th = some ⟨sv.call, q⟩)
  | after {g g' : List (Action Q Z.Input)} {sv : Serve Y Q Z.Out} {i : Z.Input}
      {h' : List (Action S Y.Input)} {out : Y.Out} {q : Prog Q Z.Out}
      (hfront : (Z.body d).After g (.ret (.inr sv)))
      (hbody : (Y.body sv.call).After h' (.ret out)) (hafter : (sv.after out).After g' q)
      (hh : h = g.map Z.ownAct ++ ⟨.enter sv.call, .inr i, ()⟩ :: h'.map Z.innerAct ++
        g'.map Z.ownAct)
      (hp : p = q.own) (hth : th = some ⟨sv.call, .ret out⟩)

variable {Z}

/-! ## Answers -/

theorem answer_inner {o : S.Op} {i : Y.Input ⊕ Z.Input} {s s' : Y.State × Z.State} {r : S.Ret o}
    (h : Z.answer (.inner o) i s = some (r, s')) :
    ∃ i', i = .inl i' ∧ Y.handle o i' s.1 = some (r, s'.1) ∧ s'.2 = s.2 := by
  cases i with
  | inl i =>
    obtain ⟨p, hp, he⟩ := Option.map_eq_some_iff.mp h
    obtain ⟨rfl, rfl⟩ := Prod.mk.inj he
    exact ⟨i, rfl, hp, rfl⟩
  | inr i => cases h

theorem answer_own {q : Q.Op} {i : Y.Input ⊕ Z.Input} {s s' : Y.State × Z.State} {r : Q.Ret q}
    (h : Z.answer (.own q) i s = some (r, s')) :
    ∃ i', i = .inr i' ∧ Z.handle q i' s.1 s.2 = some (r, s'.2) ∧ s'.1 = s.1 := by
  cases i with
  | inl i => cases h
  | inr i =>
    obtain ⟨p, hp, he⟩ := Option.map_eq_some_iff.mp h
    obtain ⟨rfl, rfl⟩ := Prod.mk.inj he
    exact ⟨i, rfl, hp, rfl⟩

theorem answer_enter {c : Y.Call} {i : Y.Input ⊕ Z.Input} {s s' : Y.State × Z.State} {r : Unit}
    (h : Z.answer (.enter c) i s = some (r, s')) : (∃ i', i = .inr i') ∧ s' = s := by
  cases i with
  | inl i => cases h
  | inr i =>
    cases h
    exact ⟨⟨i, rfl⟩, rfl⟩

/-! ## One operation -/

/-- What an operation of a call does: it leaves the system below alone, it
starts the call to it, or it is an operation of that call. -/
inductive Below (Z : Layer Y Q) (cid : Nat) (s s' : Y.State) (th : Option (Thread Y)) :
    Ev Z.system → Option (Thread Y) → Prop where
  | own {e : Ev Z.system} (he : Z.innerEv e = none) (hs : s' = s) : Below Z cid s s' th e th
  | enter {e : Ev Z.system} {c : Y.Call} (he : Z.innerEv e = some (.spawn cid c))
      (hth : th = none) (hs : s' = s) : Below Z cid s s' th e (some ⟨c, Y.body c⟩)
  | inner {e : Ev Z.system} {c : Y.Call} {o : S.Op} {k : S.Ret o → Prog S Y.Out} {i : Y.Input}
      {r : S.Ret o} (he : Z.innerEv e = some (.act cid ⟨o, i, r⟩))
      (hth : th = some ⟨c, .call o k⟩) (hs : Y.handle o i s = some (r, s')) :
      Below Z cid s s' th e (some ⟨c, k r⟩)

section step

variable {d : Z.Call} {h : List (Action (layerSig Y Q) (Y.Input ⊕ Z.Input))}
  {th : Option (Thread Y)} {o : LayerOp Y Q} {k : o.Ret → Prog (layerSig Y Q) Z.Out}
  {i : Y.Input ⊕ Z.Input} {r : o.Ret} {s s' : Y.State × Z.State}

/-- An own operation after the call below. -/
theorem Stage.step_after {g g' : List (Action Q Z.Input)} {sv : Serve Y Q Z.Out} {j : Z.Input}
    {h' : List (Action S Y.Input)} {out : Y.Out} {q : Prog Q Z.Out}
    (hfront : (Z.body d).After g (.ret (.inr sv)))
    (hbody : (Y.body sv.call).After h' (.ret out)) (hafter : (sv.after out).After g' q)
    (hp : .call o k = (q.own : Prog (layerSig Y Q) Z.Out))
    (hans : Z.answer o i s = some (r, s')) (cid : Nat) :
    Z.Stage d ((g.map Z.ownAct ++ ⟨.enter sv.call, .inr j, ()⟩ :: h'.map Z.innerAct ++
        g'.map Z.ownAct) ++ [⟨o, i, r⟩]) (k r) (some ⟨sv.call, .ret out⟩) ∧
      Z.innerEv (.act cid ⟨o, i, r⟩) = none ∧ s'.1 = s.1 := by
  cases q with
  | ret b => cases hp
  | call q kq =>
    cases hp
    obtain ⟨i', rfl, -, hs⟩ := answer_own hans
    refine ⟨.after (i := j) hfront hbody (hafter.snoc i' r) ?_ rfl rfl, rfl, hs⟩
    rw [List.map_append, ← List.append_assoc]
    rfl

theorem Stage.step (cid : Nat) (hst : Z.Stage d h (.call o k) th)
    (hans : Z.answer o i s = some (r, s')) :
    ∃ th', Below Z cid s.1 s'.1 th (.act cid ⟨o, i, r⟩) th' ∧
      Z.Stage d (h ++ [⟨o, i, r⟩]) (k r) th' := by
  cases hst with
  | @before g f hfront hh hp hth =>
    subst hh hth
    cases f with
    | ret b =>
      cases b with
      | inl b => cases hp
      | inr sv =>
        cases hp
        obtain ⟨⟨i', rfl⟩, hs⟩ := answer_enter hans
        exact ⟨_, .enter rfl rfl (by rw [hs]), .during hfront .refl rfl rfl rfl⟩
    | call q kq =>
      cases hp
      obtain ⟨i', rfl, -, hs⟩ := answer_own hans
      refine ⟨_, .own rfl hs, .before (hfront.snoc i' r) ?_ rfl rfl⟩
      rw [List.map_append]
      rfl
  | @during g sv i₀ h' q hfront hbody hh hp hth =>
    subst hh hth
    cases q with
    | ret out =>
      obtain ⟨hstage, hev, hs⟩ := Stage.step_after (j := i₀) hfront hbody .refl hp hans cid
      refine ⟨_, .own hev hs, ?_⟩
      rwa [List.map_nil, List.append_nil] at hstage
    | call o' kq =>
      cases hp
      obtain ⟨i', rfl, hs, -⟩ := answer_inner hans
      refine ⟨_, .inner rfl rfl hs, .during (i := i₀) hfront (hbody.snoc i' r) ?_ rfl rfl⟩
      rw [List.map_append, List.append_assoc]
      rfl
  | after hfront hbody hafter hh hp hth =>
    subst hh hth
    obtain ⟨hstage, hev, hs⟩ := Stage.step_after hfront hbody hafter hp hans cid
    exact ⟨_, .own hev hs, hstage⟩

end step

/-! ## Runs -/

/-- The stage of call `cid`, if there is one. -/
def StageAt (Z : Layer Y Q) (tr : Trace Z.system) (w : World Z.system) (v : World Y)
    (cid : Nat) : Prop :=
  (w.threads cid = none → v.threads cid = none) ∧
    ∀ d p, w.threads cid = some ⟨d, p⟩ → Z.Stage d (hist cid tr) p (v.threads cid)

variable {s : Y.State} {z : Z.State} {tr : Trace Z.system} {w : World Z.system}

theorem StageAt.spawn {v : World Y} {cid : Nat} {d : Z.Call} (hrun : Run (.init (s, z)) tr w)
    (hfree : w.threads cid = none) (hstage : ∀ cid, Z.StageAt tr w v cid) (cid' : Nat) :
    Z.StageAt (tr ++ [.spawn cid d]) (w.put w.state cid ⟨d, Z.system.body d⟩) v cid' := by
  by_cases hc : cid' = cid
  · subst hc
    refine ⟨fun hn => by simp at hn, fun d' p hth => ?_⟩
    rw [World.put_threads_self] at hth
    cases hth
    refine .before .refl ?_ rfl ((hstage cid').1 hfree)
    rw [hist_snoc_spawn, hrun.hist_eq_nil hfree]
    rfl
  · rw [StageAt, World.put_threads_ne _ _ _ hc, hist_snoc_spawn]
    exact hstage cid'

/-- An operation of call `cid` leaves the stages of the others alone. -/
theorem StageAt.act {v v' : World Y} {cid : Nat} {d : Z.Call} {p : Prog (layerSig Y Q) Z.Out}
    {a : Action (layerSig Y Q) (Y.Input ⊕ Z.Input)} {s' : Y.State × Z.State}
    (hstage : ∀ cid, Z.StageAt tr w v cid)
    (hnew : Z.Stage d (hist cid tr ++ [a]) p (v'.threads cid))
    (hrest : ∀ cid', cid' ≠ cid → v'.threads cid' = v.threads cid') (cid' : Nat) :
    Z.StageAt (tr ++ [.act cid a]) (w.put s' cid ⟨d, p⟩) v' cid' := by
  by_cases hc : cid' = cid
  · subst hc
    refine ⟨fun hn => by simp at hn, fun d' p' hth => ?_⟩
    rw [World.put_threads_self] at hth
    cases hth
    rw [hist_snoc_act_self]
    exact hnew
  · rw [StageAt, World.put_threads_ne _ _ _ hc, hist_snoc_act_ne (Ne.symm hc), hrest cid' hc]
    exact hstage cid'

/-- The run of the system below a run of the layer. -/
structure Refines (Z : Layer Y Q) (s : Y.State) (tr : Trace Z.system) (w : World Z.system)
    (v : World Y) : Prop where
  run : Run (.init s) (Z.innerTrace tr) v
  state : v.state = w.state.1
  stage : ∀ cid, Z.StageAt tr w v cid

/-- A step of the layer is a step below, or leaves the system below alone. -/
theorem Refines.step {v : World Y} (hr : Z.Refines s tr w v) (hrun : Run (.init (s, z)) tr w)
    {e : Ev Z.system} {w' : World Z.system} (hstep : Step w e w') :
    ∃ v', Z.Refines s (tr ++ [e]) w' v' ∧
      (Z.innerEv e = none ∧ v' = v ∨ ∃ e', Z.innerEv e = some e' ∧ Step v e' v') := by
  have hnone : Z.innerEv e = none → Z.innerTrace (tr ++ [e]) = Z.innerTrace tr := by
    intro he
    rw [innerTrace_append, innerTrace_single_none he, List.append_nil]
  have hsome : ∀ {e'}, Z.innerEv e = some e' → Z.innerTrace (tr ++ [e]) = Z.innerTrace tr ++ [e'] :=
    fun he => by rw [innerTrace_append, innerTrace_single_some he]
  cases hstep with
  | @spawn cid d hfree =>
    refine ⟨v, ⟨?_, hr.state, StageAt.spawn hrun hfree hr.stage⟩, .inl ⟨rfl, rfl⟩⟩
    rw [hnone rfl]
    exact hr.run
  | @act cid d o k i r s' hthread hhandle =>
    obtain ⟨th', hbelow, hnew⟩ := ((hr.stage cid).2 d _ hthread).step cid hhandle
    generalize hth : v.threads cid = th at hbelow
    cases hbelow with
    | own he hs =>
      refine ⟨v, ⟨?_, hr.state.trans hs.symm, StageAt.act hr.stage (hth ▸ hnew) fun _ _ => rfl⟩,
        .inl ⟨he, rfl⟩⟩
      rw [hnone he]
      exact hr.run
    | @enter c he hnone' hs =>
      subst hnone'
      have hst : Step v (.spawn cid c) (v.put v.state cid ⟨c, Y.body c⟩) := .spawn c hth
      refine ⟨v.put v.state cid ⟨c, Y.body c⟩, ⟨?_, hr.state.trans hs.symm,
        StageAt.act hr.stage ?_ fun _ hc => World.put_threads_ne _ _ _ hc⟩, .inr ⟨_, he, hst⟩⟩
      · rw [hsome he]
        exact hr.run.snoc hst
      · rw [World.put_threads_self]
        exact hnew
    | @inner c o' k' i' r' he hcall hs =>
      subst hcall
      have hst : Step v (.act cid ⟨o', i', r'⟩) (v.put s'.1 cid ⟨c, k' r'⟩) :=
        .act hth (by rw [hr.state]; exact hs)
      refine ⟨v.put s'.1 cid ⟨c, k' r'⟩, ⟨?_, rfl, StageAt.act hr.stage ?_
        fun _ hc => World.put_threads_ne _ _ _ hc⟩, .inr ⟨_, he, hst⟩⟩
      · rw [hsome he]
        exact hr.run.snoc hst
      · rw [World.put_threads_self]
        exact hnew

/-- A run of the layer goes on below. -/
theorem Refines.later {v : World Y} (hr : Z.Refines s tr w v) (hrun : Run (.init (s, z)) tr w)
    {tr' : Trace Z.system} {w' : World Z.system} (h : Run w tr' w') :
    ∃ v', Z.Refines s (tr ++ tr') w' v' ∧ Run v (Z.innerTrace tr') v' := by
  induction h with
  | nil =>
    rw [List.append_nil]
    exact ⟨v, hr, .nil⟩
  | @snoc tr' w₁ w₂ e h₁ hstep ih =>
    obtain ⟨v₁, hr₁, hv₁⟩ := ih
    obtain ⟨v₂, hr₂, hcases⟩ := hr₁.step (hrun.append h₁) hstep
    rw [List.append_assoc] at hr₂
    refine ⟨v₂, hr₂, ?_⟩
    rw [innerTrace_append]
    rcases hcases with ⟨he, rfl⟩ | ⟨e', he, hst⟩
    · rw [innerTrace_single_none he, List.append_nil]
      exact hv₁
    · rw [innerTrace_single_some he]
      exact hv₁.snoc hst

theorem refines_init (s : Y.State) (z : Z.State) : Z.Refines s [] (.init (s, z)) (.init s) :=
  ⟨.nil, rfl, fun _ => ⟨fun _ => rfl, fun _ _ hth => nomatch hth⟩⟩

/-- What a run of the layer does to the system below is a run of that
system. -/
theorem refines (h : Run (.init (s, z)) tr w) : ∃ v, Z.Refines s tr w v := by
  obtain ⟨v, hr, -⟩ := (refines_init s z).later .nil h
  exact ⟨v, hr⟩

/-- What is left of an own program, once it has returned. -/
theorem own_eq_ret {β : Type} {q : Prog Q β} {b : β}
    (h : (q.own : Prog (layerSig Y Q) β) = .ret b) : q = .ret b := by
  cases q with
  | ret b' => cases h; rfl
  | call q k => cases h

section finished

variable {P : List (Action Q Z.Input) → Z.Out → Prop} {C : List (Action Q Z.Input) → Y.Call → Prop}
  {R : List (Action Q Z.Input) → Y.Call → Y.Out → List (Action Q Z.Input) → Z.Out → Prop}
  {d : Z.Call} {h : List (Action (layerSig Y Q) (Y.Input ⊕ Z.Input))} {th : Option (Thread Y)}

/-- A call that has returned: either it made no call below, or that call has
returned too. -/
theorem Stage.finished {b : Z.Out} (hst : Z.Stage d h (.ret b) th)
    (hgives : (Z.body d).Gives P C R []) :
    (∃ g, h = g.map Z.ownAct ∧ th = none ∧ P g b) ∨
      ∃ g c i h' out g', h = g.map Z.ownAct ++ ⟨.enter c, .inr i, ()⟩ :: h'.map Z.innerAct ++
          g'.map Z.ownAct ∧
        th = some ⟨c, .ret out⟩ ∧ (Y.body c).After h' (.ret out) ∧ C g c ∧ R g c out g' b := by
  cases hst with
  | @before g f hfront hh hp hth =>
    cases f with
    | ret x =>
      cases x with
      | inl b' =>
        cases hp
        exact .inl ⟨g, hh, hth, hgives.after hfront fun _ _ => trivial⟩
      | inr sv => cases hp
    | call q k => cases hp
  | @during g sv i h' q hfront hbody hh hp hth =>
    obtain ⟨hC, hR⟩ := hgives.after hfront fun _ _ => trivial
    cases q with
    | ret out =>
      have hret := own_eq_ret (Y := Y) hp.symm
      have hb := hR out
      rw [hret] at hb
      refine .inr ⟨g, sv.call, i, h', out, [], ?_, hth, hbody, hC, hb⟩
      rw [List.map_nil, List.append_nil]
      exact hh
    | call o k => cases hp
  | @after g g' sv i h' out q hfront hbody hafter hh hp hth =>
    obtain ⟨hC, hR⟩ := hgives.after hfront fun _ _ => trivial
    have hret := own_eq_ret (Y := Y) hp.symm
    subst hret
    exact .inr ⟨g, sv.call, i, h', out, g', hh, hth, hbody, hC,
      (hR out).after hafter fun _ _ => trivial⟩

/-- The call below of a call. -/
theorem Stage.entered {p : Prog (layerSig Y Q) Z.Out} {c : Y.Call} {q : Prog S Y.Out}
    (hst : Z.Stage d h p (some ⟨c, q⟩)) (hgives : (Z.body d).Gives P C R []) : ∃ g, C g c := by
  cases hst with
  | before hfront hh hp hth => cases hth
  | @during g sv i h' q hfront hbody hh hp hth =>
    cases hth
    exact ⟨g, (hgives.after hfront fun _ _ => trivial).1⟩
  | @after g g' sv i h' out q hfront hbody hafter hh hp hth =>
    cases hth
    exact ⟨g, (hgives.after hfront fun _ _ => trivial).1⟩

end finished

end Layer

end Interleave
