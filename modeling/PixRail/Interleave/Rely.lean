import PixRail.Interleave.World

/-!
# Relying on what the others do

A rely-guarantee logic for the calls of a system.  A `Pact` has an invariant
of the shared state and a relation of how the state may change.  The `Terms`
of a call are a condition on the inputs of its operations, the operations
that it performs under the condition, and what then holds of its result.
`Pact.Guarded` says of a program, from a state on, that it keeps to the pact
and to its terms as long as the others keep to the pact in between.  It is a
recursion over the program, so it is shown along the code.

If every call is guarded under every input, the pact holds in every run
(`Pact.keeps`).  A call that is guarded under a condition keeps to its terms
in every run in which its inputs meet the condition (`Pact.guarded_of_spawn`).
-/

namespace Interleave

variable {S : Sig}

/-- What holds of the state, and how it may change. -/
structure Pact (Y : System S) where
  inv : Y.State → Prop
  rely : Y.State → Y.State → Prop
  refl : ∀ s, rely s s
  trans : ∀ {s s' s''}, rely s s' → rely s' s'' → rely s s''

/-- Under inputs that satisfy `needs`, a call performs operations that
satisfy `does` and its result satisfies `gives`. -/
structure Terms (Y : System S) where
  needs : Y.Input → Prop
  does : S.Op → Prop
  gives : Y.State → Y.Out → Prop

variable {Y : System S}

/-- The terms under every input, without a bound on the operations. -/
def Terms.always (gives : Y.State → Y.Out → Prop) : Terms Y where
  needs _ := True
  does _ := True
  gives := gives

namespace Pact

variable (J : Pact Y)

/-- From `s` on, the program keeps to the pact and to the terms as long as the
others keep to the pact. -/
def Guarded (T : Terms Y) : Y.State → Prog S Y.Out → Prop
  | s, .ret out => ∀ s', J.rely s s' → J.inv s' → T.gives s' out
  | s, .call o k => T.does o ∧ ∀ s₁, J.rely s s₁ → J.inv s₁ → ∀ i r s₂, T.needs i →
    Y.handle o i s₁ = some (r, s₂) → J.inv s₂ ∧ J.rely s₁ s₂ ∧ Guarded T s₂ (k r)

variable {J} {T : Terms Y} {gives : Y.State → Y.Out → Prop} {s s' : Y.State}

/-- What the others do in between changes nothing. -/
theorem Guarded.later {p : Prog S Y.Out} (h : J.Guarded T s p) (hs : J.rely s s') :
    J.Guarded T s' p := by
  cases p with
  | ret out => exact fun s'' hs' => h s'' (J.trans hs hs')
  | call o k => exact ⟨h.1, fun s₁ hs₁ => h.2 s₁ (J.trans hs hs₁)⟩

/-- One operation of a guarded program. -/
theorem Guarded.act {o : S.Op} {k : S.Ret o → Prog S Y.Out} (h : J.Guarded T s (.call o k))
    (hinv : J.inv s) {i : Y.Input} (hi : T.needs i) {r : S.Ret o}
    (hr : Y.handle o i s = some (r, s')) : J.inv s' ∧ J.rely s s' ∧ J.Guarded T s' (k r) :=
  h.2 s (J.refl s) hinv i r s' hi hr

/-- An operation that leaves the state as it is. -/
theorem Guarded.read {o : S.Op} {k : S.Ret o → Prog S Y.Out} (hdoes : T.does o)
    (hread : ∀ i s r s', Y.handle o i s = some (r, s') → s' = s)
    (hnext : ∀ s₁, J.rely s s₁ → J.inv s₁ → ∀ i r, T.needs i →
      Y.handle o i s₁ = some (r, s₁) → J.Guarded T s₁ (k r)) : J.Guarded T s (.call o k) := by
  refine ⟨hdoes, fun s₁ hs₁ hinv i r s₂ hi hr => ?_⟩
  obtain rfl := hread i s₁ r s₂ hr
  exact ⟨hinv, J.refl _, hnext _ hs₁ hinv i r hi hr⟩

theorem Guarded.ite {b : Prop} [Decidable b] {p q : Prog S Y.Out} (hp : b → J.Guarded T s p)
    (hq : ¬ b → J.Guarded T s q) : J.Guarded T s (if b then p else q) := by
  by_cases hb : b
  · rw [if_pos hb]
    exact hp hb
  · rw [if_neg hb]
    exact hq hb

section runs

variable {s₀ : Y.State} {tr : Trace Y} {w : World Y}

/-- A step of a system whose calls are guarded. -/
theorem keeps_step (hbody : ∀ c s, J.inv s → J.Guarded (.always gives) s (Y.body c))
    (hinv : J.inv w.state)
    (hthreads : ∀ cid th, w.threads cid = some th → J.Guarded (.always gives) w.state th.prog)
    {e : Ev Y} {w' : World Y} (hstep : Step w e w') :
    J.inv w'.state ∧ J.rely w.state w'.state ∧ ∀ cid th, w'.threads cid = some th →
      J.Guarded (.always gives) w'.state th.prog := by
  cases hstep with
  | spawn c hfree =>
    exact ⟨hinv, J.refl _, World.forall_put (hbody c _ hinv) hthreads⟩
  | @act cid c o k i r s' hthread hhandle =>
    obtain ⟨hinv', hrely, hrest⟩ := (hthreads cid _ hthread).act hinv trivial hhandle
    refine ⟨hinv', hrely, World.forall_put hrest fun cid' th hth => ?_⟩
    exact (hthreads cid' th hth).later hrely

/-- If every call is guarded, the invariant holds in every run and what is
left of every call is guarded. -/
theorem keeps (hbody : ∀ c s, J.inv s → J.Guarded (.always gives) s (Y.body c))
    (hinit : J.inv s₀) (h : Run (.init s₀) tr w) :
    J.inv w.state ∧ ∀ cid th, w.threads cid = some th →
      J.Guarded (.always gives) w.state th.prog := by
  induction h with
  | nil => exact ⟨hinit, nofun⟩
  | snoc _ hstep ih =>
    obtain ⟨hinv, -, hthreads⟩ := keeps_step hbody ih.1 ih.2 hstep
    exact ⟨hinv, hthreads⟩

/-- The result of a call that has returned. -/
theorem Guarded.returns {cid : Nat} {c : Y.Call} {p : Prog S Y.Out}
    (h : J.Guarded T w.state p) (hinv : J.inv w.state) (hth : w.threads cid = some ⟨c, p⟩)
    {out : Y.Out} (hout : w.result cid = some out) : T.gives w.state out := by
  obtain ⟨c', hret⟩ := World.result_eq_some hout
  obtain ⟨-, rfl⟩ := Thread.mk.inj (Option.some.inj (hth.symm.trans hret))
  exact h _ (J.refl _) hinv

/-- What a call that started in `w` has done and what is left of it, if it is
guarded and the inputs of its operations met its condition. -/
theorem guarded_of_spawn (hbody : ∀ c s, J.inv s → J.Guarded (.always gives) s (Y.body c))
    (hinit : J.inv s₀) (h : Run (.init s₀) tr w) {cid : Nat} {c : Y.Call}
    (hc : J.Guarded T w.state (Y.body c)) {tr' : Trace Y} {w' : World Y}
    (h' : Run w (.spawn cid c :: tr') w') (hneeds : ∀ a ∈ hist cid tr', T.needs a.inp) :
    (∀ a ∈ hist cid tr', T.does a.op) ∧
      ∃ p, w'.threads cid = some ⟨c, p⟩ ∧ J.Guarded T w'.state p := by
  induction tr' using List.reverseRecOn generalizing w' with
  | nil =>
    replace h' : Run w ([] ++ [.spawn cid c]) w' := h'
    obtain ⟨w₁, hnil, hstep⟩ := h'.snoc_inv
    obtain rfl := hnil.nil_inv
    cases hstep with
    | spawn c hfree => exact ⟨nofun, Y.body c, World.put_threads_self .., hc⟩
  | append_singleton tr' e ih =>
    replace h' : Run w ((.spawn cid c :: tr') ++ [e]) w' := h'
    obtain ⟨w₁, h₁, hstep⟩ := h'.snoc_inv
    rw [hist_append] at hneeds ⊢
    obtain ⟨hdid, p, hth, hp⟩ := ih h₁ fun a ha => hneeds a (List.mem_append_left _ ha)
    obtain ⟨hinv, hthreads⟩ := keeps hbody hinit (h.append h₁)
    obtain ⟨-, hrely, -⟩ := keeps_step hbody hinv hthreads hstep
    cases hstep with
    | @spawn cid' c' hfree =>
      have hne : cid ≠ cid' := by
        rintro rfl
        exact nomatch hfree.symm.trans hth
      refine ⟨by simpa [hist] using hdid, p, ?_, hp.later hrely⟩
      rwa [World.put_threads_ne _ _ _ hne]
    | @act cid' c' o k i r s' hthread hhandle =>
      by_cases hcid : cid' = cid
      · subst hcid
        obtain ⟨rfl, rfl⟩ := Thread.mk.inj (Option.some.inj (hth.symm.trans hthread))
        have hi : T.needs i := hneeds ⟨o, i, r⟩ (List.mem_append_right _ (by simp [hist]))
        refine ⟨?_, k r, World.put_threads_self .., (hp.act hinv hi hhandle).2.2⟩
        intro a ha
        rcases List.mem_append.mp ha with ha | ha
        · exact hdid a ha
        · obtain rfl : a = ⟨o, i, r⟩ := by simpa [hist] using ha
          exact hp.1
      · have hne : cid ≠ cid' := fun he => hcid he.symm
        refine ⟨by simpa [hist, hcid] using hdid, p, ?_, hp.later hrely⟩
        rwa [World.put_threads_ne _ _ _ hne]

end runs

end Pact

/-- A call whose operations can all be performed under one input comes to its
end when it runs alone. -/
theorem Run.finish {i : Y.Input} (hi : ∀ o s, (Y.handle o i s).isSome) {c : Y.Call}
    (p : Prog S Y.Out) {w : World Y} {cid : Nat} (hth : w.threads cid = some ⟨c, p⟩) :
    ∃ tr w' out, Run w tr w' ∧ (∀ a ∈ hist cid tr, a.inp = i) ∧
      w'.threads cid = some ⟨c, .ret out⟩ := by
  induction p generalizing w with
  | ret out => exact ⟨[], w, out, .nil, nofun, hth⟩
  | call o k ih =>
    obtain ⟨⟨r, s'⟩, hr⟩ := Option.isSome_iff_exists.mp (hi o w.state)
    obtain ⟨tr, w', out, hrun, htr, hout⟩ := ih r (World.put_threads_self w s' cid ⟨c, k r⟩)
    have hfirst : Run w [.act cid ⟨o, i, r⟩] (w.put s' cid ⟨c, k r⟩) :=
      Run.nil.snoc (.act hth hr)
    refine ⟨_, w', out, hfirst.append hrun, ?_, hout⟩
    simp only [List.cons_append, List.nil_append, hist, if_true, List.forall_mem_cons]
    exact ⟨trivial, htr⟩

end Interleave
