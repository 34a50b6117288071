import PixRail.Interleave.World

/-!
# The part of a run that belongs to some of the calls

`purge mine tr` keeps the entries of the calls in `mine`.  `Run.purge` is
the unwinding rule: if the state of a run and the state of its part stay
related, because a step of another call does not change what the relation
sees and a step of a kept call gets the same answer on both sides, then the
part is itself a run, in which the kept calls stand where they stand in the
whole.

A run is determined by its labels (`Run.deterministic`).  So two runs whose
parts have the same labels have the same part.
-/

namespace Interleave

variable {S : Sig} {Y : System S}

/-! ## Labels -/

/-- The number of the call that an entry belongs to. -/
def Ev.cid : Ev Y → Nat
  | .spawn cid _ => cid
  | .act cid _ => cid

/-- The scheduling decision behind an entry: the operation and its answer are
left out. -/
def Ev.label : Ev Y → Label Y
  | .spawn cid c => .spawn cid c
  | .act cid a => .step cid a.inp

theorem World.next_of_step {w w' : World Y} {e : Ev Y} (h : Step w e w') :
    w.next e.label = some (e, w') := by
  cases h with
  | spawn c hfree =>
    unfold World.next
    simp only [Ev.label, hfree]
  | act hthread hhandle =>
    unfold World.next
    simp only [Ev.label, hthread, hhandle]

/-- The labels of a run from a world determine the run. -/
theorem Run.deterministic {w₀ w₁ w₂ : World Y} {t₁ t₂ : Trace Y} (h₁ : Run w₀ t₁ w₁)
    (h₂ : Run w₀ t₂ w₂) (hl : t₁.map Ev.label = t₂.map Ev.label) : t₁ = t₂ ∧ w₁ = w₂ := by
  induction h₁ generalizing t₂ w₂ with
  | nil =>
    obtain rfl := List.map_eq_nil_iff.mp hl.symm
    exact ⟨rfl, h₂.nil_inv.symm⟩
  | @snoc tr w w' e hrun hstep ih =>
    rcases List.eq_nil_or_concat t₂ with rfl | ⟨t, e', rfl⟩
    · simp at hl
    · rw [List.concat_eq_append] at h₂ hl ⊢
      rw [List.map_append, List.map_append] at hl
      obtain ⟨htail, hlast⟩ := List.append_inj' hl rfl
      obtain ⟨v, hrun', hstep'⟩ := h₂.snoc_inv
      obtain ⟨rfl, rfl⟩ := ih hrun' htail
      have hnext := World.next_of_step hstep
      rw [show e.label = e'.label from List.singleton_inj.mp hlast,
        World.next_of_step hstep', Option.some.injEq, Prod.mk.injEq] at hnext
      obtain ⟨rfl, rfl⟩ := hnext
      exact ⟨rfl, rfl⟩

/-! ## The part of the kept calls -/

variable (mine : Nat → Bool)

/-- The entries of the kept calls. -/
def purge (tr : Trace Y) : Trace Y := tr.filter fun e => mine e.cid

variable {mine}

theorem purge_snoc_mine {e : Ev Y} (h : mine e.cid = true) (tr : Trace Y) :
    purge mine (tr ++ [e]) = purge mine tr ++ [e] := by
  simp [purge, h]

theorem purge_snoc_other {e : Ev Y} (h : ¬ mine e.cid = true) (tr : Trace Y) :
    purge mine (tr ++ [e]) = purge mine tr := by
  simp [purge, h]

/-- The kept calls stand in both worlds at the same place. -/
def SameThreads (mine : Nat → Bool) (w u : World Y) : Prop :=
  ∀ cid, mine cid = true → u.threads cid = w.threads cid

theorem SameThreads.put {w u : World Y} (h : SameThreads mine w u) (s s' : Y.State) (cid : Nat)
    (th : Thread Y) : SameThreads mine (w.put s cid th) (u.put s' cid th) := by
  intro cid' hmine
  by_cases hc : cid' = cid
  · subst hc
    rw [World.put_threads_self, World.put_threads_self]
  · rw [World.put_threads_ne _ _ _ hc, World.put_threads_ne _ _ _ hc, h cid' hmine]

theorem SameThreads.put_other {w u : World Y} (h : SameThreads mine w u) (s : Y.State)
    {cid : Nat} (hcid : ¬ mine cid = true) (th : Thread Y) :
    SameThreads mine (w.put s cid th) u := by
  intro cid' hmine
  rw [World.put_threads_ne, h cid' hmine]
  rintro rfl
  exact hcid hmine

/-- The unwinding rule.  `K` is what is known of the whole run and of each of
its beginnings. -/
theorem Run.purge {K : Trace Y → Prop} (hok : ∀ {t e}, K (t ++ [e]) → K t)
    {R : Y.State → Y.State → Prop} {s s' : Y.State} (hinit : R s s')
    (hother : ∀ {t w cid a v u}, K (t ++ [.act cid a]) → Run (.init s) t w →
      Step w (.act cid a) v → ¬ mine cid = true → R w.state u → R v.state u)
    (hmine : ∀ {t w cid a v u}, K (t ++ [.act cid a]) → Run (.init s) t w →
      Step w (.act cid a) v → mine cid = true → Run (.init s') (Interleave.purge mine t) u →
      R w.state u.state →
      ∃ x, Y.handle a.op a.inp u.state = some (a.ret, x) ∧ R v.state x)
    {tr : Trace Y} {w : World Y} (h : Run (.init s) tr w) (htr : K tr) :
    ∃ u, Run (.init s') (Interleave.purge mine tr) u ∧ R w.state u.state ∧
      SameThreads mine w u := by
  induction h with
  | nil => exact ⟨_, .nil, hinit, fun _ _ => rfl⟩
  | @snoc t w v e hrun hstep ih =>
    obtain ⟨u, hu, hR, hth⟩ := ih (hok htr)
    by_cases hcid : mine e.cid = true
    · rw [purge_snoc_mine hcid]
      cases hstep with
      | @spawn cid c hfree =>
        have hfree' : u.threads cid = none := by rw [hth cid hcid, hfree]
        exact ⟨_, hu.snoc (.spawn c hfree'), hR, hth.put _ _ _ _⟩
      | @act cid c o k i r x hthread hhandle =>
        obtain ⟨x', hhandle', hR'⟩ := hmine htr hrun (.act hthread hhandle) hcid hu hR
        have hthread' : u.threads cid = some ⟨c, .call o k⟩ := by rw [hth cid hcid, hthread]
        exact ⟨_, hu.snoc (.act hthread' hhandle'), hR', hth.put _ _ _ _⟩
    · rw [purge_snoc_other hcid]
      cases hstep with
      | spawn c hfree => exact ⟨u, hu, hR, hth.put_other _ hcid _⟩
      | act hthread hhandle =>
        exact ⟨u, hu, hother htr hrun (.act hthread hhandle) hcid hR, hth.put_other _ hcid _⟩

end Interleave
