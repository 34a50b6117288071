import PixRail.Interleave.Purge

/-!
# Programs that run alone

`Solo Y p s h a s'`: while nobody else takes a step, the program `p` goes
from the state `s` to the state `s'` with the actions `h` and returns `a`.
The steps of a call that nobody interrupts are such an execution
(`Solo.of_run`), and so are the executions of the parts of its body
(`Solo.bind_inv`).

There are two rules for a program that performs only operations in a set
`P`.  `Solo.frame` is about one execution: what relates the states before and
after each operation relates the states before and after the program, where
both may rely on an invariant.
`Solo.sim` is about two executions under the same inputs: if related states
give each operation the same answer and stay related, the executions perform
the same actions and return the same result.
-/

namespace Interleave

variable {S : Sig} {Y : System S} {α β : Type}

inductive Solo (Y : System S) : Prog S α → Y.State → List (Action S Y.Input) → α → Y.State →
    Prop where
  | ret (a : α) (s : Y.State) : Solo Y (.ret a) s [] a s
  | call {o : S.Op} {k : S.Ret o → Prog S α} {i : Y.Input} {r : S.Ret o} {s s₁ s' : Y.State}
      {h : List (Action S Y.Input)} {a : α} (hhandle : Y.handle o i s = some (r, s₁))
      (hrest : Solo Y (k r) s₁ h a s') : Solo Y (.call o k) s (⟨o, i, r⟩ :: h) a s'

/-- The program performs only operations in `P`. -/
def Prog.Only (P : S.Op → Prop) : Prog S α → Prop
  | .ret _ => True
  | .call o k => P o ∧ ∀ r, (k r).Only P

theorem Prog.only_any (p : Prog S α) : p.Only fun _ => True := by
  induction p with
  | ret a => trivial
  | call o k ih => exact ⟨trivial, ih⟩

theorem Prog.Only.mono {P Q : S.Op → Prop} {p : Prog S α} (hp : p.Only P)
    (hpq : ∀ o, P o → Q o) : p.Only Q := by
  induction p with
  | ret a => trivial
  | call o k ih => exact ⟨hpq o hp.1, fun r => ih r (hp.2 r)⟩

theorem Prog.Only.bind {P : S.Op → Prop} {p : Prog S α} {f : α → Prog S β} (hp : p.Only P)
    (hf : ∀ a, (f a).Only P) : (p >>= f).Only P := by
  induction p with
  | ret a => exact hf a
  | call o k ih => exact ⟨hp.1, fun r => ih r (hp.2 r)⟩

namespace Solo

variable {p : Prog S α} {f : α → Prog S β} {s s₁ s' u u' : Y.State}
  {h h' g : List (Action S Y.Input)} {a b : α}

/-! ## Sequencing -/

theorem ret_inv (hr : Solo Y (.ret a) s h b s') : h = [] ∧ b = a ∧ s' = s := by
  cases hr with
  | ret => exact ⟨rfl, rfl, rfl⟩

theorem call_inv {o : S.Op} {k : S.Ret o → Prog S α} (hc : Solo Y (.call o k) s h a s') :
    ∃ i r s₁ h', h = ⟨o, i, r⟩ :: h' ∧ Y.handle o i s = some (r, s₁) ∧
      Solo Y (k r) s₁ h' a s' := by
  cases hc with
  | call hhandle hrest => exact ⟨_, _, _, _, rfl, hhandle, hrest⟩

theorem bind {b : β} (hp : Solo Y p s h a s₁) (hf : Solo Y (f a) s₁ h' b s') :
    Solo Y (p >>= f) s (h ++ h') b s' := by
  induction hp with
  | ret a s => exact hf
  | call hhandle hrest ih => exact .call hhandle (ih hf)

theorem map {f : α → β} (hp : Solo Y p s h a s') : Solo Y (f <$> p) s h (f a) s' := by
  have hb := hp.bind (f := fun a => .ret (f a)) (.ret (f a) s')
  rwa [List.append_nil] at hb

/-- An execution of two programs in a row is cut between them. -/
theorem bind_inv {b : β} (hb : Solo Y (p >>= f) s h b s') :
    ∃ h₁ h₂ a s₁, h = h₁ ++ h₂ ∧ Solo Y p s h₁ a s₁ ∧ Solo Y (f a) s₁ h₂ b s' := by
  induction p generalizing s h with
  | ret a => exact ⟨[], h, a, s, rfl, .ret a s, hb⟩
  | call o k ih =>
    obtain ⟨i, r, s₁, h', rfl, hhandle, hrest⟩ := call_inv hb
    obtain ⟨h₁, h₂, a, s₂, rfl, hp, hf⟩ := ih r hrest
    exact ⟨_ :: h₁, h₂, a, s₂, rfl, .call hhandle hp, hf⟩

theorem map_inv {f : α → β} {b : β} (hb : Solo Y (f <$> p) s h b s') :
    ∃ a, b = f a ∧ Solo Y p s h a s' := by
  obtain ⟨h₁, h₂, a, s₁, rfl, hp, hret⟩ := bind_inv (f := fun a => .ret (f a)) hb
  obtain ⟨rfl, rfl, rfl⟩ := ret_inv hret
  rw [List.append_nil]
  exact ⟨a, rfl, hp⟩

/-! ## Runs -/

/-- The steps of a call from a world on, when nobody else takes one. -/
theorem of_run {w w' : World Y} {tr : Trace Y} {cid : Nat} {c : Y.Call} {p : Prog S Y.Out}
    {out : Y.Out} (hrun : Run w tr w') (halone : ∀ e ∈ tr, e.cid = cid)
    (hthread : w.threads cid = some ⟨c, p⟩) (hresult : w'.result cid = some out) :
    ∃ h, tr = h.map (Ev.act cid) ∧ Solo Y p w.state h out w'.state := by
  induction tr generalizing w p with
  | nil =>
    obtain rfl := hrun.nil_inv
    obtain ⟨c', hret⟩ := World.result_eq_some hresult
    obtain ⟨-, rfl⟩ := Thread.mk.inj (Option.some.inj (hthread.symm.trans hret))
    exact ⟨[], rfl, .ret out _⟩
  | cons e tr ih =>
    have hrun : Run w ([] ++ e :: tr) w' := hrun
    obtain ⟨w₀, w₁, h₀, hstep, hrest⟩ := hrun.at_entry
    obtain rfl := h₀.nil_inv
    have hcid := halone e List.mem_cons_self
    cases hstep with
    | spawn c' hfree =>
      obtain rfl := hcid
      exact absurd (hthread.symm.trans hfree) (by simp)
    | @act cid' c' o k i r s₁ hth hhandle =>
      obtain rfl : cid' = cid := hcid
      obtain ⟨rfl, rfl⟩ := Thread.mk.inj (Option.some.inj (hthread.symm.trans hth))
      obtain ⟨h, rfl, hsolo⟩ := ih hrest
        (fun e he => halone e (List.mem_cons_of_mem _ he)) (World.put_threads_self ..)
      exact ⟨_ :: h, rfl, .call hhandle hsolo⟩

/-- An execution of what is left of a call is a run. -/
theorem run {w : World Y} {cid : Nat} {c : Y.Call} {p : Prog S Y.Out} {out : Y.Out}
    (hs : Solo Y p w.state h out s') (hthread : w.threads cid = some ⟨c, p⟩) :
    Run w (h.map (Ev.act cid)) (w.put s' cid ⟨c, .ret out⟩) := by
  generalize hstate : w.state = s at hs
  induction hs generalizing w with
  | ret out s =>
    have hw : w.put s cid ⟨c, .ret out⟩ = w := by
      unfold World.put
      rw [← hthread, Function.update_eq_self, ← hstate]
    rw [hw]
    exact .nil
  | @call o k i r s s₁ s' h out hhandle hrest ih =>
    subst hstate
    have hstep : Run w [Ev.act cid ⟨o, i, r⟩] (w.put s₁ cid ⟨c, k r⟩) :=
      Run.nil.snoc (.act hthread hhandle)
    have hrun := ih (w := w.put s₁ cid ⟨c, k r⟩) (World.put_threads_self ..) rfl
    rw [World.put_put] at hrun
    exact hstep.append hrun

/-! ## The two rules -/

/-- What each operation does to the states of an invariant `I` is what the
program does. -/
theorem frame {P : S.Op → Prop} {I : Y.State → Prop} {F : Y.State → Y.State → Prop}
    (hrefl : ∀ s, F s s) (htrans : ∀ s s₁ s₂, F s s₁ → F s₁ s₂ → F s s₂)
    (hstep : ∀ o i s r s', P o → I s → Y.handle o i s = some (r, s') → I s' ∧ F s s')
    (hp : p.Only P) (hs : Solo Y p s h a s') (hI : I s) : I s' ∧ F s s' := by
  induction hs with
  | ret a s => exact ⟨hI, hrefl s⟩
  | @call o k i r s s₁ s' h a hhandle hrest ih =>
    obtain ⟨hI₁, hF₁⟩ := hstep o i s r s₁ hp.1 hI hhandle
    obtain ⟨hI', hF⟩ := ih (hp.2 r) hI₁
    exact ⟨hI', htrans _ _ _ hF₁ hF⟩

/-- Two executions of a program under the same inputs, from related states. -/
theorem sim {P : S.Op → Prop} {R : Y.State → Y.State → Prop}
    (hstep : ∀ o i s u r s' r' u', P o → R s u → Y.handle o i s = some (r, s') →
      Y.handle o i u = some (r', u') → r = r' ∧ R s' u')
    (hp : p.Only P) (hs : Solo Y p s h a s') (hu : Solo Y p u g b u')
    (hin : h.map (·.inp) = g.map (·.inp)) (hR : R s u) :
    h = g ∧ a = b ∧ R s' u' := by
  induction hs generalizing u g with
  | ret a s =>
    obtain ⟨rfl, rfl, rfl⟩ := ret_inv hu
    exact ⟨rfl, rfl, hR⟩
  | @call o k i r s s₁ s' h a hhandle hrest ih =>
    obtain ⟨j, r', u₁, g', rfl, hhandle', hrest'⟩ := call_inv hu
    obtain ⟨hi, htail⟩ := List.cons.inj hin
    obtain rfl : i = j := hi
    obtain ⟨rfl, hR₁⟩ := hstep o i s u r s₁ r' u₁ hp.1 hR hhandle hhandle'
    obtain ⟨rfl, rfl, hR'⟩ := ih (hp.2 r) hrest' htail hR₁
    exact ⟨rfl, rfl, hR'⟩

/-- An execution is determined by its inputs. -/
theorem deterministic (hs : Solo Y p s h a s') (hu : Solo Y p s g b u')
    (hin : h.map (·.inp) = g.map (·.inp)) : h = g ∧ a = b ∧ s' = u' := by
  refine sim (P := fun _ => True) (R := Eq) ?_ p.only_any hs hu hin rfl
  rintro o i s _ r s' r' u' - rfl hs hu
  exact Prod.mk.inj (Option.some.inj (hs.symm.trans hu))

end Solo

/-! ## Executing a program alone -/

/-- Execute a program alone; `none` when the inputs do not fit it. -/
def Prog.execAlone (Y : System S) : Prog S α → Y.State → List Y.Input →
    Option (List (Action S Y.Input) × α × Y.State)
  | .ret a, s, [] => some ([], a, s)
  | .ret _, _, _ :: _ => none
  | .call _ _, _, [] => none
  | .call o k, s, i :: is =>
    match Y.handle o i s with
    | none => none
    | some (r, s₁) =>
      match (k r).execAlone Y s₁ is with
      | none => none
      | some (h, a, s') => some (⟨o, i, r⟩ :: h, a, s')

theorem Solo.of_execAlone {p : Prog S α} {s s' : Y.State} {is : List Y.Input}
    {h : List (Action S Y.Input)} {a : α} (he : p.execAlone Y s is = some (h, a, s')) :
    Solo Y p s h a s' := by
  induction p generalizing s is h with
  | ret a =>
    cases is with
    | nil =>
      simp only [Prog.execAlone, Option.some.injEq, Prod.mk.injEq] at he
      obtain ⟨rfl, rfl, rfl⟩ := he
      exact .ret _ _
    | cons i is => exact absurd he (by simp [Prog.execAlone])
  | call o k ih =>
    cases is with
    | nil => exact absurd he (by simp [Prog.execAlone])
    | cons i is =>
      simp only [Prog.execAlone] at he
      split at he
      · exact absurd he (by simp)
      · rename_i r s₁ hhandle
        split at he
        · exact absurd he (by simp)
        · rename_i h₁ a₁ s₂ hrest
          simp only [Option.some.injEq, Prod.mk.injEq] at he
          obtain ⟨rfl, rfl, rfl⟩ := he
          exact .call hhandle (ih r hrest)

end Interleave
