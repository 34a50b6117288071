import Mathlib.Data.List.Infix
import Mathlib.Tactic.Common

/-!
# Programs over an effect signature

A `Prog S α` is a program that talks to its environment only through the
operations of the signature `S`.  It is a tree: a leaf is a result, a node
is an operation together with what the program does on each answer.  The
tree is the code of one call; who answers the operations, and what happens
between two of them, is decided by the system that runs it
(`PixRail.Interleave.World`).

`Prog.Obeys` is the logic of a single program.  It bounds the operations a
program performs and the results it returns by its own history, that is, by
the operations it has performed so far and their answers.  It says nothing
about any state, so no interference can break it.
-/

namespace Interleave

/-! ## Lists -/

section lists

variable {α β : Type}

theorem snoc_eq_append_cons {l a b : List α} {x y : α} (h : l ++ [x] = a ++ y :: b) :
    (b = [] ∧ x = y ∧ l = a) ∨ ∃ b', b = b' ++ [x] ∧ l = a ++ y :: b' := by
  induction b using List.reverseRecOn with
  | nil =>
    obtain ⟨hl, hx⟩ := List.append_inj' h rfl
    exact .inl ⟨rfl, List.singleton_inj.mp hx, hl⟩
  | append_singleton b z _ =>
    rw [← List.cons_append, ← List.append_assoc] at h
    obtain ⟨hl, hx⟩ := List.append_inj' h rfl
    obtain rfl := List.singleton_inj.mp hx
    exact .inr ⟨b, rfl, hl⟩

/-- Values without repetition come from one place. -/
theorem not_mem_of_nodup_filterMap {f : α → Option β} {a b : List α} {x y : α} {v : β}
    (h : ((a ++ x :: b).filterMap f).Nodup) (hx : f x = some v) (hy : f y = some v) :
    y ∉ a ∧ y ∉ b := by
  rw [List.filterMap_append, List.filterMap_cons_some hx, List.nodup_append] at h
  obtain ⟨-, hb, hab⟩ := h
  refine ⟨fun hmem => ?_, fun hmem => ?_⟩
  · exact hab v (List.mem_filterMap.mpr ⟨y, hmem, hy⟩) v List.mem_cons_self rfl
  · exact (List.nodup_cons.mp hb).1 (List.mem_filterMap.mpr ⟨y, hmem, hy⟩)

theorem eq_of_nodup_filterMap {f : α → Option β} {l : List α} {x y : α} {v : β}
    (h : (l.filterMap f).Nodup) (hx : x ∈ l) (hy : y ∈ l) (hfx : f x = some v)
    (hfy : f y = some v) : x = y := by
  obtain ⟨a, b, rfl⟩ := List.append_of_mem hx
  obtain ⟨ha, hb⟩ := not_mem_of_nodup_filterMap h hfx hfy
  rcases List.mem_append.mp hy with hy | hy
  · exact absurd hy ha
  · rcases List.mem_cons.mp hy with hy | hy
    · exact hy.symm
    · exact absurd hy hb

/-- The entry with a given number among those that satisfy a test. -/
theorem exists_split_countP {p : α → Bool} {l : List α} {n : Nat} (h : n < l.countP p) :
    ∃ a x b, l = a ++ x :: b ∧ p x = true ∧ a.countP p = n := by
  induction l generalizing n with
  | nil => simp at h
  | cons y l ih =>
    by_cases hy : p y = true
    · cases n with
      | zero => exact ⟨[], y, l, rfl, hy, rfl⟩
      | succ n =>
        rw [List.countP_cons_of_pos hy] at h
        obtain ⟨a, x, b, rfl, hx, ha⟩ := ih (n := n) (by omega)
        exact ⟨y :: a, x, b, rfl, hx, by rw [List.countP_cons_of_pos hy, ha]⟩
    · rw [List.countP_cons_of_neg hy] at h
      obtain ⟨a, x, b, rfl, hx, ha⟩ := ih h
      exact ⟨y :: a, x, b, rfl, hx, by rw [List.countP_cons_of_neg hy, ha]⟩

theorem filterMap_sublist {f g : α → Option β} (h : ∀ x v, f x = some v → g x = some v)
    (l : List α) : (l.filterMap f).Sublist (l.filterMap g) := by
  induction l with
  | nil => exact .refl _
  | cons x l ih =>
    cases hf : f x with
    | none =>
      rw [List.filterMap_cons_none hf]
      cases hg : g x with
      | none => rwa [List.filterMap_cons_none hg]
      | some v =>
        rw [List.filterMap_cons_some hg]
        exact ih.cons v
    | some v =>
      rw [List.filterMap_cons_some hf, List.filterMap_cons_some (h x v hf)]
      exact ih.cons_cons v

end lists

/-! ## Programs -/

/-- An effect signature: operations, and the type of the answer to each. -/
structure Sig where
  Op : Type
  Ret : Op → Type

/-- A program over the operations of `S` with results in `α`. -/
inductive Prog (S : Sig) (α : Type) : Type where
  | ret (a : α) : Prog S α
  | call (o : S.Op) (k : S.Ret o → Prog S α) : Prog S α

/-- One performed operation: what was asked, under which input of the
environment, and the answer. -/
structure Action (S : Sig) (I : Type) where
  op : S.Op
  inp : I
  ret : S.Ret op

/-- The operation `o` was performed in `h` and answered with `r`. -/
def Did {S : Sig} {I : Type} (h : List (Action S I)) (o : S.Op) (r : S.Ret o) : Prop :=
  ∃ i, (⟨o, i, r⟩ : Action S I) ∈ h

/-- The last operation in `h` is `o`, and it was answered with `r`. -/
def Last {S : Sig} {I : Type} (h : List (Action S I)) (o : S.Op) (r : S.Ret o) : Prop :=
  ∃ h₀ i, h = h₀ ++ [⟨o, i, r⟩]

section Did

variable {S : Sig} {I : Type} {h h' : List (Action S I)} {o : S.Op} {r : S.Ret o}

theorem Did.mono (hd : Did h o r) (hh : h <+: h') : Did h' o r := by
  obtain ⟨i, hi⟩ := hd
  exact ⟨i, hh.subset hi⟩

theorem Did.snoc (hd : Did h o r) (a : Action S I) : Did (h ++ [a]) o r :=
  hd.mono (List.prefix_append h _)

theorem Last.did (hl : Last h o r) : Did h o r := by
  obtain ⟨h₀, i, rfl⟩ := hl
  exact ⟨i, List.mem_append_right _ (List.mem_singleton_self _)⟩

theorem Did.last (h : List (Action S I)) (o : S.Op) (i : I) (r : S.Ret o) :
    Did (h ++ [⟨o, i, r⟩]) o r :=
  ⟨i, List.mem_append_right _ (List.mem_singleton_self _)⟩

end Did

namespace Prog

variable {S : Sig} {α β : Type}

/-- The program that performs one operation and returns its answer. -/
def perform (o : S.Op) : Prog S (S.Ret o) := .call o .ret

def bind : Prog S α → (α → Prog S β) → Prog S β
  | .ret a, f => f a
  | .call o k, f => .call o fun r => (k r).bind f

instance : Monad (Prog S) where
  pure := .ret
  bind := bind

@[simp] theorem pure_eq (a : α) : (pure a : Prog S α) = .ret a := rfl

@[simp] theorem ret_bind (a : α) (f : α → Prog S β) : (Prog.ret a >>= f) = f a := rfl

@[simp] theorem call_bind (o : S.Op) (k : S.Ret o → Prog S α) (f : α → Prog S β) :
    (Prog.call o k >>= f) = .call o fun r => k r >>= f := rfl

@[simp] theorem perform_bind (o : S.Op) (f : S.Ret o → Prog S β) :
    (perform o >>= f) = .call o f := rfl

/-! ## What is left of a program -/

variable {I : Type}

/-- `After p h q`: `q` is what is left of `p` once the actions `h` are done. -/
inductive After (p : Prog S α) : List (Action S I) → Prog S α → Prop where
  | refl : After p [] p
  | snoc {h : List (Action S I)} {o : S.Op} {k : S.Ret o → Prog S α}
      (hp : After p h (.call o k)) (i : I) (r : S.Ret o) :
      After p (h ++ [⟨o, i, r⟩]) (k r)

/-! ## The history logic -/

section Obeys

variable (ens : (o : S.Op) → I → S.Ret o → Prop)
  (P : List (Action S I) → S.Op → Prop)

/-- `Obeys ens P Q h p`: from the history `h` on, the program `p` performs
only operations that `P` allows after the history at that point, and returns
only results that `Q` allows, as long as every answer is one `ens` allows. -/
def Obeys (Q : List (Action S I) → α → Prop) : List (Action S I) → Prog S α → Prop
  | h, .ret a => Q h a
  | h, .call o k => P h o ∧ ∀ i r, ens o i r → Obeys Q (h ++ [⟨o, i, r⟩]) (k r)

variable {ens P} {Q : List (Action S I) → α → Prop}

/-- The rule of consequence for results.  The history only grows. -/
theorem Obeys.mono {Q' : List (Action S I) → α → Prop} {h : List (Action S I)}
    {p : Prog S α} (hp : Obeys ens P Q h p)
    (hq : ∀ h' a, h <+: h' → Q h' a → Q' h' a) : Obeys ens P Q' h p := by
  induction p generalizing h with
  | ret a => exact hq h a (List.prefix_refl h) hp
  | call o k ih =>
    refine ⟨hp.1, fun i r hr => ih r (hp.2 i r hr) fun h' a hh' => ?_⟩
    exact hq h' a ((List.prefix_append h _).trans hh')

/-- The rule for sequencing. -/
theorem Obeys.bind {Q' : List (Action S I) → β → Prop} {h : List (Action S I)}
    {p : Prog S β} {f : β → Prog S α} (hp : Obeys ens P Q' h p)
    (hf : ∀ h' b, h <+: h' → Q' h' b → Obeys ens P Q h' (f b)) :
    Obeys ens P Q h (p >>= f) := by
  induction p generalizing h with
  | ret b => exact hf h b (List.prefix_refl h) hp
  | call o k ih =>
    refine ⟨hp.1, fun i r hr => ih r (hp.2 i r hr) fun h' b hh' => ?_⟩
    exact hf h' b ((List.prefix_append h _).trans hh')

theorem Obeys.map {Q' : List (Action S I) → β → Prop} {f : α → β} {h : List (Action S I)}
    {p : Prog S α} (hp : Obeys ens P (fun h a => Q' h (f a)) h p) :
    Obeys ens P Q' h (f <$> p) :=
  Obeys.bind hp fun _ _ _ hq => hq

/-- A program that may do and return anything. -/
theorem Obeys.of_forall (hP : ∀ h o, P h o) (hQ : ∀ h a, Q h a) (h : List (Action S I))
    (p : Prog S α) : Obeys ens P Q h p := by
  induction p generalizing h with
  | ret a => exact hQ h a
  | call o k ih => exact ⟨hP h o, fun i r _ => ih r _⟩

/-- What is left of an obedient program is obedient. -/
theorem Obeys.after {p q : Prog S α} {h : List (Action S I)}
    (hp : Obeys ens P Q [] p) (ha : After p h q)
    (hens : ∀ a ∈ h, ens a.op a.inp a.ret) : Obeys ens P Q h q := by
  induction ha with
  | refl => exact hp
  | snoc _ i r ih =>
    have hq := ih fun a ha => hens a (List.mem_append_left _ ha)
    exact hq.2 i r (hens _ (List.mem_append_right _ (List.mem_singleton_self _)))

end Obeys

end Prog

end Interleave
