import Mathlib.Data.List.Nodup
import Mathlib.Data.List.Perm.Basic
import PixRail.Interleave.Layer

/-!
# Accounts

What the calls of a run did one by one adds up to what the run did: up to
their order, the operations of a trace are those of its calls
(`acts_perm`).  The same holds for the operations below a layer, which are
those of the calls of the layer (`acts_innerTrace_perm`).
-/

namespace Interleave

open scoped List

variable {S : Sig} {Y : System S}

/-- The operations of a trace. -/
def acts (tr : Trace Y) : List (Action S Y.Input) :=
  tr.filterMap fun
    | .spawn _ _ => none
    | .act _ a => some a

/-- The calls of a trace with their numbers. -/
def spawned (tr : Trace Y) : List (Nat × Y.Call) :=
  tr.filterMap fun
    | .spawn cid c => some (cid, c)
    | .act _ _ => none

theorem acts_snoc_spawn (tr : Trace Y) (cid : Nat) (c : Y.Call) :
    acts (tr ++ [.spawn cid c]) = acts tr := by
  simp [acts]

theorem acts_snoc_act (tr : Trace Y) (cid : Nat) (a : Action S Y.Input) :
    acts (tr ++ [.act cid a]) = acts tr ++ [a] := by
  simp [acts]

theorem spawned_snoc_spawn (tr : Trace Y) (cid : Nat) (c : Y.Call) :
    spawned (tr ++ [.spawn cid c]) = spawned tr ++ [(cid, c)] := by
  simp [spawned]

theorem spawned_snoc_act (tr : Trace Y) (cid : Nat) (a : Action S Y.Input) :
    spawned (tr ++ [.act cid a]) = spawned tr := by
  simp [spawned]

theorem mem_spawned {tr : Trace Y} {cid : Nat} {c : Y.Call} :
    (cid, c) ∈ spawned tr ↔ Ev.spawn cid c ∈ tr := by
  rw [spawned, List.mem_filterMap]
  constructor
  · rintro ⟨e, he, hs⟩
    cases e with
    | spawn cid' c' =>
      cases hs
      exact he
    | act cid' a => cases hs
  · exact fun h => ⟨_, h, rfl⟩

/-- The operations of a call, in the order of the trace. -/
theorem hist_sublist_acts (cid : Nat) (tr : Trace Y) : (hist cid tr).Sublist (acts tr) := by
  induction tr using List.reverseRecOn with
  | nil => exact List.Sublist.refl _
  | append_singleton tr e ih =>
    cases e with
    | spawn cid' c =>
      rw [hist_snoc_spawn, acts_snoc_spawn]
      exact ih
    | act cid' a =>
      rw [acts_snoc_act]
      by_cases hc : cid' = cid
      · subst hc
        rw [hist_snoc_act_self]
        exact ih.append (List.Sublist.refl _)
      · rw [hist_snoc_act_ne hc]
        exact ih.trans (List.sublist_append_left _ _)

theorem mem_acts {a : Action S Y.Input} {tr : Trace Y} :
    a ∈ acts tr ↔ ∃ cid, Ev.act cid a ∈ tr := by
  rw [acts, List.mem_filterMap]
  constructor
  · rintro ⟨e, he, ha⟩
    cases e with
    | spawn cid c => cases ha
    | act cid b =>
      cases ha
      exact ⟨cid, he⟩
  · exact fun ⟨cid, h⟩ => ⟨_, h, rfl⟩

namespace Run

variable {s : Y.State} {tr : Trace Y} {w : World Y}

/-- No number names two calls. -/
theorem spawned_nodup (h : Run (.init s) tr w) : ((spawned tr).map Prod.fst).Nodup := by
  induction h with
  | nil => exact List.nodup_nil
  | snoc hrun hstep ih =>
    cases hstep with
    | @spawn cid c hfree =>
      rw [spawned_snoc_spawn, List.map_append, List.map_singleton]
      refine ih.append (List.nodup_singleton _) fun cid' hmem hcid => ?_
      obtain rfl := List.mem_singleton.mp hcid
      obtain ⟨⟨cid', c'⟩, hp, rfl⟩ := List.mem_map.mp hmem
      obtain ⟨p, hth⟩ := hrun.thread_of_spawn (mem_spawned.mp hp)
      rw [hth] at hfree
      cases hfree
    | act hthread hhandle => rwa [spawned_snoc_act]

/-- Up to their order, the operations of a trace are those of its calls. -/
theorem acts_perm (h : Run (.init s) tr w) :
    acts tr ~ (spawned tr).flatMap fun p => hist p.1 tr := by
  induction h with
  | nil => exact .refl _
  | @snoc tr w w' e hrun hstep ih =>
    cases hstep with
    | @spawn cid c hfree =>
      rw [acts_snoc_spawn, spawned_snoc_spawn, List.flatMap_append]
      simpa [hrun.hist_eq_nil hfree] using ih
    | @act cid c o k i r s' hthread hhandle =>
      rw [acts_snoc_act, spawned_snoc_act]
      obtain ⟨l₁, l₂, hl⟩ := List.append_of_mem (mem_spawned.mpr (hrun.thread hthread).1)
      have hnodup := hrun.spawned_nodup
      rw [hl] at ih hnodup ⊢
      -- the operation is in the history of its call, and in no other
      have hrest : ∀ l ⊆ l₁ ++ l₂, (l.flatMap fun p => hist p.1 (tr ++ [.act cid ⟨o, i, r⟩])) =
          l.flatMap fun p => hist p.1 tr := by
        intro l hsub
        refine List.flatMap_congr fun p hp => hist_snoc_act_ne ?_ _ _
        rintro rfl
        rw [List.map_append, List.map_cons, List.nodup_middle, ← List.map_append] at hnodup
        exact (List.nodup_cons.mp hnodup).1 (List.mem_map.mpr ⟨p, hsub hp, rfl⟩)
      rw [List.flatMap_append, List.flatMap_cons, hrest l₁ (List.subset_append_left _ _),
        hrest l₂ (List.subset_append_right _ _), hist_snoc_act_self]
      rw [List.flatMap_append, List.flatMap_cons] at ih
      refine (ih.append_right _).trans ?_
      simp only [List.append_assoc]
      exact (List.perm_append_comm.append_left _).append_left _

end Run

/-! ## Layers -/

theorem acts_innerTrace {Q : Sig} (Z : Layer Y Q) (tr : Trace Z.system) :
    acts (Z.innerTrace tr) = (acts tr).filterMap Z.innerOf := by
  induction tr using List.reverseRecOn with
  | nil => rfl
  | append_singleton tr e ih =>
    have happ : ∀ t₁ t₂ : Trace Y, acts (t₁ ++ t₂) = acts t₁ ++ acts t₂ :=
      fun _ _ => List.filterMap_append
    rw [Layer.innerTrace_append, happ, ih]
    cases e with
    | spawn cid d => simp [acts, Layer.innerTrace, Layer.innerEv]
    | act cid a =>
      rw [acts_snoc_act, List.filterMap_append]
      rcases Z.innerTrace_single_act cid a with ⟨c, htr, hnone⟩ | htr
      · simp [htr, acts, hnone]
      · cases ha : Z.innerOf a <;> simp [htr, acts, ha]

/-- Up to their order, the operations below are those of the calls of the
layer. -/
theorem acts_innerTrace_perm {Q : Sig} {Z : Layer Y Q} {s : Y.State × Z.State}
    {tr : Trace Z.system} {w : World Z.system} (h : Run (.init s) tr w) :
    acts (Z.innerTrace tr) ~ (spawned tr).flatMap fun p => hist p.1 (Z.innerTrace tr) := by
  rw [acts_innerTrace]
  refine (h.acts_perm.filterMap _).trans ?_
  rw [List.filterMap_flatMap]
  simp only [Layer.hist_innerTrace]
  exact .refl _

end Interleave
