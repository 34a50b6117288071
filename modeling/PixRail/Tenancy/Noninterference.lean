import PixRail.Interleave.Purge
import PixRail.Tenancy.Part
import PixRail.Switcher.Sample

/-!
# Tenants do not interfere

The calls of one tenant, taken out of a run, are a run of their own, with the
same answers and the same results (`tenant_alone`).  So a tenant cannot tell
two runs apart that hold the same calls of its own, stepped in the same order
under the same inputs, whatever the other tenants do between them.
-/

namespace PixRail.Tenancy

open Go Rail Events Store Interleave Switcher Ratelimit Idempotency

variable {L : Lib} {tl dl : Option Limiter} {tr tr₁ tr₂ : Trace (switch (limited L))}
  {w w₁ w₂ : World (switch (limited L))} {tn : GoString}

/-! ## The calls of a tenant -/

/-- The entry starts a call of the tenant under that number. -/
def starts (tn : GoString) (cid : Nat) : Ev (switch (limited L)) → Bool
  | .spawn cid' c => cid' = cid ∧ c.tenant = some tn
  | .act _ _ => false

/-- The numbers of the tenant's calls. -/
def callsOf (tn : GoString) (tr : Trace (switch (limited L))) (cid : Nat) : Bool :=
  tr.any (starts tn cid)

/-- The entries of the tenant's calls. -/
def partOf (tn : GoString) (tr : Trace (switch (limited L))) : Trace (switch (limited L)) :=
  purge (callsOf tn tr) tr

/-- Every call acts for one tenant. -/
def TenantCalls (tr : Trace (switch (limited L))) : Prop :=
  ∀ e ∈ tr, ∀ c ∈ startedCall e, c.tenant.isSome

instance (tr : Trace (switch (limited L))) : Decidable (TenantCalls tr) :=
  inferInstanceAs (Decidable (∀ e ∈ tr, ∀ c ∈ startedCall e, c.tenant.isSome))

theorem callsOf_eq_true {cid : Nat} :
    callsOf tn tr cid = true ↔ ∃ c, spawnEv cid c ∈ tr ∧ c.tenant = some tn := by
  rw [callsOf, List.any_eq_true]
  constructor
  · rintro ⟨e, he, hstart⟩
    rcases e with ⟨cid', c⟩ | ⟨cid', a⟩
    · simp only [starts, decide_eq_true_eq] at hstart
      obtain ⟨rfl, htn⟩ := hstart
      exact ⟨c, he, htn⟩
    · exact absurd hstart Bool.false_ne_true
  · rintro ⟨c, hc, htn⟩
    refine ⟨_, hc, ?_⟩
    simp [starts, htn]

theorem callsOf_iff (h : Runs (limited L) tl dl tr w) {cid : Nat} {c : Call}
    (hc : spawnEv cid c ∈ tr) : callsOf tn tr cid = true ↔ c.tenant = some tn := by
  rw [callsOf_eq_true]
  constructor
  · rintro ⟨c', hc', htn⟩
    rwa [h.spawn_unique hc hc']
  · intro htn
    exact ⟨c, hc, htn⟩

/-! ## The part is a run -/

/-- What is known of a run: which calls are the tenant's, that all calls act
for tenants without a colon, and that generated ids are distinct. -/
structure Known (tn : GoString) (mine : Nat → Bool) (tr : Trace (switch (limited L))) :
    Prop where
  calls : ∀ cid c, spawnEv cid c ∈ tr → (mine cid = true ↔ c.tenant = some tn)
  tenants : TenantCalls tr
  colonFree : ColonFree tr
  ids : (newIDs tr).Nodup

theorem Known.init {mine : Nat → Bool} {e : Ev (switch (limited L))}
    (h : Known tn mine (tr ++ [e])) : Known tn mine tr where
  calls := fun cid c hc => h.calls cid c (List.mem_append_left _ hc)
  tenants := fun e he => h.tenants e (List.mem_append_left _ he)
  colonFree := h.colonFree.mono (List.subset_append_left tr _)
  ids := h.ids.sublist ((List.sublist_append_left tr _).filterMap drawnID)

theorem tenant_alone {mine : Nat → Bool} (hcolon : 58 ∉ tn) (hknown : Known tn mine tr)
    (h : Runs (limited L) tl dl tr w) :
    ∃ u, Runs (limited L) tl dl (purge mine tr) u ∧ Part tn w.state u.state ∧
      SameThreads mine w u := by
  have hinit : Part tn (State.initial (limited L) tl dl) (State.initial (limited L) tl dl) :=
    ⟨⟨by simp [TransfersPart, State.initial, newMemoryStore], fun _ => rfl, fun _ => rfl, rfl⟩,
      .refl tn tl, .refl tn dl⟩
  refine Run.purge (K := Known tn mine) Known.init hinit ?_ ?_ h hknown
  · -- a step of another tenant
    intro t w cid a v u hok hrun hstep hmine hpart
    obtain ⟨c, hc, hallow⟩ := (contract (limited L) tl dl).allows_of_step hrun hstep
    obtain ⟨tn', htn'⟩ := Option.isSome_iff_exists.mp (hok.init.tenants _ hc c rfl)
    have hne : tn' ≠ tn := by
      rintro rfl
      exact hmine ((hok.init.calls cid c hc).mpr htn')
    have hcolon' : 58 ∉ tn' := hok.init.colonFree cid c hc tn' htn'
    have ho := allows_opFor hrun hc htn' hallow
    cases hstep with
    | act hthread hhandle =>
      exact hpart.handle_other (runs_keyed hrun) hcolon hcolon' hne ho hhandle
  · -- a step of the tenant
    intro t w cid a v u hok hrun hstep hmine hu hpart
    obtain ⟨c, hc, hallow⟩ := (contract (limited L) tl dl).allows_of_step hrun hstep
    have ho := allows_opFor hrun hc ((hok.init.calls cid c hc).mp hmine) hallow
    have hrun' := hrun.snoc hstep
    cases hstep with
    | act hthread hhandle =>
      refine hpart.handle_mine (runs_filed hu) ho ?_ hhandle
      intro t evs auds hop
      dsimp only at hop
      subst hop
      exact insert_fresh hok.init.ids hrun (insert_call hrun')

/-! ## Two runs -/

/-- What the tenant sees is the same in both runs. -/
structure SameFor (tn : GoString) (tr₁ tr₂ : Trace (switch (limited L)))
    (w₁ w₂ : World (switch (limited L))) : Prop where
  /-- Its calls perform the same operations and get the same answers. -/
  part : partOf tn tr₁ = partOf tn tr₂
  /-- Its calls return the same. -/
  returned : ∀ cid c out, c.tenant = some tn → (Returned w₁ cid c out ↔ Returned w₂ cid c out)
  /-- Its events are the same, in the same order. -/
  events : eventsOf tn w₁.state.store = eventsOf tn w₂.state.store

theorem returned_of_part {u : World (switch (limited L))}
    (h₁ : Runs (limited L) tl dl tr₁ w₁) (hpart : partOf tn tr₁ = partOf tn tr₂)
    (hth₁ : SameThreads (callsOf tn tr₁) w₁ u) (hth₂ : SameThreads (callsOf tn tr₂) w₂ u)
    {cid : Nat} {c : Call} {out : Outcome} (htn : c.tenant = some tn)
    (hret : Returned w₁ cid c out) : Returned w₂ cid c out := by
  have hc : spawnEv cid c ∈ tr₁ := (h₁.thread hret).1
  have hmine₁ := (callsOf_iff h₁ hc).mpr htn
  have hc₂ : spawnEv cid c ∈ partOf tn tr₂ := by
    rw [← hpart]
    exact List.mem_filter.mpr ⟨hc, hmine₁⟩
  have hmine₂ : callsOf tn tr₂ cid = true := (List.mem_filter.mp hc₂).2
  rw [Returned, ← hth₂ cid hmine₂, hth₁ cid hmine₁]
  exact hret

/-- Two runs with the same calls of a tenant, stepped in the same order under
the same inputs, are the same for the tenant. -/
theorem tenants_noninterfering (hcolon : 58 ∉ tn)
    (hids₁ : (newIDs tr₁).Nodup) (hids₂ : (newIDs tr₂).Nodup)
    (hcolon₁ : ColonFree tr₁) (hcolon₂ : ColonFree tr₂)
    (hcalls₁ : TenantCalls tr₁) (hcalls₂ : TenantCalls tr₂)
    (h₁ : Runs (limited L) tl dl tr₁ w₁) (h₂ : Runs (limited L) tl dl tr₂ w₂)
    (hsame : (partOf tn tr₁).map Ev.label = (partOf tn tr₂).map Ev.label) :
    SameFor tn tr₁ tr₂ w₁ w₂ := by
  obtain ⟨u₁, hu₁, hp₁, hth₁⟩ := tenant_alone hcolon
    ⟨fun _ _ => callsOf_iff h₁, hcalls₁, hcolon₁, hids₁⟩ h₁
  obtain ⟨u₂, hu₂, hp₂, hth₂⟩ := tenant_alone hcolon
    ⟨fun _ _ => callsOf_iff h₂, hcalls₂, hcolon₂, hids₂⟩ h₂
  obtain ⟨hpart, rfl⟩ := hu₁.deterministic hu₂ hsame
  refine ⟨hpart, fun cid c out htn => ⟨?_, ?_⟩, ?_⟩
  · exact returned_of_part h₁ hpart hth₁ hth₂ htn
  · exact returned_of_part h₂ hpart.symm hth₂ hth₁ htn
  · rw [← hp₁.store.events, hp₂.store.events]

/-- The sample request from another tenant. -/
def otherRequest : CreateTransferRequest := { sampleRequest with tenantID := go "tenant-b" }

def twoTenants : List (GoString × GoString) :=
  (join otherRequest.fingerprintParts [0],
    [0x27, 0x5f, 0x23, 0xbd, 0x8d, 0xf1, 0x06, 0x03, 0xc7, 0xfc, 0x2f, 0x14, 0x28, 0x03, 0x91,
      0x9f, 0xf2, 0x33, 0x7a, 0x02, 0x0b, 0x51, 0x47, 0xaa, 0x0f, 0xd9, 0x35, 0x4a, 0xdd, 0x89,
      0xe5, 0x0a]) :: sampleTable

theorem twoTenants_length : ∀ p ∈ twoTenants, p.2.length = 32 := by
  decide +kernel

/-- A switch whose limiters let one request of an account pass each minute. -/
abbrev strictEnv : Env := limited (tableEnv twoTenants twoTenants_length).toLib

def strictLimit : Option Limiter := some (.new ⟨1, 1, minute⟩)

/-- The first tenant uses its account again at once. -/
def againLabels : List (Label (switch strictEnv)) :=
  [.spawn 1 (.createTransfer { sampleRequest with idempotencyKey := go "idem-2" }),
    .step 1 (tick newYear), .step 1 (tick newYear), .step 1 (tick newYear)]

/-- The first tenant alone. -/
def quietLabels : List (Label (switch strictEnv)) :=
  decideLabels 0 newYear sampleRequest sampleDict sampleFraud ++ buildLabels 0 newYear 1 5 ++
    [.step 0 (tick newYear)] ++ againLabels

/-- The first tenant, between the steps of another one with the same account
and idempotency key. -/
def busyLabels : List (Label (switch strictEnv)) :=
  decideLabels 7 newYear otherRequest sampleDict sampleFraud ++
    decideLabels 0 newYear sampleRequest sampleDict sampleFraud ++ buildLabels 7 newYear 11 5 ++
    buildLabels 0 newYear 1 5 ++ [.step 7 (tick newYear), .step 0 (tick newYear)] ++ againLabels

set_option maxRecDepth 20000 in
theorem quiet_isSome :
    ((World.init (State.initial strictEnv strictLimit strictLimit)).exec quietLabels).isSome := by
  decide +kernel

set_option maxRecDepth 20000 in
theorem busy_isSome :
    ((World.init (State.initial strictEnv strictLimit strictLimit)).exec busyLabels).isSome := by
  decide +kernel

def quiet : Trace (switch strictEnv) × World (switch strictEnv) :=
  World.ran _ quietLabels quiet_isSome

def busy : Trace (switch strictEnv) × World (switch strictEnv) :=
  World.ran _ busyLabels busy_isSome

/-- The first tenant is refused by its bucket in both runs, and the second one
is not in its way. -/
theorem tenants_noninterfering_busy :
    (busy.2.result 7).bind replayFlag = some false ∧
      (busy.2.result 1).bind failure =
        some (ErrKind.rateLimited.wrap (go "tenant/account bucket exhausted")) ∧
      SameFor (go "tenant-a") quiet.1 busy.1 quiet.2 busy.2 := by
  obtain ⟨hids₁, hcolon₁, hcalls₁⟩ :
      (newIDs quiet.1).Nodup ∧ ColonFree quiet.1 ∧ TenantCalls quiet.1 := by
    decide +kernel
  obtain ⟨hids₂, hcolon₂, hcalls₂, hcreated, hrefused⟩ :
      (newIDs busy.1).Nodup ∧ ColonFree busy.1 ∧ TenantCalls busy.1 ∧
        (busy.2.result 7).bind replayFlag = some false ∧
        (busy.2.result 1).bind failure =
          some (ErrKind.rateLimited.wrap (go "tenant/account bucket exhausted")) := by
    decide +kernel
  refine ⟨hcreated, hrefused, ?_⟩
  exact tenants_noninterfering (by decide +kernel) hids₁ hids₂ hcolon₁ hcolon₂ hcalls₁ hcalls₂
    (World.run_ran _ _ _) (World.run_ran _ _ _) rfl

end PixRail.Tenancy
