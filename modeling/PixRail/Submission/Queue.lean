import PixRail.Lifecycle.Sound

/-!
# The work queue of the SPI worker

`PendingSPISubmissions` and `ClaimSPISubmission` decide on their own which
transfers can be submitted.  The list looks at the status, the SPI message id
and the lease; the claim looks at the status and the lease, and answers a
transfer that has a message id with a replay.  They agree because a stored
transfer in `accepted` has no message id (`Lifecycle.Sound`).

`Agrees` says what the list is worth to the worker: every listed transfer can
be claimed, the oldest come first, and a transfer that can be claimed is left
out only by the limit.
-/

namespace PixRail.Submission

open Go Rail Events Store Interleave Switcher Lifecycle

/-! ## The first elements of a sorted list -/

section selection

variable {α : Type} {r : α → α → Prop} [DecidableRel r] {l : List α} {n : Nat}

theorem mem_of_mem_first {x : α} (h : x ∈ (l.insertionSort r).take n) : x ∈ l :=
  (List.mem_insertionSort r).mp (List.mem_of_mem_take h)

theorem first_nodup {β : Type} {f : α → β} (h : (l.map f).Nodup) :
    (((l.insertionSort r).take n).map f).Nodup := by
  have hsorted : ((l.insertionSort r).map f).Nodup :=
    h.perm ((List.perm_insertionSort r l).map f).symm
  exact hsorted.sublist ((List.take_sublist _ _).map f)

/-- An element that is left out is behind the first `n`, and there are `n`. -/
theorem left_out [Std.Total r] [IsTrans α r] {x : α} (hx : x ∈ l)
    (hout : x ∉ (l.insertionSort r).take n) :
    ((l.insertionSort r).take n).length = n ∧ ∀ y ∈ (l.insertionSort r).take n, r y x := by
  have hdrop : x ∈ (l.insertionSort r).drop n := by
    have hmem := (List.mem_insertionSort r).mpr hx
    rw [← List.take_append_drop n (l.insertionSort r)] at hmem
    exact (List.mem_append.mp hmem).resolve_left hout
  constructor
  · have hlt : 0 < ((l.insertionSort r).drop n).length := List.length_pos_of_mem hdrop
    rw [List.length_drop] at hlt
    rw [List.length_take]
    omega
  · have hsorted := List.pairwise_insertionSort r l
    rw [← List.take_append_drop n (l.insertionSort r)] at hsorted
    exact fun y hy => (List.pairwise_append.mp hsorted).2.2 y hy x hdrop

end selection

/-! ## Claims -/

/-- `ClaimSPISubmission` with that token and expiry succeeds on the stored
transfer `t`, and is no replay. -/
def Grants (s : MemoryStore) (now : Time) (tok : GoString) (u : Time) (t : Transfer) : Prop :=
  s.transfers.lookup t.id = some t ∧
    ∃ t', (s.claimSPISubmission none now t.tenantID t.id tok u).1 = .ok (t', false)

theorem grants_iff_pending {s : MemoryStore} {now u : Time} {tok : GoString} {t : Transfer}
    (hs : Sound t) (htok : trimSpace tok ≠ []) (hu : now < u) :
    Grants s now tok u t ↔ s.transfers.lookup t.id = some t ∧ MemoryStore.Pending now t := by
  refine and_congr_right fun hl => ?_
  have howned : s.owned t.tenantID t.id = some t := MemoryStore.owned_eq_some.mpr ⟨hl, rfl⟩
  simp only [MemoryStore.claimSPISubmission, howned]
  constructor
  · rintro ⟨t', ht'⟩
    split at ht'
    · exact absurd ht' (by simp)
    · split at ht'
      · exact absurd ht' (by simp)
      · rename_i hclaim
        obtain ⟨-, -, hst, hlease, -⟩ := Transfer.claimSPISubmission_eq_ok.mp hclaim
        refine ⟨hst, (hs.unsent (.inl hst)).1, ?_⟩
        rintro ⟨v, hv, hlt⟩
        exact absurd hlt (Int.not_lt.mpr (hlease v hv))
  · rintro ⟨hst, -, hlease⟩
    have hclaim := Transfer.claimSPISubmission_eq_ok.mpr
      ⟨htok, hu, hst, fun v hv => Int.not_lt.mp fun hlt => hlease ⟨v, hv, hlt⟩, rfl⟩
    rw [if_neg (by simp [hst]), hclaim]
    exact ⟨_, rfl⟩

/-! ## The list -/

/-- What a worker may rely on for the list it got from the store `s`. -/
structure Agrees (s : MemoryStore) (now : Time) (limit : Int) (tok : GoString) (u : Time)
    (listed : List Transfer) : Prop where
  granted : ∀ t ∈ listed, Grants s now tok u t
  distinct : (listed.map (·.id)).Nodup
  bounded : listed.length ≤ MemoryStore.batchLimit limit
  oldestFirst : listed.Pairwise fun a b => a.createdAt ≤ b.createdAt
  leftOut : ∀ t, Grants s now tok u t → t ∉ listed →
    listed.length = MemoryStore.batchLimit limit ∧ ∀ t' ∈ listed, t'.createdAt ≤ t.createdAt

/-- The transfers that a range in the given order goes through. -/
theorem mem_range {s : MemoryStore} (hk : s.Keyed) {order : List GoString}
    (horder : s.RangeOrder order) {t : Transfer} :
    t ∈ order.filterMap (fun id => s.transfers.lookup id) ↔ s.transfers.lookup t.id = some t := by
  rw [List.mem_filterMap]
  constructor
  · rintro ⟨id, -, hl⟩
    obtain rfl := hk id t hl
    exact hl
  · intro hl
    refine ⟨t.id, ?_, hl⟩
    rw [← List.mem_toFinset, horder.2, Finmap.mem_keys]
    exact Finmap.mem_of_lookup_eq_some hl

theorem range_nodup {s : MemoryStore} (hk : s.Keyed) {order : List GoString}
    (horder : s.RangeOrder order) :
    ((order.filterMap fun id => s.transfers.lookup id).map (·.id)).Nodup := by
  refine List.Nodup.map_on ?_ (horder.1.filterMap ?_)
  · intro t ht t' ht' hid
    rw [mem_range hk horder] at ht ht'
    rw [hid, ht'] at ht
    exact (Option.some.inj ht).symm
  · intro id id' t hl hl'
    rw [← hk id t hl, ← hk id' t hl']

/-- The id of the transfer that draws `11`. -/
def laterID : GoString := drawn "pxt" 11

/-- `CreateTransfer` of the sample payment, and a second later of another
one of the same tenant. -/
def queueLabels : List (Label (switch sampleEnv)) :=
  createLabels ++ decideLabels 1 (newYear + second)
    { sampleRequest with idempotencyKey := go "idem-2" } sampleDict sampleFraud ++
    buildLabels 1 (newYear + second) 11 5 ++ [.step 1 (tick (newYear + second))]

set_option maxRecDepth 20000 in
theorem queue_isSome :
    ((World.init (State.initial sampleEnv none none)).exec queueLabels).isSome := by
  decide +kernel

/-- The trace and the world after the two calls. -/
def queue : Trace (switch sampleEnv) × World (switch sampleEnv) :=
  World.ran _ queueLabels queue_isSome

theorem queue_runs : Runs sampleEnv none none queue.1 queue.2 :=
  World.run_ran _ _ _

theorem queue_order : queue.2.state.store.RangeOrder [laterID, sampleID] := by
  decide +kernel

end PixRail.Submission
