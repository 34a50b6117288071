import Mathlib.Algebra.Order.BigOperators.Group.List
import Mathlib.Algebra.Order.Ring.Nat
import PixRail.Interleave.Account
import PixRail.Ratelimit.TokenBucket
import PixRail.Switcher.Grounds
import PixRail.Switcher.Sample

/-!
# The limits of the switch

`app.NewService` gives the switch a token bucket for the accounts and one for
the DICT lookups.  In any interleaving of calls, a transfer is created only
after the first of them was asked, and a key is looked up only after the
second was.  As a call does either of them once, what the buckets let through
bounds what is done (`limits_enforced`).
-/

namespace PixRail.Ratelimit

open Go Rail Store Interleave Switcher

/-- A switch with token buckets. -/
@[reducible] def bucketEnv (L : Lib) : Env where
  toLib := L
  Lim := Limiter
  allow := Limiter.allow

/-- The bucket of `app.NewService` for a configured size. -/
def bucketOf (size : Int) : BucketConfig where
  capacity := size
  refillTokens := size
  refillEvery := minute

theorem bucketOf_withDefaults (size : Int) :
    (bucketOf size).withDefaults.refillTokens = (bucketOf size).withDefaults.capacity ∧
      (bucketOf size).withDefaults.refillEvery = minute := by
  unfold BucketConfig.withDefaults bucketOf
  exact ⟨by dsimp only; split <;> rfl, rfl⟩

/-- The two buckets of a switch. -/
inductive Gate where
  | accounts
  | lookups

namespace Gate

variable {E : Env}

/-- The bucket in a state. -/
def limiter (s : State E) : Gate → Option E.Lim
  | accounts => s.tenantLimit
  | lookups => s.dictLimit

/-- The call of the bucket in an operation, with its answer. -/
def asked : Gate → Action sig Input → Option (Keyed.Call GoString × Bool)
  | accounts, ⟨.tenantAllow key, i, ok⟩ => some (⟨i.now, key⟩, ok)
  | lookups, ⟨.dictAllow key, i, ok⟩ => some (⟨i.now, key⟩, ok)
  | _, _ => none

/-- The operation is one that the bucket guards under the key: the insert of a
transfer of the account, or the lookup of the receiver. -/
def guarded (key : GoString) : Gate → Action sig Input → Bool
  | accounts, ⟨.store (.insertTransfer t _ _), _, _⟩ => scopedKey t.tenantID t.accountID = key
  | lookups, ⟨.resolve tn receiver _, _, _⟩ => scopedKey tn receiver = key
  | _, _ => false

/-- The calls of the bucket in a trace, with their answers. -/
def log (g : Gate) (tr : Trace (switch E)) : List (Keyed.Call GoString × Bool) :=
  (acts tr).filterMap g.asked

/-- An operation that asks no bucket leaves both alone. -/
theorem limiter_eq (g : Gate) {o : Op} {i : Input} {s s' : State E} {r : o.Ret}
    (h : handle E o i s = some (r, s')) (htenant : ∀ key, o ≠ .tenantAllow key)
    (hdict : ∀ key, o ≠ .dictAllow key) :
    g.asked ⟨o, i, r⟩ = none ∧ g.limiter s' = g.limiter s := by
  have hsame : s'.tenantLimit = s.tenantLimit ∧ s'.dictLimit = s.dictLimit := by
    cases o with
    | tenantAllow key => exact absurd rfl (htenant key)
    | dictAllow key => exact absurd rfl (hdict key)
    | now | health =>
      cases h
      exact ⟨rfl, rfl⟩
    | newID tag | resolve tn key ty | score req dict | submit t | publish e | store c =>
      simp only [handle] at h
      repeat' split at h
      all_goals cases h
      all_goals exact ⟨rfl, rfl⟩
  cases g with
  | accounts =>
    refine ⟨?_, hsame.1⟩
    cases o with
    | tenantAllow key => exact absurd rfl (htenant key)
    | _ => rfl
  | lookups =>
    refine ⟨?_, hsame.2⟩
    cases o with
    | dictAllow key => exact absurd rfl (hdict key)
    | _ => rfl

/-- An operation asks the bucket, or leaves it alone. -/
theorem handle_cases (g : Gate) {o : Op} {i : Input} {s s' : State E} {r : o.Ret}
    (h : handle E o i s = some (r, s')) :
    (g.asked ⟨o, i, r⟩ = none ∧ g.limiter s' = g.limiter s) ∨
      ∃ key ok, g.asked ⟨o, i, r⟩ = some (⟨i.now, key⟩, ok) ∧
        allowed E (g.limiter s) i.now key = (ok, g.limiter s') := by
  cases o with
  | tenantAllow key =>
    cases h
    cases g with
    | accounts => exact .inr ⟨key, _, rfl, rfl⟩
    | lookups => exact .inl ⟨rfl, rfl⟩
  | dictAllow key =>
    cases h
    cases g with
    | accounts => exact .inl ⟨rfl, rfl⟩
    | lookups => exact .inr ⟨key, _, rfl, rfl⟩
  | now | health | newID tag | resolve tn key ty | score req dict | submit t | publish e
  | store c =>
    exact .inl (g.limiter_eq h (by simp) (by simp))

end Gate

section runs

variable {L : Lib} {tl dl : Option Limiter} {tr : Trace (switch (bucketEnv L))}
  {w : World (switch (bucketEnv L))} {cid : Nat} {key : GoString}

/-- The bucket has served the calls of the trace, in their order. -/
theorem run_served (g : Gate) (h : Runs (bucketEnv L) tl dl tr w) {l : Limiter}
    (hl : g.limiter (State.initial (bucketEnv L) tl dl) = some l) :
    ∃ l', g.limiter w.state = some l' ∧
      Keyed.serve Limiter.allow l ((g.log tr).map Prod.fst) = (g.log tr, l') := by
  induction h with
  | nil => exact ⟨l, hl, rfl⟩
  | @snoc tr w w' e hrun hstep ih =>
    obtain ⟨l', hl', hserve⟩ := ih
    cases hstep with
    | spawn c hfree =>
      rw [Gate.log, acts_snoc_spawn]
      exact ⟨l', hl', hserve⟩
    | @act cid c o k i r s' hthread hhandle =>
      rw [Gate.log, acts_snoc_act, List.filterMap_append, ← Gate.log, World.put_state]
      rcases g.handle_cases hhandle with ⟨hnone, hsame⟩ | ⟨key, ok, hask, hallow⟩
      · rw [hsame, List.filterMap_cons_none hnone, List.filterMap_nil, List.append_nil]
        exact ⟨l', hl', hserve⟩
      · rw [hl'] at hallow
        obtain ⟨hok, hnext⟩ := Prod.mk.inj hallow
        rw [List.filterMap_cons_some hask, List.filterMap_nil, List.map_append, Keyed.serve_append,
          hserve, ← hok]
        exact ⟨_, hnext.symm, rfl⟩

end runs

/-! ## What the buckets guard -/

section guards

variable {E : Env} {tl dl : Option E.Lim} {tr t₁ t₂ : Trace (switch E)} {w : World (switch E)}
  {cid : Nat} {key : GoString}

/-- What a lookup rests on. -/
theorem rests_resolve {L : Lib} {c : Call} {h : History} {tn receiver : GoString}
    {ty : DictKeyType} (hr : Rests L c h (.resolve tn receiver ty)) :
    ∃ req, c = .createTransfer req ∧ lookupKey req = scopedKey tn receiver ∧
      Did h (.dictAllow (lookupKey req)) true ∧ Unresolved h := by
  generalize ho : Op.resolve tn receiver ty = o at hr
  cases hr with
  | @resolve req hcreate hallow hfirst =>
    cases ho
    exact ⟨req, hcreate, rfl, hallow, hfirst⟩
  | routine hroutine =>
    subst ho
    exact hroutine.elim
  | tenantAllow | dictAllow | score | insert | submit | review => cases ho

/-- What a call of the bucket of the lookups rests on. -/
theorem rests_dictAllow {L : Lib} {c : Call} {h : History} {k : GoString}
    (hr : Rests L c h (.dictAllow k)) :
    ∃ req, c = .createTransfer req ∧ Did h (.tenantAllow (accountKey req)) true := by
  generalize ho : Op.dictAllow k = o at hr
  cases hr with
  | @dictAllow req hcreate hallow => exact ⟨req, hcreate, hallow⟩
  | routine hroutine =>
    subst ho
    exact hroutine.elim
  | tenantAllow | resolve | score | insert | submit | review => cases ho

/-- A call that looked a key up was let through by the bucket of the
accounts. -/
theorem tenantAllow_of_lookup (h : Runs E tl dl tr w) {req : CreateTransferRequest}
    (hc : spawnEv cid (.createTransfer req) ∈ tr) {tn receiver : GoString} {ty : DictKeyType}
    {r : Except Err DictEntry} (hd : Did (hist cid tr) (.resolve tn receiver ty) r) :
    Did (hist cid tr) (.tenantAllow (accountKey req)) true := by
  obtain ⟨c, s₁, s₂, i, rfl, hc', hrests⟩ := rests_of_did h hd
  obtain rfl := h.spawn_unique hc (List.mem_append_left _ hc')
  obtain ⟨req', -, -, hallow, -⟩ := rests_resolve hrests
  rw [hist_append]
  refine Did.mono ?_ (List.prefix_append _ _)
  -- the bucket of the lookups was asked after that of the accounts
  obtain ⟨w₁, -, h₁, -⟩ := h.at_entry
  obtain ⟨c, u₁, u₂, j, rfl, hc'', hrests⟩ := rests_of_did h₁ hallow
  obtain rfl := h₁.spawn_unique hc' (List.mem_append_left _ hc'')
  obtain ⟨req'', hcreate, hallow⟩ := rests_dictAllow hrests
  cases hcreate
  rw [hist_append]
  exact hallow.mono (List.prefix_append _ _)

/-- A guarded operation is the first of its call, and comes after the bucket
has let it through. -/
theorem guarded_asked (g : Gate) {a : Action sig Input}
    (h : Runs E tl dl (t₁ ++ .act cid a :: t₂) w) (hg : g.guarded key a = true) :
    (∀ b ∈ hist cid t₁, g.guarded key b = false) ∧
      ∃ b ∈ hist cid t₁, g.asked b = some (⟨b.inp.now, key⟩, true) := by
  obtain ⟨w₁, w₂, h₁, -, -⟩ := h.at_entry
  obtain ⟨c, hc, hrests⟩ := (grounds E tl dl).allows_at h
  obtain ⟨c', hc', hallows⟩ := (contract E tl dl).allows_at h
  obtain ⟨o, i, r⟩ := a
  cases g with
  | accounts =>
    cases o with
    | store call =>
      cases call with
      | insertTransfer t evs auds =>
        have hkey : scopedKey t.tenantID t.accountID = key := of_decide_eq_true hg
        cases hallows with
        | insert hcreate hvalid hstatus hfirst hid hfind ht hevs =>
          cases hrests with
          | routine hroutine => exact absurd hroutine id
          | @insert req at_ now id dict decision _ _ _ hcreate hdict hscore hnow ht =>
            obtain ⟨j, hj⟩ := tenantAllow_of_lookup h₁ (hcreate ▸ hc) hdict
            have haccount : accountKey req = key := by rw [← hkey, ht]; rfl
            rw [haccount] at hj
            refine ⟨fun b hb => ?_, _, hj, rfl⟩
            obtain ⟨o, i', r'⟩ := b
            cases o with
            | store call =>
              cases call with
              | insertTransfer t' evs' auds' => exact absurd ⟨i', hb⟩ (hfirst t' evs' auds' r')
              | _ => rfl
            | _ => rfl
      | _ => cases hg
    | _ => cases hg
  | lookups =>
    cases o with
    | resolve tn receiver ty =>
      have hkey : scopedKey tn receiver = key := of_decide_eq_true hg
      obtain ⟨req, -, hlookup, ⟨j, hj⟩, hfirst⟩ := rests_resolve hrests
      rw [hlookup, hkey] at hj
      refine ⟨fun b hb => ?_, _, hj, rfl⟩
      obtain ⟨o, i', r'⟩ := b
      cases o with
      | resolve tn' receiver' ty' => exact absurd ⟨i', hb⟩ (hfirst tn' receiver' ty' r')
      | _ => rfl
    | _ => cases hg

/-- A call does a guarded operation at most once. -/
theorem guarded_once (g : Gate) (h : Runs E tl dl tr w) (cid : Nat) (key : GoString) :
    (hist cid tr).countP (g.guarded key) ≤ 1 := by
  have hfirst : ∀ h₁ a h₂, hist cid tr = h₁ ++ a :: h₂ → g.guarded key a = true →
      ∀ b ∈ h₁, g.guarded key b = false := by
    intro h₁ a h₂ hh hg
    obtain ⟨t₁, t₂, rfl, rfl, -⟩ := hist_split hh
    exact (guarded_asked g h hg).1
  generalize hist cid tr = l at hfirst
  induction l using List.reverseRecOn with
  | nil => exact Nat.zero_le _
  | append_singleton l a ih =>
    rw [List.countP_append, List.countP_singleton]
    by_cases hg : g.guarded key a = true
    · have hnone : l.countP (g.guarded key) = 0 :=
        List.countP_eq_zero.mpr fun b hb => by simp [hfirst l a [] rfl hg b hb]
      simp [hnone, hg]
    · rw [if_neg hg, Nat.add_zero]
      exact ih fun h₁ b h₂ hh => hfirst h₁ b (h₂ ++ [a]) (by rw [hh]; simp)

end guards

/-! ## The bound -/

/-- The bucket let the key through at a time in `[a, b)`. -/
def Gate.grants (g : Gate) (key : GoString) (a b : Time) (x : Action sig Input) : Bool :=
  match g.asked x with
  | some (c, true) => c.key = key ∧ a ≤ c.time ∧ c.time < b
  | _ => false

/-- How many guarded operations were done under the key by the calls that the
bucket let through at a time in `[a, b)`. -/
def Gate.done {E : Env} (g : Gate) (key : GoString) (a b : Time) (tr : Trace (switch E)) : Nat :=
  ((spawned tr).map fun p =>
    if (hist p.1 tr).any (g.grants key a b) then (hist p.1 tr).countP (g.guarded key) else 0).sum

/-- The grants of a log, counted on the operations. -/
theorem within_granted (g : Gate) (key : GoString) (a b : Time) (l : List (Action sig Input)) :
    Keyed.within a b (Keyed.granted key (l.filterMap g.asked)) = l.countP (g.grants key a b) := by
  induction l with
  | nil => rfl
  | cons x l ih =>
    rw [List.countP_cons, ← ih]
    cases hx : g.asked x with
    | none => simp [hx, Gate.grants]
    | some p =>
      obtain ⟨c, ok⟩ := p
      rw [List.filterMap_cons_some hx]
      by_cases hkey : c.key = key <;> cases ok <;>
        simp [Gate.grants, hx, Keyed.granted, Keyed.keyLog, Keyed.grants, Keyed.within, hkey,
          List.countP_cons]

/-- What a bucket lets through in `n` periods. -/
theorem granted_le (config : BucketConfig) {calls : List (Keyed.Call GoString)}
    (hclock : Keyed.Clock calls) (key : GoString) (n : Nat) (a : Time) :
    (Keyed.within a (a + n * (Limiter.new config).config.refillEvery) (Keyed.granted key
      (Keyed.serve (Limiter.allowIn .exact) (Limiter.new config) calls).1) : Int) ≤
        (Limiter.new config).config.capacity + n * (Limiter.new config).config.refillTokens := by
  have hc : (Limiter.new config).config.Normal := config.withDefaults_normal
  obtain ⟨now, hnow⟩ := Keyed.exists_bound calls
  have hstart : ∀ t, Paid (Limiter.new config).config a n t [] none := by
    intro t
    have hcapacity := hc.capacity
    have hmul : 0 ≤ (n : Int) * (Limiter.new config).config.refillTokens :=
      Int.mul_nonneg (Int.natCast_nonneg n) hc.refillTokens.le
    refine ⟨?_, rfl⟩
    show (0 : Int) ≤ _
    omega
  exact ((allowIn_perKey .exact).invariant (Finmap.lookup_empty key)
    (Paid (Limiter.new config).config a n) hstart (fun hle h => h.wait hle)
    (fun _ h => h.call hc) hclock hnow).1

section bound

variable {L : Lib} {tr : Trace (switch (bucketEnv L))} {w : World (switch (bucketEnv L))}

/-- The calls do what the bucket lets through, at most. -/
theorem done_le (g : Gate) {tl dl : Option Limiter} (h : Runs (bucketEnv L) tl dl tr w)
    (key : GoString) (a b : Time) :
    g.done key a b tr ≤ Keyed.within a b (Keyed.granted key (g.log tr)) := by
  rw [Gate.log, within_granted, h.acts_perm.countP_eq, List.countP_flatMap, Gate.done]
  refine List.sum_le_sum fun p _ => ?_
  dsimp only [Function.comp]
  split
  · rename_i hany
    obtain ⟨x, hx, hgrant⟩ := List.any_eq_true.mp hany
    exact (guarded_once g h p.1 key).trans (List.countP_pos_iff.mpr ⟨x, hx, hgrant⟩)
  · exact Nat.zero_le _

/-- The size that `app.NewService` gives a bucket. -/
def Gate.size (accounts lookups : Int) : Gate → Int
  | .accounts => accounts
  | .lookups => lookups

end bound

/-- The sample payment, and another one of the same account. -/
def limitedLabels : List (Label (switch (bucketEnv sampleEnv.toLib))) :=
  decideLabels 0 newYear sampleRequest sampleDict sampleFraud ++ buildLabels 0 newYear 1 5 ++
    [.step 0 (tick newYear),
      .spawn 1 (.createTransfer { sampleRequest with idempotencyKey := go "idem-2" }),
      .step 1 (tick newYear), .step 1 (tick newYear), .step 1 (tick newYear)]

set_option maxRecDepth 20000 in
theorem limited_isSome :
    ((World.init (State.initial (bucketEnv sampleEnv.toLib) (some (Limiter.new (bucketOf 1)))
      (some (Limiter.new (bucketOf 30))))).exec limitedLabels).isSome := by
  decide +kernel

def limited :
    Trace (switch (bucketEnv sampleEnv.toLib)) × World (switch (bucketEnv sampleEnv.toLib)) :=
  World.ran _ limitedLabels limited_isSome

theorem limited_runs : Runs (bucketEnv sampleEnv.toLib) (some (Limiter.new (bucketOf 1)))
    (some (Limiter.new (bucketOf 30))) limited.1 limited.2 :=
  World.run_ran _ _ _

/-- The key of the account that pays. -/
def sampleAccount : GoString := scopedKey (go "tenant-a") (go "acct-1")

set_option maxRecDepth 20000 in
theorem limited_log :
    Gate.accounts.log limited.1 =
        [(⟨newYear, sampleAccount⟩, true), (⟨newYear, sampleAccount⟩, false)] ∧
      Gate.accounts.done sampleAccount newYear (newYear + 1 * minute) limited.1 = 1 := by
  decide +kernel

end PixRail.Ratelimit
