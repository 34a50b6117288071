import Mathlib.Data.List.Pairwise

/-!
# Tables and transactions

A table of a relational store is a list of rows in no particular order.  It
carries its constraints: every row passes the check, and no two rows share a
value of a unique key.  `insert` and `update` refuse what would break them.

A transaction is a program over the whole store that can fail.  What it did
is then undone, apart from what the store does not undo (`runTx`).
-/

namespace Sql

/-- A unique key: its name, and whether two rows share a value of it.  A
null is shared with nothing. -/
structure Key (R N : Type) where
  name : N
  shared : R → R → Bool

/-- The constraints of a table. -/
structure Schema (R N : Type) where
  check : R → Bool
  keys : List (Key R N)

/-- Why a statement is refused. -/
inductive Violation (N : Type) where
  | check
  | unique (name : N)
  | reference

variable {R N : Type} {S : Schema R N}

structure Table (S : Schema R N) where
  rows : List R
  checked : ∀ r ∈ rows, S.check r = true
  unique : ∀ k ∈ S.keys, rows.Pairwise fun a b => k.shared a b = false

namespace Table

def empty : Table S := ⟨[], by simp, by simp⟩

/-- The first row that a `select` finds. -/
def find? (t : Table S) (p : R → Bool) : Option R := t.rows.find? p

/-- The rows are those of a table. -/
def Valid (S : Schema R N) (rows : List R) : Prop :=
  (∀ r ∈ rows, S.check r = true) ∧
    ∀ k ∈ S.keys, rows.Pairwise fun a b => k.shared a b = false

/-- Put the rows in place of those of a table. -/
def replace (S : Schema R N) (rows : List R) : Except (Violation N) (Table S) :=
  if hc : ∀ r ∈ rows, S.check r = true then
    match hk : S.keys.find? fun k => !decide (rows.Pairwise fun a b => k.shared a b = false) with
    | some k => .error (.unique k.name)
    | none => .ok ⟨rows, hc, fun k hmem => by simpa using List.find?_eq_none.mp hk k hmem⟩
  else .error .check

/-- `insert into … values …`. -/
def insert (t : Table S) (r : R) : Except (Violation N) (Table S) := replace S (t.rows ++ [r])

/-- The rows after `update … set … where …`. -/
def updated (p : R → Bool) (f : R → R) (rows : List R) : List R :=
  rows.map fun r => if p r then f r else r

/-- `update … set … where …`. -/
def update (t : Table S) (p : R → Bool) (f : R → R) : Except (Violation N) (Table S) :=
  replace S (updated p f t.rows)

theorem replace_ok {rows : List R} (h : Valid S rows) :
    ∃ t, replace S rows = .ok t ∧ t.rows = rows := by
  unfold replace
  rw [dif_pos h.1]
  split
  · rename_i k hk
    have hbad := List.find?_some hk
    have hgood := h.2 k (List.mem_of_find?_eq_some hk)
    exact absurd hgood (by simpa using hbad)
  · exact ⟨_, rfl, rfl⟩

theorem replace_rows {rows : List R} {t : Table S} (h : replace S rows = .ok t) :
    t.rows = rows := by
  unfold replace at h
  split at h
  · split at h
    · cases h
    · cases h
      rfl
  · cases h

/-- Rows that pass the check and share a key are refused for a key. -/
theorem replace_unique {rows : List R} (hc : ∀ r ∈ rows, S.check r = true) {k : Key R N}
    (hk : k ∈ S.keys) (hshared : ¬ rows.Pairwise fun a b => k.shared a b = false) :
    ∃ name, replace S rows = .error (.unique name) := by
  unfold replace
  rw [dif_pos hc]
  split
  · exact ⟨_, rfl⟩
  · rename_i hnone
    exact absurd (by simpa using List.find?_eq_none.mp hnone k hk) hshared

/-! ## Inserts -/

theorem insert_ok (t : Table S) {r : R} (hc : S.check r = true)
    (hk : ∀ k ∈ S.keys, ∀ a ∈ t.rows, k.shared a r = false) :
    ∃ t', t.insert r = .ok t' ∧ t'.rows = t.rows ++ [r] := by
  refine replace_ok ⟨?_, ?_⟩
  · intro a ha
    rcases List.mem_append.mp ha with ha | ha
    · exact t.checked a ha
    · rwa [List.mem_singleton.mp ha]
  · intro k hmem
    refine List.pairwise_append.mpr ⟨t.unique k hmem, List.pairwise_singleton _ _, ?_⟩
    intro a ha b hb
    rw [List.mem_singleton.mp hb]
    exact hk k hmem a ha

/-- A row that shares a key is refused for a key. -/
theorem insert_unique (t : Table S) {r a : R} (hc : S.check r = true) {k : Key R N}
    (hk : k ∈ S.keys) (ha : a ∈ t.rows) (hshared : k.shared a r = true) :
    ∃ name, t.insert r = .error (.unique name) := by
  refine replace_unique ?_ hk fun hpair => ?_
  · intro b hb
    rcases List.mem_append.mp hb with hb | hb
    · exact t.checked b hb
    · rwa [List.mem_singleton.mp hb]
  · have := (List.pairwise_append.mp hpair).2.2 a ha r List.mem_cons_self
    rw [hshared] at this
    exact absurd this (by simp)

/-! ## Selects by a key -/

section byKey

variable {κ : Type} [DecidableEq κ] {key : R → κ} {rows : List R}

theorem find?_key (h : rows.Pairwise fun a b => key a ≠ key b) {r : R} (hr : r ∈ rows) :
    rows.find? (fun a => decide (key a = key r)) = some r := by
  induction rows with
  | nil => exact absurd hr List.not_mem_nil
  | cons a rows ih =>
    obtain ⟨hhead, hrest⟩ := List.pairwise_cons.mp h
    rcases List.mem_cons.mp hr with rfl | hr
    · simp
    · rw [List.find?_cons_of_neg (by simpa using hhead r hr)]
      exact ih hrest hr

/-- A select by a key and another condition finds the row of the key, if it
meets the condition. -/
theorem find?_and_key (h : rows.Pairwise fun a b => key a ≠ key b) (q : R → Bool) (x : κ) :
    rows.find? (fun a => q a && decide (key a = x)) =
      (rows.find? fun a => decide (key a = x)).filter q := by
  cases hx : rows.find? fun a => decide (key a = x) with
  | none =>
    rw [Option.filter_none, List.find?_eq_none]
    intro a ha hqa
    rw [Bool.and_eq_true] at hqa
    exact List.find?_eq_none.mp hx a ha hqa.2
  | some r =>
    have hr := List.mem_of_find?_eq_some hx
    have hkey : key r = x := by simpa using List.find?_some hx
    by_cases hq : q r = true
    · rw [Option.filter_some_pos hq]
      subst hkey
      obtain ⟨a, ha⟩ : ∃ a, rows.find? (fun a => q a && decide (key a = key r)) = some a := by
        rw [← Option.isSome_iff_exists, List.find?_isSome]
        exact ⟨r, hr, by simp [hq]⟩
      have hka := List.find?_some ha
      rw [Bool.and_eq_true, decide_eq_true_eq] at hka
      have hra := find?_key h (List.mem_of_find?_eq_some ha)
      rw [hka.2, find?_key h hr] at hra
      rw [ha, hra]
    · rw [Option.filter_some_neg (by simpa using hq), List.find?_eq_none]
      intro a ha hqa
      rw [Bool.and_eq_true, decide_eq_true_eq] at hqa
      have hra := find?_key h ha
      rw [hqa.2, ← hkey, find?_key h hr] at hra
      obtain rfl := Option.some.inj hra
      exact hq hqa.1

end byKey

/-! ## Updates -/

theorem mem_updated {p : R → Bool} {f : R → R} {rows : List R} {b : R}
    (h : b ∈ updated p f rows) : ∃ a ∈ rows, b = if p a then f a else a := by
  obtain ⟨a, ha, rfl⟩ := List.mem_map.mp h
  exact ⟨a, ha, rfl⟩

/-- Columns that the update leaves as they are. -/
theorem map_updated {α : Type} {p : R → Bool} {f : R → R} {g : R → α} (hg : ∀ r, g (f r) = g r)
    (rows : List R) : (updated p f rows).map g = rows.map g := by
  rw [updated, List.map_map]
  refine List.map_congr_left fun r _ => ?_
  by_cases hp : p r = true
  · simp [hp, hg]
  · simp [hp]

/-- A select by columns that the update leaves as they are. -/
theorem find?_updated {p q : R → Bool} {f : R → R} {rows : List R}
    (hq : ∀ r, p r = true → q (f r) = q r) :
    (updated p f rows).find? q = (rows.find? q).map fun r => if p r then f r else r := by
  have hcomp : (q ∘ fun r => if p r then f r else r) = q := by
    funext r
    by_cases hp : p r = true
    · simp [hp, hq r hp]
    · simp [hp]
  rw [updated, List.find?_map, hcomp]

/-- An update of the rows with one value of a key is accepted when the new
rows pass the check and share no key with the others. -/
theorem update_ok (t : Table S) {p : R → Bool} {f : R → R}
    (hone : t.rows.Pairwise fun a b => ¬ (p a = true ∧ p b = true))
    (hc : ∀ a ∈ t.rows, p a = true → S.check (f a) = true)
    (hk : ∀ k ∈ S.keys, ∀ a ∈ t.rows, p a = true → ∀ b ∈ t.rows, p b = false →
      (k.shared a b = false → k.shared (f a) b = false) ∧
      (k.shared b a = false → k.shared b (f a) = false)) :
    ∃ t', t.update p f = .ok t' ∧ t'.rows = updated p f t.rows := by
  refine replace_ok ⟨?_, ?_⟩
  · intro b hb
    obtain ⟨a, ha, rfl⟩ := mem_updated hb
    by_cases hp : p a = true
    · rw [if_pos hp]
      exact hc a ha hp
    · rw [if_neg hp]
      exact t.checked a ha
  · intro k hmem
    refine List.pairwise_map.mpr ?_
    refine (hone.and (t.unique k hmem)).imp_of_mem ?_
    intro a b ha hb hab
    obtain ⟨hnot, hsh⟩ := hab
    by_cases hpa : p a = true
    · have hpb : p b = false := by
        rw [Bool.eq_false_iff]
        exact fun hpb => hnot ⟨hpa, hpb⟩
      rw [if_pos hpa, hpb, if_neg (by simp)]
      exact (hk k hmem a ha hpa b hb hpb).1 hsh
    · by_cases hpb : p b = true
      · rw [if_neg hpa, if_pos hpb]
        exact (hk k hmem b hb hpb a ha (Bool.eq_false_iff.mpr hpa)).2 hsh
      · rw [if_neg hpa, if_neg hpb]
        exact hsh

/-- An update that leaves the columns of the keys as they are is accepted. -/
theorem update_ok_of_keys (t : Table S) {p : R → Bool} {f : R → R}
    (hc : ∀ a, S.check a = true → S.check (f a) = true)
    (hk : ∀ k ∈ S.keys, ∀ a b, k.shared (f a) b = k.shared a b ∧ k.shared a (f b) = k.shared a b) :
    ∃ t', t.update p f = .ok t' ∧ t'.rows = updated p f t.rows := by
  refine replace_ok ⟨?_, ?_⟩
  · intro b hb
    obtain ⟨a, ha, rfl⟩ := mem_updated hb
    by_cases hp : p a = true
    · rw [if_pos hp]
      exact hc a (t.checked a ha)
    · rw [if_neg hp]
      exact t.checked a ha
  · intro k hmem
    refine List.pairwise_map.mpr ((t.unique k hmem).imp ?_)
    intro a b hab
    by_cases hpa : p a = true
    · by_cases hpb : p b = true
      · rwa [if_pos hpa, if_pos hpb, (hk k hmem _ _).1, (hk k hmem _ _).2]
      · rwa [if_pos hpa, if_neg hpb, (hk k hmem _ _).1]
    · by_cases hpb : p b = true
      · rwa [if_neg hpa, if_pos hpb, (hk k hmem _ _).2]
      · rwa [if_neg hpa, if_neg hpb]

end Table

/-! ## Transactions -/

/-- A program over the store that can fail. -/
abbrev Tx (D ε α : Type) := ExceptT ε (StateM D) α

section transactions

variable {D ε α β : Type}

/-- Run a transaction.  `keep` says what a failed one leaves, from the store
before it and the store it had reached. -/
def runTx (keep : D → D → D) (x : Tx D ε α) (d : D) : Except ε α × D :=
  match x d with
  | (.ok a, d') => (.ok a, d')
  | (.error e, d') => (.error e, keep d d')

theorem bind_ok {x : Tx D ε α} {f : α → Tx D ε β} {d d' : D} {a : α}
    (h : x d = (.ok a, d')) : (x >>= f) d = f a d' := by
  show ExceptT.bindCont f (x d).1 (x d).2 = _
  rw [h]
  rfl

theorem bind_error {x : Tx D ε α} {f : α → Tx D ε β} {d d' : D} {e : ε}
    (h : x d = (.error e, d')) : (x >>= f) d = (.error e, d') := by
  show ExceptT.bindCont f (x d).1 (x d).2 = _
  rw [h]
  rfl

end transactions

end Sql
