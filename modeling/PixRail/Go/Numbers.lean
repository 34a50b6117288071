import PixRail.Go.Strings
import PixRail.Go.Values

/-!
# Numbers in texts

`strconv.ParseInt` with base 10 and 64 bits.  What it takes has digits and a
sign only, so a text that is followed by another byte can be cut off it
(`parseInt_notMem`).
-/

namespace Go

/-- The value of a text of decimal digits, after `n` for those before it. -/
def digitsFrom (n : Nat) : GoString → Option Nat
  | [] => some n
  | b :: s => if 48 ≤ b ∧ b ≤ 57 then digitsFrom (n * 10 + (b.toNat - 48)) s else none

/-- The sign of a text, `true` for a minus, and what follows it. -/
def splitSign : GoString → Bool × GoString
  | [] => (false, [])
  | b :: s => if b = 43 then (false, s) else if b = 45 then (true, s) else (false, b :: s)

/-- `strconv.ParseInt(s, 10, 64)`; every error is `none`. -/
def parseInt (s : GoString) : Option Int :=
  let (neg, digits) := splitSign s
  if digits = [] then none
  else
    match digitsFrom 0 digits with
    | none => none
    | some un =>
      if neg = false ∧ 2 ^ 63 ≤ un then none
      else if neg = true ∧ 2 ^ 63 < un then none
      else some (if neg then -(un : Int) else un)

theorem digitsFrom_mem {n m : Nat} {s : GoString} (h : digitsFrom n s = some m) :
    ∀ b ∈ s, 48 ≤ b ∧ b ≤ 57 := by
  induction s generalizing n with
  | nil => exact nofun
  | cons b s ih =>
    rw [digitsFrom] at h
    split at h
    · rename_i hb
      exact List.forall_mem_cons.mpr ⟨hb, ih h⟩
    · cases h

theorem mem_splitSign {b : UInt8} {s : GoString} (hplus : b ≠ 43) (hminus : b ≠ 45) (h : b ∈ s) :
    b ∈ (splitSign s).2 := by
  cases s with
  | nil => exact h
  | cons c s =>
    rw [splitSign]
    split
    · rename_i hc
      exact (List.mem_cons.mp h).resolve_left fun he => hplus (he.trans hc)
    · split
      · rename_i hc
        exact (List.mem_cons.mp h).resolve_left fun he => hminus (he.trans hc)
      · exact h

/-- A byte that is neither a digit nor a sign does not occur. -/
theorem parseInt_notMem {s : GoString} {n : Int} (h : parseInt s = some n) {b : UInt8}
    (hplus : b ≠ 43) (hminus : b ≠ 45) (hdigit : ¬ (48 ≤ b ∧ b ≤ 57)) : b ∉ s := by
  intro hmem
  replace hmem := mem_splitSign hplus hminus hmem
  unfold parseInt at h
  generalize splitSign s = split at h hmem
  obtain ⟨neg, digits⟩ := split
  dsimp only at h hmem
  split at h
  · cases h
  · split at h
    · cases h
    · rename_i un hun
      exact hdigit (digitsFrom_mem hun b hmem)

theorem parseInt_fits {s : GoString} {n : Int} (h : parseInt s = some n) :
    -2 ^ 63 ≤ n ∧ n < 2 ^ 63 := by
  unfold parseInt at h
  generalize splitSign s = split at h
  obtain ⟨neg, digits⟩ := split
  dsimp only at h
  split at h
  · cases h
  · split at h
    · cases h
    · rename_i un hun
      split_ifs at h with hplus hminus hneg
      · obtain rfl := Option.some.inj h
        have : ¬ 2 ^ 63 < un := fun hlt => hminus ⟨hneg, hlt⟩
        omega
      · obtain rfl := Option.some.inj h
        have : ¬ 2 ^ 63 ≤ un := fun hle => hplus ⟨Bool.eq_false_of_not_eq_true hneg, hle⟩
        omega

end Go
