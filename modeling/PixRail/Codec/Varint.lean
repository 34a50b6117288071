import PixRail.Codec.ProtoWire
import Mathlib.Algebra.BigOperators.Ring.Finset

/-!
# Varints

What `readProtoVarint` makes of a byte string.  A varint is a list of groups
of seven bits, the lowest first, and stands for the number that has these
groups as its digits (`base128`).  The reader stops at the first byte below
`0x80` and gives up after ten bytes; what it returns is the number modulo
`2 ^ 64` (`readProtoVarintLoop_eq`).

Nine bytes always fit.  A tenth byte has room for one bit, but the reader
bounds only the number of the bytes.  So it returns another number than the
bytes stand for exactly when the tenth byte is the last one and above one
(`Overflows`).
-/

namespace PixRail.Codec

/-- The number that the first `n` bytes stand for. -/
def base128 (raw : List UInt8) (n : Nat) : Nat :=
  ∑ i ∈ Finset.range n, (raw.getD i 0).toNat % 128 * 128 ^ i

/-- The tenth byte ends the varint, and has more bits than there is room for. -/
def Overflows (raw : List UInt8) : Prop :=
  (∀ b ∈ raw.take 9, 0x80 ≤ b) ∧ ∃ b ∈ raw[9]?, 1 < b ∧ b < 0x80

/-! ## The number of the bytes -/

theorem base128_cons (b : UInt8) (raw : List UInt8) (n : Nat) :
    base128 (b :: raw) (n + 1) = b.toNat % 128 + 128 * base128 raw n := by
  rw [base128, Finset.sum_range_succ', Nat.add_comm, base128, Finset.mul_sum]
  congr 1
  · simp
  · refine Finset.sum_congr rfl fun i _ => ?_
    rw [List.getD_cons_succ, Nat.pow_succ]
    ring

theorem base128_succ (raw : List UInt8) (n : Nat) :
    base128 raw (n + 1) = base128 raw n + (raw.getD n 0).toNat % 128 * 128 ^ n :=
  Finset.sum_range_succ _ _

theorem base128_lt (raw : List UInt8) (n : Nat) : base128 raw n < 128 ^ n := by
  induction n with
  | zero => simp [base128]
  | succ n ih =>
    have hdigit : (raw.getD n 0).toNat % 128 * 128 ^ n ≤ 127 * 128 ^ n :=
      Nat.mul_le_mul_right _ (by omega)
    rw [base128_succ, Nat.pow_succ]
    omega

/-! ## The reader -/

/-- The loop that meets the last byte after `k` more: the number of the bytes
read so far is `acc`, and `base128` that of the bytes ahead. -/
theorem readProtoVarintLoop_eq (acc : UInt64) (i : Nat) {k : Nat} {raw : List UInt8} {b : UInt8}
    (hik : i + k < 10) (hacc : acc.toNat < 2 ^ (7 * i)) (hmore : ∀ c ∈ raw.take k, 0x80 ≤ c)
    (hb : raw[k]? = some b) (hlast : b < 0x80) :
    ∃ value : UInt64,
      value.toNat = (acc.toNat + base128 raw (k + 1) * 2 ^ (7 * i)) % 2 ^ 64 ∧
        readProtoVarintLoop acc i raw = (value, ((i + k + 1 : Nat) : Int)) := by
  induction k generalizing acc i raw with
  | zero =>
    cases raw with
    | nil => simp at hb
    | cons c raw =>
      obtain rfl : c = b := by simpa using hb
      obtain ⟨value, hvalue, hround⟩ := readProtoVarintLoop_cons (by omega) hacc c raw
      refine ⟨value, ?_, by rw [hround, if_pos hlast]⟩
      have hlt := value.toNat_lt
      have hone : base128 (c :: raw) (0 + 1) = c.toNat % 128 := by
        rw [base128_cons]
        rfl
      rw [hone]
      omega
  | succ k ih =>
    cases raw with
    | nil => simp at hb
    | cons c raw =>
      rw [List.take_succ_cons, List.forall_mem_cons] at hmore
      rw [List.getElem?_cons_succ] at hb
      obtain ⟨acc', hacc', hround⟩ := readProtoVarintLoop_cons (by omega) hacc c raw
      have hpow : 2 ^ (7 * (i + 1)) = 128 * 2 ^ (7 * i) := by
        rw [Nat.mul_succ, Nat.pow_add, Nat.mul_comm]
      have hdigit : c.toNat % 128 * 2 ^ (7 * i) ≤ 127 * 2 ^ (7 * i) :=
        Nat.mul_le_mul_right _ (by omega)
      obtain ⟨value, hvalue, hrun⟩ := ih acc' (i + 1) (by omega) (by omega) hmore.2 hb
      refine ⟨value, ?_, ?_⟩
      · have hsplit : base128 (c :: raw) (k + 1 + 1) * 2 ^ (7 * i) =
            c.toNat % 128 * 2 ^ (7 * i) + base128 raw (k + 1) * (128 * 2 ^ (7 * i)) := by
          rw [base128_cons]
          ring
        rw [hvalue, hacc', hpow, hsplit]
        omega
      · rw [hround, if_neg (UInt8.not_lt.mpr hmore.1), hrun]
        congr 2
        omega

/-- A loop that returns a number met a last byte. -/
theorem readProtoVarintLoop_pos {acc : UInt64} {i : Nat} {raw : List UInt8} {value : UInt64}
    {n : Int} (hi : i ≤ 10) (h : readProtoVarintLoop acc i raw = (value, n)) (hn : 0 < n) :
    ∃ k b, i + k < 10 ∧ n = ((i + k + 1 : Nat) : Int) ∧ (∀ c ∈ raw.take k, 0x80 ≤ c) ∧
      raw[k]? = some b ∧ b < 0x80 := by
  induction raw generalizing acc i with
  | nil =>
    obtain ⟨-, rfl⟩ := Prod.mk.inj h
    exact absurd hn (by decide)
  | cons c raw ih =>
    rw [readProtoVarintLoop] at h
    dsimp only at h
    split at h
    · obtain ⟨-, rfl⟩ := Prod.mk.inj h
      exact absurd hn (by decide)
    · rename_i hne
      split at h
      · rename_i hlt
        obtain ⟨-, rfl⟩ := Prod.mk.inj h
        exact ⟨0, c, by omega, by simp, by simp, rfl, hlt⟩
      · rename_i hge
        obtain ⟨k, b, hik, rfl, hmore, hb, hlast⟩ := ih (by omega) h
        refine ⟨k + 1, b, by omega, ?_, ?_, by simpa using hb, hlast⟩
        · congr 1
          omega
        · rw [List.take_succ_cons, List.forall_mem_cons]
          exact ⟨UInt8.not_lt.mp hge, hmore⟩

/-- What the reader returns for a varint that ends at byte `k`. -/
theorem readProtoVarint_eq {raw : List UInt8} {k : Nat} {b : UInt8} (hk : k < 10)
    (hmore : ∀ c ∈ raw.take k, 0x80 ≤ c) (hb : raw[k]? = some b) (hlast : b < 0x80) :
    ∃ value : UInt64, value.toNat = base128 raw (k + 1) % 2 ^ 64 ∧
      readProtoVarint raw = (value, ((k + 1 : Nat) : Int)) := by
  obtain ⟨value, hvalue, hrun⟩ := readProtoVarintLoop_eq 0 0 (by omega) (by decide) hmore hb
    hlast
  refine ⟨value, ?_, ?_⟩
  · simpa using hvalue
  · rw [Nat.zero_add] at hrun
    exact hrun

/-- The number fits, unless there are ten bytes and the last is above one. -/
theorem base128_lt_iff {raw : List UInt8} {k : Nat} {b : UInt8} (hk : k < 10)
    (hb : raw[k]? = some b) (hlast : b < 0x80) :
    base128 raw (k + 1) < 2 ^ 64 ↔ (k = 9 → b ≤ 1) := by
  have hlow := base128_lt raw k
  have hdigit : (raw.getD k 0).toNat % 128 = b.toNat := by
    rw [List.getD_eq_getElem?_getD, hb, Option.getD_some]
    exact Nat.mod_eq_of_lt hlast
  have hb1 : b ≤ 1 ↔ b.toNat ≤ 1 := Iff.rfl
  by_cases hk9 : k = 9
  · subst hk9
    rw [base128_succ, hdigit, hb1]
    constructor
    · intro h _
      by_contra hgt
      have : 2 * 128 ^ 9 ≤ b.toNat * 128 ^ 9 := Nat.mul_le_mul_right _ (by omega)
      omega
    · intro h
      have : b.toNat * 128 ^ 9 ≤ 1 * 128 ^ 9 := Nat.mul_le_mul_right _ (h rfl)
      omega
  · refine ⟨fun _ h => absurd h hk9, fun _ => ?_⟩
    calc base128 raw (k + 1) < 128 ^ (k + 1) := base128_lt raw (k + 1)
      _ ≤ 128 ^ 9 := Nat.pow_le_pow_right (by decide) (by omega)
      _ < 2 ^ 64 := by decide

/-! ## The writer -/

theorem appendProtoVarintRaw_length_le (v : UInt64) (n : Nat) (hv : v.toNat < 128 ^ (n + 1)) :
    (appendProtoVarintRaw v).length ≤ n + 1 := by
  induction n generalizing v with
  | zero =>
    rw [appendProtoVarintRaw, if_neg (UInt64.not_le.mpr (show v.toNat < 128 by simpa using hv))]
    exact Nat.le_refl 1
  | succ n ih =>
    rw [appendProtoVarintRaw]
    split
    · have hshr : (v >>> 7).toNat = v.toNat / 128 := by
        rw [UInt64.toNat_shiftRight]
        exact Nat.shiftRight_eq_div_pow _ 7
      rw [Nat.pow_succ'] at hv
      have hrest := ih (v >>> 7) (by rw [hshr]; exact Nat.div_lt_of_lt_mul hv)
      rw [List.length_cons]
      omega
    · exact Nat.succ_le_succ (Nat.zero_le _)

/-! ## Exactness -/

/-- What is written is read back from any context.  A varint is read as the
number it stands for exactly when its tenth byte does not overflow. -/
theorem varint_exact_iff (v : UInt64) (rest raw : List UInt8) :
    (readProtoVarint (appendProtoVarintRaw v ++ rest) =
        (v, ((appendProtoVarintRaw v).length : Int)) ∧
      1 ≤ (appendProtoVarintRaw v).length ∧ (appendProtoVarintRaw v).length ≤ 10) ∧
    ((∀ value n, readProtoVarint raw = (value, n) → 0 < n →
        value.toNat = base128 raw n.toNat) ↔ ¬ Overflows raw) := by
  refine ⟨⟨readProtoVarint_append v rest, ?_, ?_⟩, ?_, ?_⟩
  · exact List.length_pos_iff.mpr (appendProtoVarintRaw_ne_nil v)
  · exact appendProtoVarintRaw_length_le v 9 (v.toNat_lt.trans (by decide))
  · rintro hexact ⟨hmore, b, hb, hone, hlast⟩
    obtain ⟨value, hvalue, hread⟩ := readProtoVarint_eq (by decide) hmore hb hlast
    have hsame := hexact value _ hread (by decide)
    have hfits : base128 raw (9 + 1) < 2 ^ 64 := by
      rw [show base128 raw (9 + 1) = value.toNat from hsame.symm]
      exact value.toNat_lt
    have hle := (base128_lt_iff (by decide) hb hlast).mp hfits rfl
    exact absurd hone (UInt8.not_lt.mpr hle)
  · intro hfits value n hread hn
    obtain ⟨k, b, hk, hkn, hmore, hb, hlast⟩ := readProtoVarintLoop_pos (Nat.zero_le _) hread hn
    rw [Nat.zero_add] at hk hkn
    obtain ⟨value', hvalue, hread'⟩ := readProtoVarint_eq hk hmore hb hlast
    obtain ⟨rfl, -⟩ := Prod.mk.inj (hread.symm.trans hread')
    rw [hkn, Int.toNat_natCast, hvalue, Nat.mod_eq_of_lt]
    refine (base128_lt_iff hk hb hlast).mpr fun hk9 => ?_
    subst hk9
    by_contra hgt
    exact hfits ⟨hmore, b, hb, UInt8.not_le.mp hgt, hlast⟩

/-- Nine empty groups and a tenth byte of two stand for `2 ^ 64` and are read
as zero. -/
theorem varint_tenth_byte_dropped :
    readProtoVarint (List.replicate 9 0x80 ++ [2]) = (0, 10) ∧
      base128 (List.replicate 9 0x80 ++ [2]) 10 = 2 ^ 64 := by
  decide +kernel

end PixRail.Codec
