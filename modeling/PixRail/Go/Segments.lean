import PixRail.Go.Strings

/-!
# Strings joined with a separator byte

`join` with a one-byte separator can be taken apart again only up to the
segments between the separators: a part that contains the separator spreads
over several segments.  `segments_join` says which segments a join has.

The decimal digits of the `%d` verb contain no zero byte and determine the
number.
-/

namespace Go

/-! ## Segments -/

/-- The stretches of a string between the separators. -/
def segments (sep : UInt8) (s : GoString) : List GoString := s.splitOn sep

theorem segments_ne_nil (sep : UInt8) (s : GoString) : segments sep s ≠ [] :=
  List.splitOn_ne_nil sep s

@[simp] theorem join_segments (sep : UInt8) (s : GoString) : join (segments sep s) [sep] = s :=
  List.intercalate_splitOn sep

theorem segments_append (sep : UInt8) (a b : GoString) :
    segments sep (a ++ sep :: b) = segments sep a ++ segments sep b :=
  List.splitOn_append_cons_self a b

theorem segments_of_notMem {sep : UInt8} {s : GoString} (h : sep ∉ s) : segments sep s = [s] :=
  List.splitOn_eq_singleton h

theorem notMem_of_mem_segments {sep : UInt8} {s p : GoString} (h : p ∈ segments sep s) :
    sep ∉ p := by
  induction s generalizing p with
  | nil =>
    obtain rfl : p = [] := by simpa [segments] using h
    exact List.not_mem_nil
  | cons x s ih =>
    rw [segments, List.splitOn_cons_eq_if_modifyHead] at h
    split at h
    · rcases List.mem_cons.mp h with rfl | h
      · exact List.not_mem_nil
      · exact ih h
    · rename_i hx
      obtain ⟨q, qs, hq⟩ := List.exists_cons_of_ne_nil (segments_ne_nil sep s)
      rw [segments] at hq
      rw [hq, List.modifyHead_cons] at h
      have hmem : ∀ p ∈ q :: qs, sep ∉ p := fun p hp => ih (by rwa [segments, hq])
      rcases List.mem_cons.mp h with rfl | h
      · intro hsep
        rcases List.mem_cons.mp hsep with rfl | hsep
        · exact hx (by simp)
        · exact hmem q List.mem_cons_self hsep
      · exact hmem p (List.mem_cons_of_mem _ h)

/-- The segments of a join are the segments of its parts. -/
theorem segments_join (sep : UInt8) {ps : List GoString} (hne : ps ≠ []) :
    segments sep (join ps [sep]) = ps.flatMap (segments sep) := by
  induction ps with
  | nil => exact absurd rfl hne
  | cons p ps ih =>
    cases ps with
    | nil => simp
    | cons q ps =>
      rw [join_cons_cons, segments_append, ih (List.cons_ne_nil q ps)]
      rfl

/-- Pieces without separator are the segments of their join. -/
theorem segments_join_of_notMem {sep : UInt8} {ps : List GoString} (hne : ps ≠ [])
    (h : ∀ p ∈ ps, sep ∉ p) : segments sep (join ps [sep]) = ps :=
  List.splitOn_intercalate sep h hne

theorem join_append (sep : UInt8) {ps qs : List GoString} (hp : ps ≠ []) (hq : qs ≠ []) :
    join (ps ++ qs) [sep] = join ps [sep] ++ sep :: join qs [sep] := by
  induction ps with
  | nil => exact absurd rfl hp
  | cons p ps ih =>
    cases ps with
    | nil =>
      obtain ⟨q, qs, rfl⟩ := List.exists_cons_of_ne_nil hq
      rw [List.singleton_append, join_cons_cons, join_singleton]
    | cons p' ps =>
      have htail := ih (List.cons_ne_nil p' ps)
      rw [List.cons_append] at htail
      rw [List.cons_append, List.cons_append, join_cons_cons, htail, join_cons_cons,
        List.append_assoc, List.cons_append]

/-- A join of joins is the join of all their pieces. -/
theorem join_map_join (sep : UInt8) (pss : List (List GoString)) (h : ∀ ps ∈ pss, ps ≠ []) :
    join (pss.map (join · [sep])) [sep] = join pss.flatten [sep] := by
  induction pss with
  | nil => rfl
  | cons ps pss ih =>
    have htail := ih fun qs hqs => h qs (List.mem_cons_of_mem ps hqs)
    cases pss with
    | nil => simp
    | cons qs pss =>
      have hqs : (qs :: pss).flatten ≠ [] := by
        rw [List.flatten_cons]
        exact List.append_ne_nil_of_left_ne_nil (h qs (by simp)) _
      rw [List.map_cons] at htail ⊢
      rw [List.map_cons]
      rw [join_cons_cons, htail, List.flatten_cons (l := ps),
        join_append sep (h ps List.mem_cons_self) hqs]

theorem Trimmed.join {sep : UInt8} (hsep : Plain sep) {ps : List GoString}
    (h : ∀ p ∈ ps, Trimmed p) : Trimmed (join ps [sep]) := by
  induction ps with
  | nil => exact trimSpace_trimmed []
  | cons p ps ih =>
    obtain ⟨hp, hps⟩ := List.forall_mem_cons.mp h
    cases ps with
    | nil => rwa [join_singleton]
    | cons q ps =>
      rw [join_cons_cons]
      exact hp.append hsep (ih hps)

theorem notMem_join {b sep : UInt8} (hne : b ≠ sep) {ps : List GoString} (h : ∀ p ∈ ps, b ∉ p) :
    b ∉ join ps [sep] := by
  induction ps with
  | nil => exact List.not_mem_nil
  | cons p ps ih =>
    obtain ⟨hp, hps⟩ := List.forall_mem_cons.mp h
    cases ps with
    | nil => rwa [join_singleton]
    | cons q ps =>
      rw [join_cons_cons, List.mem_append, List.mem_cons]
      rintro (hmem | heq | hmem)
      · exact hp hmem
      · exact hne heq
      · exact ih hps hmem

/-! ## `strings.SplitN` -/

/-- The string before the first separator, and the string after it. -/
def cut (sep : UInt8) : GoString → Option (GoString × GoString)
  | [] => none
  | b :: s => if b = sep then some ([], s) else (cut sep s).map fun r => (b :: r.1, r.2)

/-- `strings.SplitN` with a separator of one byte and a count that is not
negative. -/
def splitN (sep : UInt8) : Nat → GoString → List GoString
  | 0, _ => []
  | 1, s => [s]
  | n + 2, s =>
    match cut sep s with
    | none => [s]
    | some (a, rest) => a :: splitN sep (n + 1) rest

theorem cut_append {sep : UInt8} {a : GoString} (h : sep ∉ a) (b : GoString) :
    cut sep (a ++ sep :: b) = some (a, b) := by
  induction a with
  | nil => exact if_pos rfl
  | cons x a ih =>
    obtain ⟨hne, ha⟩ := not_or.mp (fun hm => h (List.mem_cons.mpr hm))
    rw [List.cons_append, cut, if_neg (Ne.symm hne), ih ha]
    rfl

theorem cut_of_notMem {sep : UInt8} {s : GoString} (h : sep ∉ s) : cut sep s = none := by
  induction s with
  | nil => rfl
  | cons x s ih =>
    obtain ⟨hne, hs⟩ := not_or.mp (fun hm => h (List.mem_cons.mpr hm))
    rw [cut, if_neg (Ne.symm hne), ih hs]
    rfl

theorem splitN_of_notMem {sep : UInt8} {s : GoString} (h : sep ∉ s) (n : Nat) :
    splitN sep (n + 1) s = [s] := by
  cases n with
  | zero => rfl
  | succ n => rw [splitN, cut_of_notMem h]

theorem splitN_append {sep : UInt8} {a : GoString} (h : sep ∉ a) (b : GoString) (n : Nat) :
    splitN sep (n + 2) (a ++ sep :: b) = a :: splitN sep (n + 1) b := by
  rw [splitN, cut_append h]

/-- A string has no separator, or a first one. -/
theorem notMem_or_append (sep : UInt8) (s : GoString) :
    sep ∉ s ∨ ∃ a b, s = a ++ sep :: b ∧ sep ∉ a := by
  by_cases h : sep ∈ s
  · obtain ⟨a, b, rfl, ha⟩ := List.eq_append_cons_of_mem h
    exact .inr ⟨a, b, rfl, ha⟩
  · exact .inl h

/-! ## Decimal digits -/

theorem utf8EncodeChar_digit {c : Char} (h : c.isDigit = true) :
    String.utf8EncodeChar c = [c.val.toUInt8] := by
  apply String.utf8EncodeChar_eq_singleton
  rw [Char.utf8Size_eq_one_iff, UInt32.le_iff_toNat_le]
  simp only [Char.isDigit, Bool.and_eq_true, decide_eq_true_eq, ge_iff_le,
    UInt32.le_iff_toNat_le] at h
  have h9 : ('9' : Char).val.toNat = 57 := rfl
  have h127 : (127 : UInt32).toNat = 127 := rfl
  omega

/-- The bytes of a list of digits. -/
theorem flatMap_digits {l : List Char} (h : ∀ c ∈ l, c.isDigit = true) :
    l.flatMap String.utf8EncodeChar = l.map fun c => c.val.toUInt8 := by
  induction l with
  | nil => rfl
  | cons c l ih =>
    rw [List.flatMap_cons, utf8EncodeChar_digit (h c List.mem_cons_self),
      ih fun d hd => h d (List.mem_cons_of_mem c hd)]
    rfl

theorem digit_toNat {c : Char} (h : c.isDigit = true) :
    c.val.toUInt8.toNat = c.val.toNat ∧ 48 ≤ c.val.toNat ∧ c.val.toNat ≤ 57 := by
  simp only [Char.isDigit, Bool.and_eq_true, decide_eq_true_eq, ge_iff_le,
    UInt32.le_iff_toNat_le] at h
  have h0 : ('0' : Char).val.toNat = 48 := rfl
  have h9 : ('9' : Char).val.toNat = 57 := rfl
  rw [UInt32.toNat_toUInt8]
  omega

theorem map_digits_injective {l l' : List Char} (h : ∀ c ∈ l, c.isDigit = true)
    (h' : ∀ c ∈ l', c.isDigit = true)
    (he : (l.map fun c => c.val.toUInt8) = l'.map fun c => c.val.toUInt8) : l = l' := by
  induction l generalizing l' with
  | nil => exact (List.map_eq_nil_iff.mp he.symm).symm
  | cons c l ih =>
    cases l' with
    | nil => exact absurd he (by simp)
    | cons d l' =>
      obtain ⟨hcd, htail⟩ := List.cons.inj he
      have hcd : c.val.toUInt8 = d.val.toUInt8 := hcd
      obtain ⟨hc, -⟩ := digit_toNat (h c List.mem_cons_self)
      obtain ⟨hd, -⟩ := digit_toNat (h' d List.mem_cons_self)
      have hval : c = d := Char.ext (UInt32.toNat_inj.mp (by rw [← hc, ← hd, hcd]))
      rw [hval, ih (fun x hx => h x (List.mem_cons_of_mem c hx))
        (fun x hx => h' x (List.mem_cons_of_mem d hx)) htail]

theorem itoa_eq {n : Int} (h : 0 ≤ n) :
    itoa n = (Nat.toDigits 10 n.natAbs).map fun c => c.val.toUInt8 := by
  rw [itoa, if_neg (Int.not_lt.mpr h)]
  exact flatMap_digits fun c hc => Nat.isDigit_of_mem_toDigits (by decide) (by decide) hc

theorem zero_notMem_itoa {n : Int} (h : 0 ≤ n) : 0 ∉ itoa n := by
  rw [itoa_eq h]
  intro hmem
  obtain ⟨c, hc, hc0⟩ := List.mem_map.mp hmem
  obtain ⟨hval, hge⟩ := digit_toNat (Nat.isDigit_of_mem_toDigits (by decide) (by decide) hc)
  rw [hc0] at hval
  have h0 : (0 : UInt8).toNat = 0 := rfl
  omega

theorem plain_itoa (n : Int) : ∀ b ∈ itoa n, Plain b := by
  have hdigits : ∀ m : Nat, ∀ b ∈ (Nat.toDigits 10 m).flatMap String.utf8EncodeChar, Plain b := by
    intro m b hb
    rw [flatMap_digits fun c hc => Nat.isDigit_of_mem_toDigits (by decide) (by decide) hc] at hb
    obtain ⟨c, hc, rfl⟩ := List.mem_map.mp hb
    obtain ⟨hval, hge, hle⟩ :=
      digit_toNat (Nat.isDigit_of_mem_toDigits (by decide) (by decide) hc)
    refine plain_of_printable (UInt8.lt_iff_toNat_lt.mpr ?_) (UInt8.lt_iff_toNat_lt.mpr ?_)
    · rw [hval]
      exact Nat.lt_of_lt_of_le (by decide) hge
    · rw [hval]
      exact Nat.lt_of_le_of_lt hle (by decide)
  unfold itoa
  split
  · exact List.forall_mem_cons.mpr ⟨by decide, hdigits _⟩
  · exact hdigits _

theorem itoa_injective {m n : Int} (hm : 0 ≤ m) (hn : 0 ≤ n) (h : itoa m = itoa n) : m = n := by
  rw [itoa_eq hm, itoa_eq hn] at h
  have hdigits : Nat.toDigits 10 m.natAbs = Nat.toDigits 10 n.natAbs :=
    map_digits_injective
      (fun c hc => Nat.isDigit_of_mem_toDigits (by decide) (by decide) hc)
      (fun c hc => Nat.isDigit_of_mem_toDigits (by decide) (by decide) hc) h
  have habs : m.natAbs = n.natAbs := by
    rw [← @Nat.ofDigitChars_ten_toDigits m.natAbs, hdigits, Nat.ofDigitChars_ten_toDigits]
  omega

end Go
