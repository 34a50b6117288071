import Mathlib.Data.List.Basic
import Mathlib.Data.List.Infix
import Mathlib.Tactic.Common

/-!
# Go strings

A Go string is a sequence of bytes with no promise about its encoding, so
the model is `List UInt8`.  This file gives the part of `strings`, `fmt` and
`encoding/hex` that the programs use: `strings.TrimSpace`,
`strings.TrimPrefix`, `strings.Join`, the `%d` verb and `hex.EncodeToString`.

`TrimSpace` removes the code points of `unicode.IsSpace`.  On bytes these
are the words of `spaces`: one byte for the ASCII ones, two bytes for
`U+0085` and `U+00A0`, three for the rest.  A byte that is not part of a
valid encoding decodes to `U+FFFD`, which is not a space, so stripping the
words of `spaces` from both ends is what the decoder-based loop does.
-/

namespace Go

/-- A Go string. -/
abbrev GoString := List UInt8

/-- The bytes of a string literal. -/
def go (s : String) : GoString := s.toList.flatMap String.utf8EncodeChar

/-- A separator that neither front contains cuts at one place. -/
theorem append_sep_inj {sep : UInt8} {a a' b b' : GoString} (h : sep ∉ a) (h' : sep ∉ a')
    (he : a ++ sep :: b = a' ++ sep :: b') : a = a' ∧ b = b' := by
  induction a generalizing a' with
  | nil =>
    cases a' with
    | nil => exact ⟨rfl, (List.cons.inj he).2⟩
    | cons x a' =>
      obtain ⟨rfl, -⟩ := List.cons.inj he
      exact absurd List.mem_cons_self h'
  | cons x a ih =>
    cases a' with
    | nil =>
      obtain ⟨rfl, -⟩ := List.cons.inj he
      exact absurd List.mem_cons_self h
    | cons y a' =>
      obtain ⟨rfl, htail⟩ := List.cons.inj he
      obtain ⟨rfl, hb⟩ := ih (fun hm => h (List.mem_cons_of_mem _ hm))
        (fun hm => h' (List.mem_cons_of_mem _ hm)) htail
      exact ⟨rfl, hb⟩

/-! ## Stripping words from an end -/

/-- Drop words of `ws` from the front, at most `fuel` of them. -/
def stripWords (ws : List GoString) : Nat → GoString → GoString
  | 0, s => s
  | fuel + 1, s =>
    match ws.find? (fun w => w.isPrefixOf s) with
    | none => s
    | some w => stripWords ws fuel (s.drop w.length)

/-- No word of `ws` starts `s`. -/
def Stripped (ws : List GoString) (s : GoString) : Prop :=
  ∀ w ∈ ws, ¬ w <+: s

instance (ws : List GoString) (s : GoString) : Decidable (Stripped ws s) :=
  inferInstanceAs (Decidable (∀ w ∈ ws, ¬ w <+: s))

theorem stripWords_suffix (ws : List GoString) (fuel : Nat) (s : GoString) :
    stripWords ws fuel s <:+ s := by
  induction fuel generalizing s with
  | zero => exact List.suffix_refl s
  | succ fuel ih =>
    rw [stripWords]
    split
    · exact List.suffix_refl s
    · exact (ih _).trans (List.drop_suffix _ s)

/-- Fuel for the whole length is enough, since every word has a byte. -/
theorem stripWords_stripped {ws : List GoString} (hws : ∀ w ∈ ws, w ≠ [])
    (fuel : Nat) (s : GoString) (hfuel : s.length ≤ fuel) :
    Stripped ws (stripWords ws fuel s) := by
  induction fuel generalizing s with
  | zero =>
    have hs : s = [] := List.eq_nil_of_length_eq_zero (by omega)
    subst hs
    intro w hw hpre
    exact hws w hw (List.prefix_nil.mp hpre)
  | succ fuel ih =>
    rw [stripWords]
    split
    · rename_i hnone
      intro w hw hpre
      have := List.find?_eq_none.mp hnone w hw
      exact this (List.isPrefixOf_iff_prefix.mpr hpre)
    · rename_i w hsome
      have hw : 0 < w.length := List.length_pos_iff.mpr (hws w (List.mem_of_find?_eq_some hsome))
      apply ih
      rw [List.length_drop]
      omega

theorem stripWords_eq_self {ws : List GoString} {s : GoString} (h : Stripped ws s)
    (fuel : Nat) : stripWords ws fuel s = s := by
  cases fuel with
  | zero => rfl
  | succ fuel =>
    have hnone : ws.find? (fun w => w.isPrefixOf s) = none := by
      rw [List.find?_eq_none]
      intro w hw hpre
      exact h w hw (List.isPrefixOf_iff_prefix.mp hpre)
    rw [stripWords, hnone]

/-! ## `strings.TrimSpace` -/

/-- The UTF-8 encodings of the code points of `unicode.IsSpace`. -/
def spaces : List GoString :=
  [[0x09], [0x0A], [0x0B], [0x0C], [0x0D], [0x20], [0xC2, 0x85], [0xC2, 0xA0],
    [0xE1, 0x9A, 0x80],
    [0xE2, 0x80, 0x80], [0xE2, 0x80, 0x81], [0xE2, 0x80, 0x82], [0xE2, 0x80, 0x83],
    [0xE2, 0x80, 0x84], [0xE2, 0x80, 0x85], [0xE2, 0x80, 0x86], [0xE2, 0x80, 0x87],
    [0xE2, 0x80, 0x88], [0xE2, 0x80, 0x89], [0xE2, 0x80, 0x8A], [0xE2, 0x80, 0xA8],
    [0xE2, 0x80, 0xA9], [0xE2, 0x80, 0xAF], [0xE2, 0x81, 0x9F], [0xE3, 0x80, 0x80]]

def trimLeft (s : GoString) : GoString := stripWords spaces s.length s

def trimRight (s : GoString) : GoString :=
  (stripWords (spaces.map List.reverse) s.length s.reverse).reverse

/-- `strings.TrimSpace`. -/
def trimSpace (s : GoString) : GoString := trimRight (trimLeft s)

/-- No space at either end. -/
def Trimmed (s : GoString) : Prop :=
  Stripped spaces s ∧ Stripped (spaces.map List.reverse) s.reverse

instance (s : GoString) : Decidable (Trimmed s) :=
  inferInstanceAs (Decidable (_ ∧ _))

theorem trimRight_isPrefix (s : GoString) : trimRight s <+: s := by
  have h := stripWords_suffix (spaces.map List.reverse) s.length s.reverse
  rw [← List.reverse_reverse s, trimRight, List.reverse_prefix, List.reverse_reverse]
  exact h

theorem trimSpace_trimmed (s : GoString) : Trimmed (trimSpace s) := by
  have hleft : Stripped spaces (trimLeft s) :=
    stripWords_stripped (by decide) s.length s (Nat.le_refl _)
  constructor
  · -- a space at the front of the trimmed string would be one before the right trim
    intro w hw hpre
    exact hleft w hw (hpre.trans (trimRight_isPrefix (trimLeft s)))
  · rw [trimSpace, trimRight, List.reverse_reverse]
    exact stripWords_stripped (by decide) _ _ (by rw [List.length_reverse])

theorem trimSpace_eq_self {s : GoString} (h : Trimmed s) : trimSpace s = s := by
  have hleft : trimLeft s = s := stripWords_eq_self h.1 s.length
  rw [trimSpace, hleft, trimRight, stripWords_eq_self h.2, List.reverse_reverse]

@[simp] theorem trimSpace_trimSpace (s : GoString) : trimSpace (trimSpace s) = trimSpace s :=
  trimSpace_eq_self (trimSpace_trimmed s)

@[simp] theorem trimSpace_nil : trimSpace [] = [] := rfl

theorem trimSpace_subset (s : GoString) : trimSpace s ⊆ s := by
  intro b hb
  have hb' : b ∈ trimLeft s := (trimRight_isPrefix (trimLeft s)).subset hb
  exact (stripWords_suffix spaces s.length s).subset hb'

/-- A byte that is absent from a string is absent from the trimmed one. -/
theorem notMem_trimSpace {b : UInt8} {s : GoString} (h : b ∉ s) : b ∉ trimSpace s :=
  fun hb => h (trimSpace_subset s hb)

/-- A byte of no space. -/
def Plain (b : UInt8) : Prop := ∀ w ∈ spaces, b ∉ w

instance (b : UInt8) : Decidable (Plain b) :=
  inferInstanceAs (Decidable (∀ w ∈ spaces, b ∉ w))

/-- The printable bytes of ASCII. -/
theorem plain_of_printable {b : UInt8} (h : 0x20 < b) (h' : b < 0x7F) : Plain b := by
  have hspaces : ∀ w ∈ spaces, ∀ c ∈ w, c.toNat ≤ 0x20 ∨ 0x7F ≤ c.toNat := by
    decide +kernel
  intro w hw hb
  rcases hspaces w hw b hb with hle | hle
  · exact absurd (UInt8.lt_iff_toNat_lt.mp h) (Nat.not_lt.mpr hle)
  · exact absurd (UInt8.lt_iff_toNat_lt.mp h') (Nat.not_lt.mpr hle)

/-- A string without a byte of a space has nothing to trim. -/
theorem trimmed_of_plain {s : GoString} (h : ∀ b ∈ s, Plain b) : Trimmed s := by
  have hne : ∀ w ∈ spaces, w ≠ [] := by decide
  constructor
  · intro w hw hpre
    obtain ⟨b, hb⟩ := List.exists_mem_of_ne_nil w (hne w hw)
    exact h b (hpre.subset hb) w hw hb
  · intro w hw hpre
    obtain ⟨w', hw', rfl⟩ := List.mem_map.mp hw
    obtain ⟨b, hb⟩ := List.exists_mem_of_ne_nil w' (hne w' hw')
    have hbs : b ∈ s := List.mem_reverse.mp (hpre.subset (List.mem_reverse.mpr hb))
    exact h b hbs w' hw' hb

theorem mem_stripWords {ws : List GoString} {b : UInt8} (hb : ∀ w ∈ ws, b ∉ w) (fuel : Nat)
    {s : GoString} (h : b ∈ s) : b ∈ stripWords ws fuel s := by
  induction fuel generalizing s with
  | zero => exact h
  | succ fuel ih =>
    rw [stripWords]
    split
    · exact h
    · rename_i w hsome
      have hw : b ∉ w := hb w (List.mem_of_find?_eq_some hsome)
      have hpre := List.find?_some hsome
      obtain ⟨t, rfl⟩ := List.isPrefixOf_iff_prefix.mp hpre
      rw [List.drop_left]
      exact ih ((List.mem_append.mp h).resolve_left hw)

/-- `TrimSpace` keeps the bytes of no space. -/
theorem Plain.mem_trimSpace {b : UInt8} (hb : Plain b) {s : GoString} (h : b ∈ s) :
    b ∈ trimSpace s := by
  have hleft : b ∈ trimLeft s := mem_stripWords hb s.length h
  have hrev : ∀ w ∈ spaces.map List.reverse, b ∉ w := by
    intro w hw
    obtain ⟨w', hw', rfl⟩ := List.mem_map.mp hw
    exact fun hmem => hb w' hw' (List.mem_reverse.mp hmem)
  unfold trimSpace trimRight
  exact List.mem_reverse.mpr (mem_stripWords hrev _ (List.mem_reverse.mpr hleft))

/-- A word without the separator that starts the string starts the first
part. -/
theorem isPrefix_of_sep {sep : UInt8} {w a b : GoString} (hw : sep ∉ w)
    (h : w <+: a ++ sep :: b) : w <+: a := by
  induction w generalizing a with
  | nil => exact List.nil_prefix
  | cons x w ih =>
    cases a with
    | nil =>
      obtain ⟨rfl, -⟩ := List.cons_prefix_cons.mp h
      exact absurd List.mem_cons_self hw
    | cons y a =>
      obtain ⟨rfl, htail⟩ := List.cons_prefix_cons.mp h
      exact List.cons_prefix_cons.mpr ⟨rfl, ih (fun hm => hw (List.mem_cons_of_mem _ hm)) htail⟩

theorem Trimmed.append {sep : UInt8} (hsep : Plain sep) {a b : GoString} (ha : Trimmed a)
    (hb : Trimmed b) : Trimmed (a ++ sep :: b) := by
  constructor
  · intro w hw hpre
    exact ha.1 w hw (isPrefix_of_sep (hsep w hw) hpre)
  · intro w hw hpre
    have hw' : sep ∉ w := by
      obtain ⟨w', hw', rfl⟩ := List.mem_map.mp hw
      exact fun hmem => hsep w' hw' (List.mem_reverse.mp hmem)
    rw [List.reverse_append, List.reverse_cons, List.append_assoc, List.singleton_append] at hpre
    exact hb.2 w hw (isPrefix_of_sep hw' hpre)

/-- `strings.TrimPrefix`. -/
def trimPrefix (s p : GoString) : GoString := if p.isPrefixOf s then s.drop p.length else s

/-! ## `strings.Join`, `%d` and `hex.EncodeToString` -/

/-- `strings.Join`. -/
def join (parts : List GoString) (sep : GoString) : GoString := sep.intercalate parts

@[simp] theorem join_singleton (p sep : GoString) : join [p] sep = p := by
  simp [join, List.intercalate]

theorem join_cons_cons (p q : GoString) (ps : List GoString) (sep : UInt8) :
    join (p :: q :: ps) [sep] = p ++ sep :: join (q :: ps) [sep] := by
  simp [join, List.intercalate]

/-- The `%d` verb. -/
def itoa (n : Int) : GoString :=
  if n < 0 then 0x2D :: (Nat.toDigits 10 n.natAbs).flatMap String.utf8EncodeChar
  else (Nat.toDigits 10 n.natAbs).flatMap String.utf8EncodeChar

def hexDigit (n : Nat) : UInt8 :=
  if n < 10 then UInt8.ofNat (0x30 + n) else UInt8.ofNat (0x57 + n)

/-- `hex.EncodeToString`. -/
def hexEncode (b : List UInt8) : GoString :=
  b.flatMap fun x => [hexDigit (x.toNat / 16), hexDigit (x.toNat % 16)]

theorem plain_hexEncode {b : List UInt8} : ∀ x ∈ hexEncode b, Plain x := by
  have hdigit : ∀ n : Fin 16, Plain (hexDigit n) := by decide
  intro x hx
  obtain ⟨y, -, hy⟩ := List.mem_flatMap.mp hx
  have hlt := y.toNat_lt
  rcases List.mem_cons.mp hy with rfl | hy
  · exact hdigit ⟨y.toNat / 16, by omega⟩
  · obtain rfl := List.mem_singleton.mp hy
    exact hdigit ⟨y.toNat % 16, Nat.mod_lt _ (by decide)⟩

theorem hexEncode_eq_nil {b : List UInt8} : hexEncode b = [] ↔ b = [] := by
  cases b <;> simp [hexEncode]

theorem hexDigit_injective {m n : Nat} (hm : m < 16) (hn : n < 16)
    (h : hexDigit m = hexDigit n) : m = n := by
  have hfin : ∀ m n : Fin 16, hexDigit m = hexDigit n → m = n := by decide
  exact congrArg Fin.val (hfin ⟨m, hm⟩ ⟨n, hn⟩ h)

theorem hexEncode_injective : Function.Injective hexEncode := by
  intro a b hab
  induction a generalizing b with
  | nil => exact (hexEncode_eq_nil.mp hab.symm).symm
  | cons x a ih =>
    cases b with
    | nil => exact absurd (hexEncode_eq_nil.mp hab) (List.cons_ne_nil x a)
    | cons y b =>
      simp only [hexEncode, List.flatMap_cons, List.cons_append, List.nil_append,
        List.cons.injEq] at hab
      obtain ⟨hhi, hlo, htail⟩ := hab
      have hx := x.toNat_lt
      have hy := y.toNat_lt
      have hhi' := hexDigit_injective (by omega) (by omega) hhi
      have hlo' := hexDigit_injective (Nat.mod_lt _ (by decide)) (Nat.mod_lt _ (by decide)) hlo
      have hxy : x = y := UInt8.toNat_inj.mp (by omega)
      rw [hxy, ih htail]

end Go
