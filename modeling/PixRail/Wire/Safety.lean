import PixRail.Wire.Reader

/-!
# Readers that do not panic, and what a value costs

`wp p Q raw` says that `p` does not panic on `raw` and that a value it reads,
with the rest it leaves, satisfies `Q`.  There is one equivalence for each
way to build a reader.

`Pays k p size` is the form in which a reader is used: on no input does it
panic, and the size of its value is paid for with the bytes it takes and a
credit of `k`.  The credit is what the values before it have paid, so a chain
of readers is one sum (`Pays.bind`).  A loop whose rounds pay for what they
add to the state pays for its result (`loop_pays`).
-/

namespace Wire

/-- `p` does not panic on `raw`, and a value and the rest satisfy `Q`. -/
def wp {ε α : Type} (p : Reader ε α) (Q : α → List UInt8 → Prop) (raw : List UInt8) : Prop :=
  p raw ≠ .error .panic ∧ ∀ a rest, p raw = .ok (a, rest) → Q a rest

section wp

open Reader

variable {ε α β : Type} {p : Reader ε α} {f : α → Reader ε β} {raw : List UInt8}

theorem wp.imp {Q Q' : α → List UInt8 → Prop} (h : wp p Q raw)
    (hq : ∀ a rest, Q a rest → Q' a rest) : wp p Q' raw :=
  ⟨h.1, fun a rest ha => hq a rest (h.2 a rest ha)⟩

theorem wp_congr {Q Q' : α → List UInt8 → Prop} (h : ∀ a rest, Q a rest ↔ Q' a rest) :
    wp p Q raw ↔ wp p Q' raw :=
  ⟨fun hwp => hwp.imp fun a rest => (h a rest).mp, fun hwp => hwp.imp fun a rest => (h a rest).mpr⟩

theorem wp_true : wp p (fun _ _ => True) raw ↔ p raw ≠ .error .panic :=
  ⟨And.left, fun h => ⟨h, fun _ _ _ => trivial⟩⟩

theorem wp_of_ok {Q : α → List UInt8 → Prop} {a : α} {rest : List UInt8}
    (h : p raw = .ok (a, rest)) : wp p Q raw ↔ Q a rest := by
  unfold wp
  rw [h]
  constructor
  · exact fun hwp => hwp.2 a rest rfl
  · refine fun hq => ⟨nofun, ?_⟩
    rintro a' rest' ha
    obtain ⟨rfl, rfl⟩ := Prod.mk.inj (Except.ok.inj ha)
    exact hq

theorem wp_of_error {Q : α → List UInt8 → Prop} {e : ε} (h : p raw = .error (.error e)) :
    wp p Q raw := by
  unfold wp
  rw [h]
  exact ⟨nofun, nofun⟩

theorem wp_pure {Q : α → List UInt8 → Prop} (a : α) :
    wp (pure a : Reader ε α) Q raw ↔ Q a raw :=
  wp_of_ok rfl

theorem wp_fail {Q : α → List UInt8 → Prop} (e : ε) : wp (fail e : Reader ε α) Q raw :=
  wp_of_error rfl

theorem wp_input {Q : List UInt8 → List UInt8 → Prop} :
    wp (input : Reader ε (List UInt8)) Q raw ↔ Q raw raw :=
  wp_of_ok rfl

theorem wp_need {Q : Unit → List UInt8 → Prop} (e : ε) (n : Nat) :
    wp (need e n) Q raw ↔ (n ≤ raw.length → Q () raw) := by
  by_cases hlen : raw.length < n
  · have hrun : need e n raw = .error (.error e) := if_pos hlen
    exact iff_of_true (wp_of_error hrun) fun h => absurd hlen (not_lt.mpr h)
  · have hrun : need e n raw = .ok ((), raw) := if_neg hlen
    rw [wp_of_ok hrun]
    exact ⟨fun h _ => h, fun h => h (not_lt.mp hlen)⟩

theorem wp_slice {Q : List UInt8 → List UInt8 → Prop} {n : Nat} (hn : n ≤ raw.length) :
    wp (slice n : Reader ε (List UInt8)) Q raw ↔ Q (raw.take n) (raw.drop n) :=
  wp_of_ok (if_neg (not_lt.mpr hn))

theorem wp_next {Q : UInt8 → List UInt8 → Prop} (b : UInt8) :
    wp (next : Reader ε UInt8) Q (b :: raw) ↔ Q b raw :=
  wp_of_ok rfl

theorem wp_bind {Q : β → List UInt8 → Prop} :
    wp (p >>= f) Q raw ↔ wp p (fun a rest => wp (f a) Q rest) raw := by
  cases hr : p raw with
  | ok r =>
    rw [wp_of_ok hr]
    unfold wp
    rw [bind_run_ok hr]
  | error e =>
    cases e with
    | error e => exact iff_of_true (wp_of_error (bind_run_error hr)) (wp_of_error hr)
    | panic => exact iff_of_false (fun h => h.1 (bind_run_error hr)) fun h => h.1 hr

end wp

/-- `p` does not panic.  The bytes it takes and `k` more pay for the size of
its value. -/
def Pays {ε α : Type} (k : Nat) (p : Reader ε α) (size : α → Nat) : Prop :=
  ∀ raw, wp p (fun a rest => rest.length + size a ≤ raw.length + k) raw

section pays

open Reader

variable {ε α β : Type} {k : Nat} {p : Reader ε α} {size : α → Nat} {size' : β → Nat}

theorem pays_pure {a : α} (h : size a ≤ k) : Pays k (pure a : Reader ε α) size :=
  fun _ => (wp_pure a).mpr (Nat.add_le_add_left h _)

theorem pays_fail (e : ε) : Pays k (fail e : Reader ε α) size :=
  fun _ => wp_fail e

theorem Pays.mono {size'' : α → Nat} {k' : Nat} (hp : Pays k p size)
    (h : ∀ a, size'' a + k ≤ size a + k') : Pays k' p size'' := by
  intro raw
  refine (hp raw).imp fun a rest hle => ?_
  have ha := h a
  omega

/-- What the first part has paid for is credit for what follows. -/
theorem Pays.bind {f : α → Reader ε β} (hp : Pays 0 p size)
    (hf : ∀ a, Pays (k + size a) (f a) size') : Pays k (p >>= f) size' := by
  intro raw
  refine wp_bind.mpr ((hp raw).imp fun a rest hle => ?_)
  refine (hf a rest).imp fun b rest' hle' => ?_
  omega

theorem pays_take (e : ε) (n : Nat) :
    Pays k (need e n >>= fun _ => slice n) fun bs => bs.length + k := by
  intro raw
  refine wp_bind.mpr ((wp_need e n).mpr fun hn => (wp_slice hn).mpr ?_)
  simp only [List.length_take, List.length_drop]
  omega

theorem Pays.take {e : ε} {n : Nat} {f : List UInt8 → Reader ε α}
    (hf : ∀ bs, Pays (k + bs.length) (f bs) size) :
    Pays k (need e n >>= fun _ => slice n >>= f) size := by
  rw [← bind_assoc]
  exact Pays.bind (pays_take e n) hf

theorem pays_byte (e : ε) : Pays 0 (need e 1 >>= fun _ => next) fun _ => 1 := by
  intro raw
  refine wp_bind.mpr ((wp_need e 1).mpr fun hn => ?_)
  cases raw with
  | nil => exact absurd hn (by decide)
  | cons b raw => exact (wp_next b).mpr (by simp)

theorem Pays.byte {e : ε} {f : UInt8 → Reader ε α} (hf : ∀ b, Pays (k + 1) (f b) size) :
    Pays k (need e 1 >>= fun _ => next >>= f) size := by
  rw [← bind_assoc]
  exact Pays.bind (pays_byte e) hf

theorem pays_times (hp : Pays 0 p size) (n : Nat) :
    Pays 0 (times p n) fun l => (l.map size).sum := by
  induction n with
  | zero => exact pays_pure le_rfl
  | succ n ih =>
    refine hp.bind fun a => ih.bind fun l => pays_pure ?_
    rw [List.map_cons, List.sum_cons]
    omega

/-- A loop whose rounds pay for what they add to the state. -/
theorem loop_pays {σ : Type} {step : σ → Reader ε σ} (hstep : ∀ s, Consumes 1 (step s))
    {size : σ → Nat} (hpays : ∀ s, Pays (size s) (step s) size) (s : σ) (raw : List UInt8) :
    loop step hstep s raw ≠ .error .panic ∧
      ∀ s', loop step hstep s raw = .ok s' → size s' ≤ raw.length + size s := by
  induction hn : raw.length using Nat.strong_induction_on generalizing s raw with
  | _ n ih =>
    subst hn
    rw [loop]
    split
    · refine ⟨by simp, fun s' hs => ?_⟩
      obtain rfl := Except.ok.inj hs
      omega
    · obtain ⟨hpanic, hvalue⟩ := hpays s raw
      split
      · rename_i e he
        refine ⟨fun h => hpanic (he.trans ?_), by simp⟩
        rw [Except.error.inj h]
      · rename_i s' rest hr
        have hlt := hstep s raw s' rest hr
        have hle := hvalue s' rest hr
        obtain ⟨hpanic', hvalue'⟩ := ih rest.length (by omega) s' rest rfl
        refine ⟨hpanic', fun s'' hs => ?_⟩
        have hle' := hvalue' s'' hs
        omega

end pays

end Wire
