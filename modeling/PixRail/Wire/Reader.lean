import Mathlib.Data.List.Basic
import Mathlib.Tactic.Ring

/-!
# Readers of byte strings

A reader takes bytes from the front of a string.  It ends with a value and
the rest of the string, with an error of its own, or with a panic: an index
or a slice that is out of range.

`Reads p bs a` says that `p` reads the value `a` off the bytes `bs` and
leaves whatever comes after them.  There is one rule for each way to build a
reader, so that a reader can be run on the output of a writer part by part.
`beBytes` and `beNat` are numbers in a fixed number of bytes, the most
significant first.
-/

namespace Wire

/-- How a reader ends without a value. -/
inductive Fault (ε : Type) where
  | error (e : ε)
  | panic
  deriving DecidableEq

/-- A reader with errors in `ε` and values in `α`. -/
abbrev Reader (ε α : Type) := StateT (List UInt8) (Except (Fault ε)) α

namespace Reader

variable {ε α β : Type}

/-- End with an error. -/
def fail (e : ε) : Reader ε α := fun _ => .error (.error e)

/-- End with a panic. -/
def crash : Reader ε α := fun _ => .error .panic

/-- End with an error unless there are `n` more bytes. -/
def need (e : ε) (n : Nat) : Reader ε Unit := fun raw =>
  if raw.length < n then .error (.error e) else .ok ((), raw)

/-- The first byte. -/
def next : Reader ε UInt8
  | [] => .error .panic
  | b :: raw => .ok (b, raw)

/-- The first `n` bytes. -/
def slice (n : Nat) : Reader ε (List UInt8) := fun raw =>
  if raw.length < n then .error .panic else .ok (raw.take n, raw.drop n)

/-- All of the input, which stays. -/
def input : Reader ε (List UInt8) := fun raw => .ok (raw, raw)

/-- Read `n` values. -/
def times (p : Reader ε α) : Nat → Reader ε (List α)
  | 0 => pure []
  | n + 1 => do
    let a ← p
    let as ← times p n
    return a :: as

end Reader

/-- `p` reads `a` off `bs`, whatever comes after. -/
def Reads {ε α : Type} (p : Reader ε α) (bs : List UInt8) (a : α) : Prop :=
  ∀ rest, p (bs ++ rest) = .ok (a, rest)

section rules

open Reader

variable {ε α β : Type} {p : Reader ε α} {f : α → Reader ε β} {bs bs' : List UInt8} {a : α} {b : β}

theorem Reads.run (h : Reads p bs a) : p bs = .ok (a, []) := by
  have h' := h []
  rwa [List.append_nil] at h'

theorem bind_run_ok {raw raw' : List UInt8} (h : p raw = .ok (a, raw')) :
    (p >>= f) raw = f a raw' := by
  show (p raw).bind (fun r => f r.1 r.2) = _
  rw [h]
  rfl

theorem bind_run_error {raw : List UInt8} {e : Fault ε} (h : p raw = .error e) :
    (p >>= f) raw = .error e := by
  show (p raw).bind (fun r => f r.1 r.2) = _
  rw [h]
  rfl

theorem reads_pure (a : α) : Reads (pure a : Reader ε α) [] a :=
  fun _ => rfl

theorem Reads.bind (hp : Reads p bs a) (hf : Reads (f a) bs' b) :
    Reads (p >>= f) (bs ++ bs') b := by
  intro rest
  rw [List.append_assoc, bind_run_ok (hp _)]
  exact hf rest

/-- What follows `p` takes no byte. -/
theorem Reads.check (hp : Reads p bs a) (hf : Reads (f a) [] b) : Reads (p >>= f) bs b := by
  have h := hp.bind hf
  rwa [List.append_nil] at h

/-- The last part of a reader takes the last bytes. -/
theorem Reads.last {g : α → β} (hp : Reads p bs a) (hb : g a = b) :
    Reads (p >>= fun x => pure (g x)) bs b := by
  refine hp.check ?_
  rw [hb]
  exact reads_pure b

theorem Reads.need {g : Unit → Reader ε β} {e : ε} {n : Nat} (hn : n ≤ bs.length)
    (hg : Reads (g ()) bs b) : Reads (Reader.need e n >>= g) bs b := by
  intro rest
  have hlen : ¬ (bs ++ rest).length < n := by
    rw [List.length_append]
    omega
  have hrun : Reader.need e n (bs ++ rest) = .ok ((), bs ++ rest) := if_neg hlen
  rw [bind_run_ok hrun]
  exact hg rest

theorem reads_next (b : UInt8) : Reads (next : Reader ε UInt8) [b] b :=
  fun _ => rfl

theorem input_run (raw : List UInt8) : (input : Reader ε _) raw = .ok (raw, raw) :=
  rfl

theorem reads_slice (bs : List UInt8) : Reads (slice bs.length : Reader ε (List UInt8)) bs bs := by
  intro rest
  have hlen : ¬ (bs ++ rest).length < bs.length := by
    rw [List.length_append]
    omega
  show (if (bs ++ rest).length < bs.length then _ else _) = _
  rw [if_neg hlen, List.take_left, List.drop_left]

theorem reads_times {enc : α → List UInt8} {l : List α} (h : ∀ a ∈ l, Reads p (enc a) a) :
    Reads (times p l.length) (l.flatMap enc) l := by
  induction l with
  | nil => exact reads_pure []
  | cons a l ih =>
    rw [List.flatMap_cons]
    refine (h a List.mem_cons_self).bind ?_
    exact (ih fun a ha => h a (List.mem_cons_of_mem _ ha)).last rfl

end rules

/-! ## What a reader can return -/

section inversion

open Reader

variable {ε : Type} {n : Nat} {raw bs rest : List UInt8}

theorem slice_eq_ok (h : (slice n : Reader ε _) raw = .ok (bs, rest)) :
    n ≤ raw.length ∧ bs = raw.take n ∧ rest = raw.drop n := by
  replace h : (if raw.length < n then (.error .panic : Except (Fault ε) _)
    else .ok (raw.take n, raw.drop n)) = .ok (bs, rest) := h
  split at h
  · exact nomatch h
  · rename_i hlen
    obtain ⟨rfl, rfl⟩ := Prod.mk.inj (Except.ok.inj h)
    exact ⟨not_lt.mp hlen, rfl, rfl⟩

theorem need_eq_ok {e : ε} (h : need e n raw = .ok ((), rest)) : rest = raw := by
  replace h : (if raw.length < n then (.error (.error e) : Except (Fault ε) (Unit × List UInt8))
    else .ok ((), raw)) = .ok ((), rest) := h
  split at h
  · exact nomatch h
  · exact (Prod.mk.inj (Except.ok.inj h)).2.symm

end inversion

/-- Every value that `p` reads satisfies `Q`. -/
def Yields {ε α : Type} (p : Reader ε α) (Q : α → Prop) : Prop :=
  ∀ raw a rest, p raw = .ok (a, rest) → Q a

section yields

open Reader

variable {ε α β : Type} {p : Reader ε α} {Q : α → Prop}

theorem yields_pure {a : α} (h : Q a) : Yields (pure a : Reader ε α) Q := by
  intro raw a' rest ha
  obtain ⟨rfl, -⟩ := Prod.mk.inj (Except.ok.inj ha)
  exact h

theorem yields_fail (e : ε) : Yields (fail e : Reader ε α) Q :=
  fun _ _ _ ha => nomatch (show Except.error _ = Except.ok _ from ha)

theorem yields_true (p : Reader ε α) : Yields p fun _ => True :=
  fun _ _ _ _ => trivial

theorem Yields.mono {Q' : α → Prop} (hp : Yields p Q) (h : ∀ a, Q a → Q' a) : Yields p Q' :=
  fun raw a rest ha => h a (hp raw a rest ha)

theorem Yields.bind {f : α → Reader ε β} {Q' : β → Prop} (hp : Yields p Q)
    (hf : ∀ a, Q a → Yields (f a) Q') : Yields (p >>= f) Q' := by
  intro raw b rest hb
  cases hr : p raw with
  | error e =>
    rw [bind_run_error hr] at hb
    exact nomatch hb
  | ok r =>
    rw [bind_run_ok hr] at hb
    exact hf r.1 (hp raw r.1 r.2 hr) r.2 b rest hb

theorem yields_slice (n : Nat) :
    Yields (slice n : Reader ε (List UInt8)) fun bs => bs.length = n := by
  intro raw bs rest h
  obtain ⟨hlen, rfl, -⟩ := slice_eq_ok h
  rw [List.length_take]
  omega

theorem yields_times (hp : Yields p Q) (n : Nat) :
    Yields (times p n) fun l => l.length = n ∧ ∀ a ∈ l, Q a := by
  induction n with
  | zero => exact yields_pure ⟨rfl, by simp⟩
  | succ n ih =>
    refine hp.bind fun a ha => ih.bind fun l hl => yields_pure ⟨?_, ?_⟩
    · rw [List.length_cons, hl.1]
    · exact List.forall_mem_cons.mpr ⟨ha, hl.2⟩

end yields

/-! ## What a reader takes, and loops -/

/-- `p` takes `n` bytes at least. -/
def Consumes {ε α : Type} (n : Nat) (p : Reader ε α) : Prop :=
  ∀ raw a rest, p raw = .ok (a, rest) → rest.length + n ≤ raw.length

section consumes

open Reader

variable {ε α β : Type} {p : Reader ε α} {n : Nat}

theorem consumes_pure (a : α) : Consumes 0 (pure a : Reader ε α) := by
  intro raw a' rest h
  obtain ⟨-, rfl⟩ := Prod.mk.inj (Except.ok.inj h)
  exact le_rfl

theorem consumes_fail (e : ε) : Consumes n (fail e : Reader ε α) :=
  fun _ _ _ h => nomatch (show Except.error _ = Except.ok _ from h)

theorem consumes_input : Consumes 0 (input : Reader ε (List UInt8)) := by
  intro raw a rest h
  obtain ⟨-, rfl⟩ := Prod.mk.inj (Except.ok.inj h)
  exact le_rfl

theorem consumes_need (e : ε) (n : Nat) : Consumes 0 (need e n) := by
  intro raw _ rest h
  obtain rfl := need_eq_ok h
  exact le_rfl

theorem consumes_slice (n : Nat) : Consumes n (slice n : Reader ε (List UInt8)) := by
  intro raw bs rest h
  obtain ⟨hlen, -, rfl⟩ := slice_eq_ok h
  rw [List.length_drop]
  omega

theorem Consumes.mono {m : Nat} (hp : Consumes n p) (h : m ≤ n) : Consumes m p := by
  intro raw a rest ha
  have hn := hp raw a rest ha
  omega

theorem Consumes.bind {f : α → Reader ε β} {m : Nat} (hp : Consumes n p)
    (hf : ∀ a, Consumes m (f a)) : Consumes (n + m) (p >>= f) := by
  intro raw b rest hb
  cases hr : p raw with
  | error e =>
    rw [bind_run_error hr] at hb
    exact nomatch hb
  | ok r =>
    rw [bind_run_ok hr] at hb
    have hn := hp raw r.1 r.2 hr
    have hm := hf r.1 r.2 b rest hb
    omega

/-- The first part takes the bytes. -/
theorem Consumes.first {f : α → Reader ε β} (hp : Consumes n p) (hf : ∀ a, Consumes 0 (f a)) :
    Consumes n (p >>= f) :=
  hp.bind hf

/-- What comes after the first part takes the bytes. -/
theorem Consumes.later {f : α → Reader ε β} (hp : Consumes 0 p) (hf : ∀ a, Consumes n (f a)) :
    Consumes n (p >>= f) :=
  (hp.bind hf).mono (by omega)

end consumes

section loop

variable {ε σ : Type}

/-- Run `step` until the input is empty. -/
def loop (step : σ → Reader ε σ) (hstep : ∀ s, Consumes 1 (step s)) (s : σ)
    (raw : List UInt8) : Except (Fault ε) σ :=
  if raw = [] then .ok s
  else
    match _ : step s raw with
    | .error e => .error e
    | .ok (s', rest) => loop step hstep s' rest
termination_by raw.length
decreasing_by
  have hlt := hstep s raw s' rest (by assumption)
  omega

/-- The loop takes the bytes and comes from the first state to the second. -/
inductive Steps (step : σ → Reader ε σ) : σ → List UInt8 → σ → Prop where
  | nil (s : σ) : Steps step s [] s
  | cons {s s' s'' : σ} {bs bs' : List UInt8} (h : Reads (step s) bs s')
    (ht : Steps step s' bs' s'') : Steps step s (bs ++ bs') s''

variable {step : σ → Reader ε σ} {hstep : ∀ s, Consumes 1 (step s)} {s s' s'' : σ} {bs bs' : List UInt8}

theorem Steps.single (h : Reads (step s) bs s') : Steps step s bs s' := by
  have h' := Steps.cons h (Steps.nil s')
  rwa [List.append_nil] at h'

theorem Steps.trans (h : Steps step s bs s') (h' : Steps step s' bs' s'') :
    Steps step s (bs ++ bs') s'' := by
  induction h with
  | nil => exact h'
  | cons hr _ ih =>
    rw [List.append_assoc]
    exact Steps.cons hr (ih h')

theorem loop_nil (s : σ) : loop step hstep s [] = .ok s := by
  rw [loop, if_pos rfl]

theorem loop_step {raw rest : List UInt8} (h : step s raw = .ok (s', rest)) :
    loop step hstep s raw = loop step hstep s' rest := by
  have hne : raw ≠ [] := by
    rintro rfl
    exact absurd (hstep s [] s' rest h) (by simp)
  rw [loop, if_neg hne]
  split
  · rename_i e he
    rw [h] at he
    exact nomatch he
  · rename_i t rest' ht
    rw [h] at ht
    obtain ⟨rfl, rfl⟩ := Prod.mk.inj (Except.ok.inj ht)
    rfl

theorem loop_steps (h : Steps step s bs s') : loop step hstep s bs = .ok s' := by
  induction h with
  | nil s => exact loop_nil s
  | cons hr _ ih => rw [loop_step (hr _), ih]

end loop

/-! ## Numbers, the most significant byte first -/

/-- The last `k` bytes of a number. -/
def beBytes : Nat → Nat → List UInt8
  | 0, _ => []
  | k + 1, n => UInt8.ofNat (n / 256 ^ k) :: beBytes k n

/-- The number that bytes stand for. -/
def beNat (bs : List UInt8) : Nat := bs.foldl (fun n b => n * 256 + b.toNat) 0

@[simp] theorem beBytes_length (k n : Nat) : (beBytes k n).length = k := by
  induction k with
  | zero => rfl
  | succ k ih => rw [beBytes, List.length_cons, ih]

theorem foldl_be (m : Nat) (bs : List UInt8) :
    bs.foldl (fun n b => n * 256 + b.toNat) m = m * 256 ^ bs.length + beNat bs := by
  induction bs generalizing m with
  | nil => simp [beNat]
  | cons b bs ih =>
    have hcons : beNat (b :: bs) = (0 * 256 + b.toNat) * 256 ^ bs.length + beNat bs := ih _
    rw [List.foldl_cons, ih, hcons, List.length_cons, pow_succ]
    ring

theorem beNat_cons (b : UInt8) (bs : List UInt8) :
    beNat (b :: bs) = b.toNat * 256 ^ bs.length + beNat bs := by
  rw [beNat, List.foldl_cons, foldl_be]
  ring

theorem beNat_beBytes (k n : Nat) : beNat (beBytes k n) = n % 256 ^ k := by
  induction k with
  | zero => simp [beBytes, beNat, Nat.mod_one]
  | succ k ih =>
    have hbyte : (UInt8.ofNat (n / 256 ^ k)).toNat = n / 256 ^ k % 256 := UInt8.toNat_ofNat
    rw [beBytes, beNat_cons, beBytes_length, ih, hbyte, Nat.mod_pow_succ]
    ring

/-- Bytes stand for a number of their width. -/
theorem beNat_lt (bs : List UInt8) : beNat bs < 256 ^ bs.length := by
  induction bs with
  | nil => simp [beNat]
  | cons b bs ih =>
    rw [beNat_cons, List.length_cons, pow_succ]
    have hb : b.toNat < 256 := b.toNat_lt
    have hmul : b.toNat * 256 ^ bs.length ≤ 255 * 256 ^ bs.length :=
      Nat.mul_le_mul_right _ (by omega)
    omega

end Wire
