import PixRail.Wire.Reader

/-!
# Readers whose bytes say where they end

A reader is delimited when the bytes it takes decide both its value and where
it stops: it reads the same value off them whatever comes after, and ends
with an error when they are cut short (`Spans`).  A chain of delimited readers
is delimited (`Delimited.bind`), and an input that such a reader takes to its
end is spanned as a whole (`Delimited.spans`).
-/

namespace Wire

/-- `p` reads `a` off `bs`, whatever comes after, and ends with an error on
every strict prefix of `bs`. -/
structure Spans {ε α : Type} (p : Reader ε α) (bs : List UInt8) (a : α) : Prop where
  reads : Reads p bs a
  cut : ∀ pre y, bs = pre ++ y → y ≠ [] → ∃ e, p pre = .error (.error e)

/-- Whatever `p` reads, it reads off bytes that it spans. -/
def Delimited {ε α : Type} (p : Reader ε α) : Prop :=
  ∀ raw a rest, p raw = .ok (a, rest) → ∃ bs, raw = bs ++ rest ∧ Spans p bs a

section delimited

open Reader

variable {ε α β : Type} {p : Reader ε α} {f : α → Reader ε β}

theorem spans_pure (a : α) : Spans (pure a : Reader ε α) [] a where
  reads := reads_pure a
  cut _ _ h hy := absurd (List.append_eq_nil_iff.mp h.symm).2 hy

theorem Spans.bind {bs bs' : List UInt8} {a : α} {b : β} (hp : Spans p bs a)
    (hf : Spans (f a) bs' b) : Spans (p >>= f) (bs ++ bs') b where
  reads := hp.reads.bind hf.reads
  cut pre y h hy := by
    obtain ⟨c, rfl, hbs'⟩ | ⟨c, hbs, rfl⟩ := List.append_eq_append_iff.mp h
    · -- the cut is in the bytes of `f a`
      obtain ⟨e, he⟩ := hf.cut c y hbs' hy
      exact ⟨e, (bind_run_ok (hp.reads c)).trans he⟩
    · by_cases hc : c = []
      · -- the cut is between the two
        subst hc
        rw [List.append_nil] at hbs
        rw [List.nil_append] at hy
        obtain ⟨e, he⟩ := hf.cut [] bs' rfl hy
        exact ⟨e, (bind_run_ok (hbs ▸ hp.reads.run)).trans he⟩
      · obtain ⟨e, he⟩ := hp.cut pre c hbs hc
        exact ⟨e, bind_run_error he⟩

theorem delimited_pure (a : α) : Delimited (pure a : Reader ε α) := by
  intro raw a' rest h
  obtain ⟨rfl, rfl⟩ := Prod.mk.inj (Except.ok.inj h)
  exact ⟨[], rfl, spans_pure a⟩

theorem delimited_fail (e : ε) : Delimited (fail e : Reader ε α) :=
  fun _ _ _ h => nomatch (show Except.error _ = Except.ok _ from h)

theorem delimited_crash : Delimited (crash : Reader ε α) :=
  fun _ _ _ h => nomatch (show Except.error _ = Except.ok _ from h)

theorem Delimited.bind (hp : Delimited p) (hf : ∀ a, Delimited (f a)) : Delimited (p >>= f) := by
  intro raw b rest hb
  cases hr : p raw with
  | error e =>
    rw [bind_run_error hr] at hb
    exact nomatch hb
  | ok r =>
    rw [bind_run_ok hr] at hb
    obtain ⟨bs, rfl, hbs⟩ := hp raw r.1 r.2 hr
    obtain ⟨bs', hmid, hbs'⟩ := hf r.1 r.2 b rest hb
    exact ⟨bs ++ bs', by rw [List.append_assoc, ← hmid], hbs.bind hbs'⟩

theorem delimited_take (e : ε) (n : Nat) : Delimited (need e n >>= fun _ => slice n) := by
  intro raw bs rest h
  by_cases hlen : raw.length < n
  · have hrun : need e n raw = .error (.error e) := if_pos hlen
    rw [bind_run_error hrun] at h
    exact nomatch h
  · have hrun : need e n raw = .ok ((), raw) := if_neg hlen
    rw [bind_run_ok hrun] at h
    obtain ⟨hle, rfl, rfl⟩ := slice_eq_ok h
    have htake : (raw.take n).length = n := List.length_take_of_le hle
    refine ⟨raw.take n, (List.take_append_drop n raw).symm, ?_, fun pre y hpre hy => ⟨e, ?_⟩⟩
    · have hslice := reads_slice (ε := ε) (raw.take n)
      rw [htake] at hslice
      exact Reads.need (by rw [htake]) hslice
    · refine bind_run_error (if_pos ?_)
      have hpos := List.length_pos_iff.mpr hy
      rw [hpre, List.length_append] at htake
      omega

theorem Delimited.take {e : ε} {n : Nat} {f : List UInt8 → Reader ε α}
    (hf : ∀ bs, Delimited (f bs)) : Delimited (need e n >>= fun _ => slice n >>= f) := by
  rw [← bind_assoc]
  exact (delimited_take e n).bind hf

/-- A byte is a slice of one. -/
theorem delimited_byte (e : ε) : Delimited (need e 1 >>= fun _ => next) := by
  intro raw b rest h
  cases raw with
  | nil => exact nomatch h
  | cons b' raw =>
    obtain ⟨rfl, rfl⟩ := Prod.mk.inj (Except.ok.inj h)
    refine ⟨[b'], rfl, Reads.need le_rfl (reads_next b'), fun pre y hpre hy => ⟨e, ?_⟩⟩
    cases pre with
    | nil => rfl
    | cons c pre =>
      obtain ⟨-, hnil⟩ := List.cons.inj hpre
      exact absurd (List.append_eq_nil_iff.mp hnil.symm).2 hy

theorem Delimited.byte {e : ε} {f : UInt8 → Reader ε α} (hf : ∀ b, Delimited (f b)) :
    Delimited (need e 1 >>= fun _ => next >>= f) := by
  rw [← bind_assoc]
  exact (delimited_byte e).bind hf

theorem delimited_times (hp : Delimited p) (n : Nat) : Delimited (times p n) := by
  induction n with
  | zero => exact delimited_pure []
  | succ n ih => exact hp.bind fun a => ih.bind fun l => delimited_pure (a :: l)

theorem Delimited.spans {raw : List UInt8} {a : α} (hp : Delimited p)
    (h : p raw = .ok (a, [])) : Spans p raw a := by
  obtain ⟨bs, hraw, hbs⟩ := hp raw a [] h
  rw [List.append_nil] at hraw
  rwa [hraw]

end delimited

end Wire
