import PixRail.Store.Memory

/-!
# The DICT resolver

`internal/dict/resolver.go`, the resolver that the repository ships.  The
entry of a key is computed from a digest of the tenant and the normalised
key, so a key has one entry for each tenant; only the time of the lookup
differs.  `strings.ToLower` maps the bytes of an ASCII text, and hands every
other text to the tables of `unicode`, which are the parameter `lower`.
-/

namespace PixRail.Dict

open Go Rail Store

/-- `strings.ToLower`. -/
def toLower (lower : GoString → GoString) (s : GoString) : GoString :=
  if s.all (· < 0x80) then s.map fun b => if 0x41 ≤ b ∧ b ≤ 0x5A then b + 0x20 else b
  else lower s

/-- The `%08d` verb of a number that is not negative. -/
def itoa8 (n : Nat) : GoString :=
  let digits := itoa n
  List.replicate (8 - digits.length) 0x30 ++ digits

structure StaticResolver where
  latency : Duration := 0
  timeoutSignal : Duration := 0

/-- How the two waits of a lookup end, for the length of the wait: with the
error of the context, or with `none` if the timer fires first. -/
structure Waits where
  latency : Duration → Ctx
  signal : Duration → Ctx

variable (H : Digest) (lower : GoString → GoString)

/-- `strings.ToLower(strings.TrimSpace(key))`. -/
def normalized (key : GoString) : GoString := toLower lower (trimSpace key)

/-- The digest behind an entry. -/
def keyHash (tenantID key : GoString) : GoString :=
  H.sum256 (tenantID ++ go ":" ++ normalized lower key)

/-- A key that the resolver never finds: one that it reports as missing, or
one that it is silent about. -/
def Unlisted (key : GoString) : Prop :=
  go "missing" <:+: normalized lower key ∨ go "timeout" <:+: normalized lower key

/-- A key of an account with a high risk. -/
def HighRisk (key : GoString) : Prop :=
  go "mule" <:+: normalized lower key ∨ go "risk" <:+: normalized lower key

instance (key : GoString) : Decidable (Unlisted lower key) :=
  inferInstanceAs (Decidable (_ ∨ _))

instance (key : GoString) : Decidable (HighRisk lower key) :=
  inferInstanceAs (Decidable (_ ∨ _))

/-- `RiskSignal` of an entry. -/
def riskSignal (tenantID key : GoString) : Int :=
  if HighRisk lower key then 92 else ((keyHash H lower tenantID key).getD 0 0).toNat % 35

/-- `AccountHash` of an entry. -/
def accountHash (tenantID key : GoString) : GoString :=
  hexEncode ((keyHash H lower tenantID key).take 12)

/-- The entry of a key. -/
def entry (tenantID key : GoString) (keyType : DictKeyType) (now : Time) : DictEntry :=
  let hash := keyHash H lower tenantID key
  { key := key
    keyType := keyType
    receiverID := go "dict_" ++ hexEncode (hash.take 6)
    name := if HighRisk lower key then go "Conta de Alto Risco" else go "Recebedor PixRail"
    bankISPB := itoa8 (10000000 + (hash.getD 1 0).toNat * 1000 + (hash.getD 2 0).toNat)
    accountHash := accountHash H lower tenantID key
    riskSignal := riskSignal H lower tenantID key
    resolvedAt := now }

/-- How long a lookup is silent about a key: 20 milliseconds by default. -/
def StaticResolver.timeout (r : StaticResolver) : Duration :=
  if r.timeoutSignal ≤ 0 then 20 * 1000000 else r.timeoutSignal

/-- `StaticResolver.Resolve` after the latency. -/
def StaticResolver.find (r : StaticResolver) (waits : Waits) (now : Time)
    (tenantID key : GoString) (keyType : DictKeyType) : Except Err DictEntry :=
  if go "missing" <:+: normalized lower key then
    .error (ErrKind.dependencyFailed.wrap (go "dict key not found"))
  else if go "timeout" <:+: normalized lower key then
    match waits.signal r.timeout with
    | some err => .error err.err
    | none => .error ErrKind.deadlineExceeded.err
  else .ok (entry H lower tenantID key keyType now)

/-- `StaticResolver.Resolve`. -/
def StaticResolver.resolve (r : StaticResolver) (waits : Waits) (now : Time)
    (tenantID key : GoString) (keyType : DictKeyType) : Except Err DictEntry :=
  if 0 < r.latency then
    match waits.latency r.latency with
    | some err => .error err.err
    | none => r.find H lower waits now tenantID key keyType
  else r.find H lower waits now tenantID key keyType

variable {H lower}

theorem StaticResolver.find_eq_ok {r : StaticResolver} {waits : Waits} {now : Time}
    {tenantID key : GoString} {keyType : DictKeyType} {e : DictEntry}
    (h : r.find H lower waits now tenantID key keyType = .ok e) :
    ¬ Unlisted lower key ∧ e = entry H lower tenantID key keyType now := by
  unfold StaticResolver.find at h
  split_ifs at h with hmissing htimeout
  · split at h <;> cases h
  · exact ⟨fun hun => hun.elim hmissing htimeout, (Except.ok.inj h).symm⟩

/-- What a lookup gives, if it gives an entry. -/
theorem StaticResolver.resolve_eq_ok {r : StaticResolver} {waits : Waits} {now : Time}
    {tenantID key : GoString} {keyType : DictKeyType} {e : DictEntry}
    (h : r.resolve H lower waits now tenantID key keyType = .ok e) :
    ¬ Unlisted lower key ∧ e = entry H lower tenantID key keyType now := by
  unfold StaticResolver.resolve at h
  split at h
  · split at h
    · cases h
    · exact find_eq_ok h
  · exact find_eq_ok h

theorem riskSignal_of_highRisk {tenantID key : GoString} (h : HighRisk lower key) :
    riskSignal H lower tenantID key = 92 :=
  if_pos h

theorem riskSignal_bound {tenantID key : GoString} (h : ¬ HighRisk lower key) :
    0 ≤ riskSignal H lower tenantID key ∧ riskSignal H lower tenantID key ≤ 34 := by
  rw [riskSignal, if_neg h]
  omega

end PixRail.Dict
