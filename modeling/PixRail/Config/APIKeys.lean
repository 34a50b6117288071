import PixRail.Go.Segments
import PixRail.Go.Values

/-!
# API keys

`parseAPIKeys` of `internal/config`.  The keys are pieces with a comma
between them.  A piece is `tenant:secret` or `tenant:secret:roles`, and the
roles have a bar between them.  Spaces around each part are dropped.

`Piece` says what a piece stands for, and `parseEntry_eq_ok` that the parser
takes the pieces that stand for something, and reads that.  The map of a list
of pieces has one key for each piece (`parseAPIKeys_eq_ok`).
-/

namespace PixRail.Config

open Go

def comma : UInt8 := 0x2C
def colon : UInt8 := 0x3A
def bar : UInt8 := 0x7C

/-- `APIKeyRole`, which is any string. -/
abbrev APIKeyRole := GoString

def roleTenant : APIKeyRole := go "tenant"
def roleWorker : APIKeyRole := go "worker"
def roleRisk : APIKeyRole := go "risk"
def roleProvider : APIKeyRole := go "provider"

/-- The four roles. -/
def knownRoles : List APIKeyRole := [roleTenant, roleWorker, roleRisk, roleProvider]

structure APIKey where
  tenantID : GoString
  secret : GoString
  roles : GoMap APIKeyRole Bool

/-- `APIKey.HasRole`. -/
def APIKey.hasRole (k : APIKey) (role : APIKeyRole) : Bool :=
  if k.roles.len = 0 then role = roleTenant else (k.roles.lookup role).getD false

/-- The errors of `parseAPIKeys`, with what they quote. -/
inductive ConfigErr where
  /-- "invalid PIXRAIL_API_KEYS entry %q, expected tenant_id:secret[:role|role]" -/
  | invalidEntry (pair : GoString)
  /-- "invalid PIXRAIL_API_KEYS role %q" -/
  | invalidRole (role : GoString)
  /-- "PIXRAIL_API_KEYS role list cannot be empty" -/
  | emptyRoles
  /-- "duplicate PIXRAIL_API_KEYS secret for tenant %q" -/
  | duplicateSecret (tenantID : GoString)
  deriving DecidableEq

/-! ## The parser -/

/-- `roleSet`. -/
def roleSet (roles : List APIKeyRole) : GoMap APIKeyRole Bool :=
  roles.foldl (fun set role => set.insert role true) ∅

/-- The cases of the `switch` of `parseRoles`. -/
def isKnown (role : APIKeyRole) : Bool :=
  role = roleTenant || role = roleWorker || role = roleRisk || role = roleProvider

theorem isKnown_iff {role : APIKeyRole} : isKnown role = true ↔ role ∈ knownRoles := by
  simp [isKnown, knownRoles, or_assoc]

/-- The loop of `parseRoles`. -/
def parseRolesLoop (roles : GoMap APIKeyRole Bool) :
    List GoString → Except ConfigErr (GoMap APIKeyRole Bool)
  | [] => .ok roles
  | role :: rest =>
    if isKnown (trimSpace role) then parseRolesLoop (roles.insert (trimSpace role) true) rest
    else .error (.invalidRole role)

/-- `parseRoles`. -/
def parseRoles (raw : GoString) : Except ConfigErr (GoMap APIKeyRole Bool) :=
  match parseRolesLoop ∅ (segments bar raw) with
  | .error err => .error err
  | .ok roles => if roles.len = 0 then .error .emptyRoles else .ok roles

/-- The body of the loop of `parseAPIKeys`, up to the test for duplicates. -/
def parseEntry (pair : GoString) : Except ConfigErr APIKey :=
  match splitN colon 3 (trimSpace pair) with
  | [tenant, secret] =>
    if trimSpace tenant = [] ∨ trimSpace secret = [] then .error (.invalidEntry pair)
    else .ok {
      tenantID := trimSpace tenant
      secret := trimSpace secret
      roles := roleSet [roleTenant] }
  | [tenant, secret, roles] =>
    if trimSpace tenant = [] ∨ trimSpace secret = [] ∨ trimSpace roles = [] then
      .error (.invalidEntry pair)
    else
      match parseRoles roles with
      | .error err => .error err
      | .ok parsedRoles => .ok {
          tenantID := trimSpace tenant
          secret := trimSpace secret
          roles := parsedRoles }
  | _ => .error (.invalidEntry pair)

/-- The loop of `parseAPIKeys`. -/
def parseLoop (keys : GoMap GoString APIKey) :
    List GoString → Except ConfigErr (GoMap GoString APIKey)
  | [] => .ok keys
  | pair :: rest =>
    match parseEntry pair with
    | .error err => .error err
    | .ok key =>
      match keys.lookup key.secret with
      | some _ => .error (.duplicateSecret key.tenantID)
      | none => parseLoop (keys.insert key.secret key) rest

/-- `parseAPIKeys`. -/
def parseAPIKeys (raw : GoString) : Except ConfigErr (GoMap GoString APIKey) :=
  if trimSpace raw = [] then .ok ∅ else parseLoop ∅ (segments comma (trimSpace raw))

/-! ## Roles -/

theorem lookup_foldl_insert {roles : List APIKeyRole} {m : GoMap APIKeyRole Bool} {r : APIKeyRole}
    {v : Bool} :
    (roles.foldl (fun set role => set.insert role true) m).lookup r = some v ↔
      (r ∈ roles ∧ v = true) ∨ (r ∉ roles ∧ m.lookup r = some v) := by
  induction roles generalizing m with
  | nil => simp
  | cons role roles ih =>
    rw [List.foldl_cons, ih, lookup_insert_eq_some, List.mem_cons]
    tauto

theorem lookup_roleSet {roles : List APIKeyRole} {r : APIKeyRole} {v : Bool} :
    (roleSet roles).lookup r = some v ↔ r ∈ roles ∧ v = true := by
  unfold roleSet
  rw [lookup_foldl_insert, Finmap.lookup_empty]
  simp

theorem roleSet_len_ne_zero {roles : List APIKeyRole} (h : roles ≠ []) :
    (roleSet roles).len ≠ 0 := by
  obtain ⟨r, hr⟩ := List.exists_mem_of_ne_nil roles h
  exact len_ne_zero (lookup_roleSet.mpr ⟨hr, rfl⟩)

/-- The roles of a key are those of its list. -/
theorem hasRole_roleSet {k : APIKey} {roles : List APIKeyRole} (hne : roles ≠ [])
    (hk : k.roles = roleSet roles) (role : APIKeyRole) : k.hasRole role = true ↔ role ∈ roles := by
  unfold APIKey.hasRole
  rw [hk, if_neg (roleSet_len_ne_zero hne)]
  cases h : (roleSet roles).lookup role with
  | none =>
    have hno : role ∉ roles := fun hmem => by
      rw [lookup_roleSet.mpr ⟨hmem, rfl⟩] at h
      exact nomatch h
    simp [hno]
  | some v =>
    obtain ⟨hmem, rfl⟩ := lookup_roleSet.mp h
    simp [hmem]

theorem parseRolesLoop_eq_ok {parts : List GoString} {m m' : GoMap APIKeyRole Bool} :
    parseRolesLoop m parts = .ok m' ↔
      (∀ p ∈ parts, trimSpace p ∈ knownRoles) ∧
        m' = (parts.map trimSpace).foldl (fun set role => set.insert role true) m := by
  induction parts generalizing m with
  | nil =>
    rw [parseRolesLoop, Except.ok.injEq]
    simp [eq_comm]
  | cons p parts ih =>
    rw [parseRolesLoop, List.forall_mem_cons, ← isKnown_iff]
    split
    · rename_i hknown
      rw [ih]
      simp [hknown]
    · rename_i hunknown
      simp [hunknown]

theorem parseRoles_eq_ok {raw : GoString} {roles : GoMap APIKeyRole Bool} :
    parseRoles raw = .ok roles ↔
      (∀ p ∈ segments bar raw, trimSpace p ∈ knownRoles) ∧
        roles = roleSet ((segments bar raw).map trimSpace) := by
  have hne : (segments bar raw).map trimSpace ≠ [] := by
    simpa using segments_ne_nil bar raw
  unfold parseRoles
  cases h : parseRolesLoop ∅ (segments bar raw) with
  | error err =>
    refine ⟨fun herr => (nomatch herr), fun ⟨hknown, _⟩ => ?_⟩
    rw [parseRolesLoop_eq_ok.mpr ⟨hknown, rfl⟩] at h
    exact nomatch h
  | ok m =>
    obtain ⟨hknown, hm⟩ := parseRolesLoop_eq_ok.mp h
    obtain rfl : m = roleSet ((segments bar raw).map trimSpace) := hm
    dsimp only
    rw [if_neg (roleSet_len_ne_zero hne), Except.ok.injEq]
    exact ⟨fun heq => ⟨hknown, heq.symm⟩, fun heq => heq.2.symm⟩

/-! ## Pieces -/

/-- A piece gives a secret of a tenant some roles. -/
inductive Piece (pair tenant secret : GoString) : List APIKeyRole → Prop where
  /-- `tenant:secret`. -/
  | plain {a b : GoString} (hpair : trimSpace pair = a ++ colon :: b) (ha : colon ∉ a)
    (hb : colon ∉ b) (htenant : trimSpace a = tenant) (hsecret : trimSpace b = secret) :
    Piece pair tenant secret [roleTenant]
  /-- `tenant:secret:role|role`. -/
  | withRoles {a b c : GoString} (hpair : trimSpace pair = a ++ colon :: (b ++ colon :: c))
    (ha : colon ∉ a) (hb : colon ∉ b) (htenant : trimSpace a = tenant)
    (hsecret : trimSpace b = secret) :
    Piece pair tenant secret ((segments bar c).map trimSpace)

theorem splitN_plain {a b : GoString} (ha : colon ∉ a) (hb : colon ∉ b) :
    splitN colon 3 (a ++ colon :: b) = [a, b] := by
  rw [splitN_append ha, splitN_of_notMem hb]

theorem splitN_withRoles {a b : GoString} (ha : colon ∉ a) (hb : colon ∉ b) (c : GoString) :
    splitN colon 3 (a ++ colon :: (b ++ colon :: c)) = [a, b, c] := by
  rw [splitN_append ha, splitN_append hb]
  rfl

/-- A piece stands for one thing. -/
theorem Piece.unique {pair tenant secret tenant' secret' : GoString} {roles roles' : List APIKeyRole}
    (h : Piece pair tenant secret roles) (h' : Piece pair tenant' secret' roles') :
    tenant = tenant' ∧ secret = secret' ∧ roles = roles' := by
  cases h with
  | plain hpair ha hb htenant hsecret =>
    have hsplit := congrArg (splitN colon 3) hpair
    rw [splitN_plain ha hb] at hsplit
    cases h' with
    | plain hpair' ha' hb' htenant' hsecret' =>
      rw [hpair', splitN_plain ha' hb'] at hsplit
      simp only [List.cons.injEq] at hsplit
      obtain ⟨rfl, rfl, -⟩ := hsplit
      exact ⟨htenant.symm.trans htenant', hsecret.symm.trans hsecret', rfl⟩
    | withRoles hpair' ha' hb' =>
      rw [hpair', splitN_withRoles ha' hb'] at hsplit
      simp at hsplit
  | withRoles hpair ha hb htenant hsecret =>
    have hsplit := congrArg (splitN colon 3) hpair
    rw [splitN_withRoles ha hb] at hsplit
    cases h' with
    | plain hpair' ha' hb' =>
      rw [hpair', splitN_plain ha' hb'] at hsplit
      simp at hsplit
    | withRoles hpair' ha' hb' htenant' hsecret' =>
      rw [hpair', splitN_withRoles ha' hb'] at hsplit
      simp only [List.cons.injEq] at hsplit
      obtain ⟨rfl, rfl, rfl, -⟩ := hsplit
      exact ⟨htenant.symm.trans htenant', hsecret.symm.trans hsecret', rfl⟩

theorem Piece.roles_ne_nil {pair tenant secret : GoString} {roles : List APIKeyRole}
    (h : Piece pair tenant secret roles) : roles ≠ [] := by
  cases h with
  | plain => exact List.cons_ne_nil _ _
  | withRoles => simpa using segments_ne_nil bar _

/-- A blank string has no bar. -/
theorem bar_notMem_of_blank {s : GoString} (h : trimSpace s = []) : bar ∉ s := by
  intro hmem
  have hplain : Plain bar := by decide
  have hkept := hplain.mem_trimSpace hmem
  rw [h] at hkept
  exact List.not_mem_nil hkept

/-- The parser takes a piece that names a tenant, a secret and known roles. -/
theorem parseEntry_eq_ok {pair : GoString} {key : APIKey} :
    parseEntry pair = .ok key ↔
      ∃ roles, Piece pair key.tenantID key.secret roles ∧ key.tenantID ≠ [] ∧ key.secret ≠ [] ∧
        (∀ r ∈ roles, r ∈ knownRoles) ∧ key.roles = roleSet roles := by
  constructor
  · intro h
    unfold parseEntry at h
    rcases notMem_or_append colon (trimSpace pair) with hno | ⟨a, rest, hpair, ha⟩
    · rw [splitN_of_notMem hno] at h
      exact nomatch h
    · rcases notMem_or_append colon rest with hb | ⟨b, c, rfl, hb⟩
      · rw [hpair, splitN_plain ha hb] at h
        dsimp only at h
        split at h
        · exact nomatch h
        · rename_i hnonempty
          obtain ⟨htenant, hsecret⟩ := not_or.mp hnonempty
          obtain rfl := Except.ok.inj h
          exact ⟨_, .plain hpair ha hb rfl rfl, htenant, hsecret, by decide, rfl⟩
      · rw [hpair, splitN_withRoles ha hb] at h
        dsimp only at h
        split at h
        · exact nomatch h
        · rename_i hnonempty
          obtain ⟨htenant, hrest⟩ := not_or.mp hnonempty
          split at h
          · exact nomatch h
          · rename_i parsed hparsed
            obtain ⟨hknown, rfl⟩ := parseRoles_eq_ok.mp hparsed
            obtain rfl := Except.ok.inj h
            refine ⟨_, .withRoles hpair ha hb rfl rfl, htenant, (not_or.mp hrest).1, ?_, rfl⟩
            exact List.forall_mem_map.mpr hknown
  · rintro ⟨roles, hpiece, htenant, hsecret, hknown, hroles⟩
    obtain ⟨tenantID, secret, keyRoles⟩ := key
    dsimp only at hpiece htenant hsecret hroles
    unfold parseEntry
    cases hpiece with
    | plain hpair ha hb ht hs =>
      rw [hpair, splitN_plain ha hb]
      dsimp only
      rw [ht, hs, if_neg (by simp [htenant, hsecret]), hroles]
    | withRoles hpair ha hb ht hs =>
      rename_i a b c
      have hparts : ∀ p ∈ segments bar c, trimSpace p ∈ knownRoles := List.forall_mem_map.mp hknown
      -- a blank list of roles is one blank role, which is not known
      have hnonempty : trimSpace c ≠ [] := by
        intro hblank
        rw [segments_of_notMem (bar_notMem_of_blank hblank)] at hparts
        have hmem := hparts c List.mem_cons_self
        rw [hblank] at hmem
        exact absurd hmem (by decide)
      rw [hpair, splitN_withRoles ha hb]
      dsimp only
      rw [ht, hs, if_neg (by simp [htenant, hsecret, hnonempty]),
        parseRoles_eq_ok.mpr ⟨hparts, rfl⟩, hroles]

/-! ## The map -/

/-- The keys under their secrets. -/
def keyed (m : GoMap GoString APIKey) (keys : List APIKey) : GoMap GoString APIKey :=
  keys.foldl (fun m key => m.insert key.secret key) m

/-- The other keys are new when the first one is in. -/
theorem new_after_insert {m : GoMap GoString APIKey} {k : APIKey} {keys : List APIKey}
    (hk : k.secret ∉ keys.map (·.secret)) (hnew : ∀ key ∈ keys, m.lookup key.secret = none) :
    ∀ key ∈ keys, (m.insert k.secret k).lookup key.secret = none := by
  intro key hkey
  refine lookup_insert_eq_none.mpr ⟨fun heq => ?_, hnew key hkey⟩
  exact hk (heq ▸ List.mem_map_of_mem hkey)

theorem parseLoop_eq_ok {pairs : List GoString} {m m' : GoMap GoString APIKey} :
    parseLoop m pairs = .ok m' ↔
      ∃ keys, List.Forall₂ (fun pair key => parseEntry pair = .ok key) pairs keys ∧
        (keys.map (·.secret)).Nodup ∧ (∀ key ∈ keys, m.lookup key.secret = none) ∧
        m' = keyed m keys := by
  induction pairs generalizing m with
  | nil =>
    rw [parseLoop, Except.ok.injEq]
    constructor
    · rintro rfl
      exact ⟨[], .nil, by simp, by simp, rfl⟩
    · rintro ⟨keys, hkeys, -, -, rfl⟩
      cases hkeys
      rfl
  | cons pair pairs ih =>
    rw [parseLoop]
    cases hentry : parseEntry pair with
    | error err =>
      refine ⟨fun herr => (nomatch herr), ?_⟩
      rintro ⟨keys, hkeys, -⟩
      cases hkeys with
      | cons hkey _ =>
        rw [hentry] at hkey
        exact nomatch hkey
    | ok key =>
      dsimp only
      cases hold : m.lookup key.secret with
      | some old =>
        refine ⟨fun herr => (nomatch herr), ?_⟩
        rintro ⟨keys, hkeys, -, hnew, -⟩
        cases hkeys with
        | cons hkey _ =>
          rw [hentry] at hkey
          obtain rfl := Except.ok.inj hkey
          rw [hnew key List.mem_cons_self] at hold
          exact nomatch hold
      | none =>
        dsimp only
        rw [ih]
        constructor
        · rintro ⟨keys, hkeys, hnodup, hnew, rfl⟩
          have hother : ∀ k ∈ keys, k.secret ≠ key.secret ∧ m.lookup k.secret = none :=
            fun k hk => lookup_insert_eq_none.mp (hnew k hk)
          refine ⟨key :: keys, .cons hentry hkeys, ?_, ?_, rfl⟩
          · rw [List.map_cons, List.nodup_cons]
            refine ⟨fun hmem => ?_, hnodup⟩
            obtain ⟨k, hk, hsecret⟩ := List.mem_map.mp hmem
            exact (hother k hk).1 hsecret
          · exact List.forall_mem_cons.mpr ⟨hold, fun k hk => (hother k hk).2⟩
        · rintro ⟨keys, hkeys, hnodup, hnew, rfl⟩
          cases hkeys with
          | cons hkey hrest =>
            rename_i k ks
            rw [hentry] at hkey
            obtain rfl := Except.ok.inj hkey
            rw [List.map_cons, List.nodup_cons] at hnodup
            have hks := (List.forall_mem_cons.mp hnew).2
            exact ⟨ks, hrest, hnodup.2, new_after_insert hnodup.1 hks, rfl⟩

theorem lookup_keyed {keys : List APIKey} {m : GoMap GoString APIKey}
    (hnodup : (keys.map (·.secret)).Nodup) (hnew : ∀ key ∈ keys, m.lookup key.secret = none)
    {secret : GoString} {key : APIKey} :
    (keyed m keys).lookup secret = some key ↔
      m.lookup secret = some key ∨ key ∈ keys ∧ key.secret = secret := by
  induction keys generalizing m with
  | nil => simp [keyed]
  | cons k keys ih =>
    rw [List.map_cons, List.nodup_cons] at hnodup
    obtain ⟨hk, hkeys⟩ := List.forall_mem_cons.mp hnew
    have hnew' := new_after_insert hnodup.1 hkeys
    show (keyed (m.insert k.secret k) keys).lookup secret = some key ↔ _
    rw [ih hnodup.2 hnew', lookup_insert_eq_some, List.mem_cons]
    constructor
    · rintro ((⟨rfl, rfl⟩ | ⟨-, hold⟩) | ⟨hmem, hsecret⟩)
      · exact .inr ⟨.inl rfl, rfl⟩
      · exact .inl hold
      · exact .inr ⟨.inr hmem, hsecret⟩
    · rintro (hold | ⟨rfl | hmem, hsecret⟩)
      · refine .inl (.inr ⟨fun heq => ?_, hold⟩)
        rw [heq, hk] at hold
        exact nomatch hold
      · exact .inl (.inl ⟨hsecret.symm, rfl⟩)
      · exact .inr ⟨hmem, hsecret⟩

theorem len_keyed {keys : List APIKey} {m : GoMap GoString APIKey}
    (hnodup : (keys.map (·.secret)).Nodup) (hnew : ∀ key ∈ keys, m.lookup key.secret = none) :
    (keyed m keys).len = m.len + keys.length := by
  induction keys generalizing m with
  | nil => rfl
  | cons k keys ih =>
    rw [List.map_cons, List.nodup_cons] at hnodup
    obtain ⟨hk, hkeys⟩ := List.forall_mem_cons.mp hnew
    have hnew' := new_after_insert hnodup.1 hkeys
    show (keyed (m.insert k.secret k) keys).len = _
    rw [ih hnodup.2 hnew', len_insert hk, List.length_cons]
    omega

/-- The pieces of the string, none if it is blank. -/
def pieces (raw : GoString) : List GoString :=
  if trimSpace raw = [] then [] else segments comma (trimSpace raw)

theorem parseAPIKeys_eq (raw : GoString) : parseAPIKeys raw = parseLoop ∅ (pieces raw) := by
  unfold parseAPIKeys pieces
  split <;> rfl

/-- The map has one key for each piece. -/
theorem parseAPIKeys_eq_ok {raw : GoString} {m : GoMap GoString APIKey} :
    parseAPIKeys raw = .ok m ↔
      ∃ keys, List.Forall₂ (fun pair key => parseEntry pair = .ok key) (pieces raw) keys ∧
        (keys.map (·.secret)).Nodup ∧ m = keyed ∅ keys := by
  rw [parseAPIKeys_eq, parseLoop_eq_ok]
  simp only [Finmap.lookup_empty, implies_true, true_and]

/-! ## What is in the map -/

/-- A tenant or a secret as a piece can name it. -/
structure Clean (s : GoString) : Prop where
  ne_nil : s ≠ []
  trimmed : Trimmed s
  comma : comma ∉ s
  colon : colon ∉ s

theorem clean_trimSpace {s : GoString} (hne : trimSpace s ≠ []) (hcomma : comma ∉ s)
    (hcolon : colon ∉ s) : Clean (trimSpace s) :=
  ⟨hne, trimSpace_trimmed s, notMem_trimSpace hcomma, notMem_trimSpace hcolon⟩

theorem Piece.clean {pair tenant secret : GoString} {roles : List APIKeyRole}
    (h : Piece pair tenant secret roles) (hcomma : comma ∉ pair) (htenant : tenant ≠ [])
    (hsecret : secret ≠ []) : Clean tenant ∧ Clean secret := by
  have htrim : comma ∉ trimSpace pair := notMem_trimSpace hcomma
  cases h with
  | plain hpair ha hb ht hs =>
    subst ht hs
    rw [hpair, List.mem_append, List.mem_cons, not_or, not_or] at htrim
    exact ⟨clean_trimSpace htenant htrim.1 ha, clean_trimSpace hsecret htrim.2.2 hb⟩
  | withRoles hpair ha hb ht hs =>
    subst ht hs
    rw [hpair, List.mem_append, List.mem_cons, List.mem_append, not_or, not_or, not_or] at htrim
    exact ⟨clean_trimSpace htenant htrim.1 ha, clean_trimSpace hsecret htrim.2.2.1 hb⟩

theorem comma_notMem_pieces {raw pair : GoString} (h : pair ∈ pieces raw) : comma ∉ pair := by
  unfold pieces at h
  split at h
  · exact absurd h List.not_mem_nil
  · exact notMem_of_mem_segments h

theorem exists_of_forall₂ {α β : Type} {R : α → β → Prop} {l : List α} {l' : List β}
    (h : List.Forall₂ R l l') {a : α} (ha : a ∈ l) : ∃ b ∈ l', R a b := by
  induction h with
  | nil => exact absurd ha List.not_mem_nil
  | cons hab _ ih =>
    rcases List.mem_cons.mp ha with rfl | hmem
    · exact ⟨_, List.mem_cons_self, hab⟩
    · obtain ⟨b, hb, hr⟩ := ih hmem
      exact ⟨b, List.mem_cons_of_mem _ hb, hr⟩

/-- A key of the map is what one of the pieces stands for. -/
theorem lookup_parsed {raw : GoString} {m : GoMap GoString APIKey}
    (h : parseAPIKeys raw = .ok m) {secret : GoString} {key : APIKey} :
    m.lookup secret = some key ↔
      ∃ pair ∈ pieces raw, parseEntry pair = .ok key ∧ key.secret = secret := by
  obtain ⟨keys, hkeys, hnodup, rfl⟩ := parseAPIKeys_eq_ok.mp h
  rw [lookup_keyed hnodup (fun _ _ => Finmap.lookup_empty _), Finmap.lookup_empty]
  constructor
  · rintro (hempty | ⟨hmem, hsecret⟩)
    · exact nomatch hempty
    · obtain ⟨pair, hpair, hentry⟩ := exists_of_forall₂ hkeys.flip hmem
      exact ⟨pair, hpair, hentry, hsecret⟩
  · rintro ⟨pair, hpair, hentry, hsecret⟩
    obtain ⟨key', hkey', hentry'⟩ := exists_of_forall₂ hkeys hpair
    rw [hentry] at hentry'
    obtain rfl := Except.ok.inj hentry'
    exact .inr ⟨hkey', hsecret⟩

/-! ## Rendering -/

/-- The known roles. -/
inductive Role where
  | tenant
  | worker
  | risk
  | provider
  deriving DecidableEq

def Role.name : Role → APIKeyRole
  | .tenant => roleTenant
  | .worker => roleWorker
  | .risk => roleRisk
  | .provider => roleProvider

structure Entry where
  tenantID : GoString
  secret : GoString
  roles : List Role
  deriving DecidableEq

/-- The key of an entry. -/
def Entry.apiKey (e : Entry) : APIKey where
  tenantID := e.tenantID
  secret := e.secret
  roles := roleSet (e.roles.map Role.name)

/-- `tenant:secret:role|role`. -/
def Entry.render (e : Entry) : GoString :=
  e.tenantID ++ colon :: (e.secret ++ colon :: join (e.roles.map Role.name) [bar])

/-- The entries with commas between them. -/
def renderAll (entries : List Entry) : GoString := join (entries.map Entry.render) [comma]

/-- An entry that a piece can name. -/
structure Entry.Valid (e : Entry) : Prop where
  tenantID : Clean e.tenantID
  secret : Clean e.secret
  roles : e.roles ≠ []

section render

variable {e : Entry}

theorem name_known (r : Role) : r.name ∈ knownRoles := by
  cases r <;> decide

theorem name_clean (r : Role) : Clean r.name ∧ bar ∉ r.name := by
  cases r <;> exact ⟨⟨by decide, by decide, by decide, by decide⟩, by decide⟩

theorem names_clean : ∀ p ∈ e.roles.map Role.name, Clean p ∧ bar ∉ p :=
  List.forall_mem_map.mpr fun r _ => name_clean r

theorem Entry.Valid.trimmed_render (h : e.Valid) : Trimmed e.render :=
  h.tenantID.trimmed.append (by decide) (h.secret.trimmed.append (by decide)
    (Trimmed.join (by decide) fun p hp => (names_clean p hp).1.trimmed))

theorem Entry.Valid.comma_notMem (h : e.Valid) : Config.comma ∉ e.render := by
  have hroles : Config.comma ∉ join (e.roles.map Role.name) [bar] :=
    notMem_join (by decide) fun p hp => (names_clean p hp).1.comma
  have hcolon : Config.comma ≠ Config.colon := by decide
  simp [Entry.render, h.tenantID.comma, h.secret.comma, hroles, hcolon]

/-- An entry is what its rendering stands for. -/
theorem Entry.Valid.piece (h : e.Valid) :
    Piece e.render e.tenantID e.secret (e.roles.map Role.name) := by
  have hsegments : segments bar (join (e.roles.map Role.name) [bar]) = e.roles.map Role.name :=
    segments_join_of_notMem (by simpa using h.roles) fun p hp => (names_clean p hp).2
  have htrim : (e.roles.map Role.name).map trimSpace = e.roles.map Role.name :=
    List.map_congr_left (g := id) (fun p hp => trimSpace_eq_self (names_clean p hp).1.trimmed)
      |>.trans (List.map_id _)
  have hpiece : Piece e.render e.tenantID e.secret _ :=
    .withRoles (trimSpace_eq_self h.trimmed_render) h.tenantID.colon h.secret.colon
      (trimSpace_eq_self h.tenantID.trimmed) (trimSpace_eq_self h.secret.trimmed)
  rwa [hsegments, htrim] at hpiece

theorem Entry.Valid.parse (h : e.Valid) : parseEntry e.render = .ok e.apiKey :=
  parseEntry_eq_ok.mpr ⟨_, h.piece, h.tenantID.ne_nil, h.secret.ne_nil,
    List.forall_mem_map.mpr fun r _ => name_known r, rfl⟩

end render

/-- The pieces of the rendering are the entries. -/
theorem pieces_renderAll {entries : List Entry} (h : ∀ e ∈ entries, e.Valid) :
    pieces (renderAll entries) = entries.map Entry.render := by
  cases entries with
  | nil => rfl
  | cons e entries =>
    have hne : (e :: entries).map Entry.render ≠ [] := by simp
    have hsegments : segments comma (renderAll (e :: entries)) = (e :: entries).map Entry.render :=
      segments_join_of_notMem hne
        (List.forall_mem_map.mpr fun e he => (h e he).comma_notMem)
    have htrim : trimSpace (renderAll (e :: entries)) = renderAll (e :: entries) :=
      trimSpace_eq_self (Trimmed.join (by decide)
        (List.forall_mem_map.mpr fun e he => (h e he).trimmed_render))
    have hnil : renderAll (e :: entries) ≠ [] := by
      intro hnil
      rw [hnil] at hsegments
      have hempty : e.render = [] := (List.cons.inj hsegments).1.symm
      exact absurd hempty (by simp [Entry.render])
    unfold pieces
    rw [htrim, if_neg hnil, hsegments]

/-- The rendering of entries with distinct secrets is read back. -/
theorem parse_renderAll {entries : List Entry} (h : ∀ e ∈ entries, e.Valid)
    (hnodup : (entries.map (·.secret)).Nodup) :
    parseAPIKeys (renderAll entries) = .ok (keyed ∅ (entries.map Entry.apiKey)) := by
  refine parseAPIKeys_eq_ok.mpr ⟨_, ?_, ?_, rfl⟩
  · rw [pieces_renderAll h, List.forall₂_map_left_iff, List.forall₂_map_right_iff,
      List.forall₂_same]
    exact fun e he => (h e he).parse
  · rwa [List.map_map]

end PixRail.Config
