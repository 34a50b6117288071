import PixRail.Config.APIKeys

/-!
# Authorisation of a request

`Server.authRole` of `internal/api`, with the keys of `parseAPIKeys`.  The
handler runs for a tenant exactly if the token of the request is the secret
of a piece that gives the tenant the role of the endpoint
(`apiKeys_authorise`).
-/

namespace PixRail.Api

open Go Config

/-- The headers that `authRole` reads; an absent one is the empty string. -/
structure Request where
  authorization : GoString := []
  xAPIKey : GoString := []
  deriving DecidableEq

/-- The end of `authRole`: an error response, or the handler with a tenant in
its context. -/
inductive Response where
  | error (status : Nat) (code message : GoString)
  | handled (tenantID : GoString)
  deriving DecidableEq

/-- The token that a request presents. -/
def Request.token (r : Request) : GoString :=
  let token := trimPrefix r.authorization (go "Bearer ")
  if token = [] then r.xAPIKey else token

/-- `Server.authRole`. -/
def authRole (keys : GoMap GoString APIKey) (role : APIKeyRole) (r : Request) : Response :=
  match keys.lookup r.token with
  | none => .error 401 (go "unauthorized") (go "valid API key is required")
  | some key =>
    if key.hasRole role = false then
      .error 403 (go "forbidden") (go "API key is not allowed to access this endpoint")
    else .handled key.tenantID

theorem authRole_eq_handled {keys : GoMap GoString APIKey} {role : APIKeyRole} {r : Request}
    {tenant : GoString} :
    authRole keys role r = .handled tenant ↔
      ∃ key, keys.lookup r.token = some key ∧ key.hasRole role = true ∧ key.tenantID = tenant := by
  unfold authRole
  cases h : keys.lookup r.token with
  | none => simp
  | some key => cases hrole : key.hasRole role <;> simp [hrole]

/-- The roles of a parsed key are those of its piece. -/
theorem parsed_hasRole {pair : GoString} {key : APIKey} (h : parseEntry pair = .ok key)
    {roles : List APIKeyRole} (hpiece : Piece pair key.tenantID key.secret roles)
    (role : APIKeyRole) : key.hasRole role = true ↔ role ∈ roles := by
  obtain ⟨roles', hpiece', -, -, -, hroles⟩ := parseEntry_eq_ok.mp h
  obtain ⟨-, -, rfl⟩ := hpiece.unique hpiece'
  exact hasRole_roleSet hpiece.roles_ne_nil hroles role

/-- The handler runs for what a piece says. -/
theorem handled_iff {raw : GoString} {keys : GoMap GoString APIKey}
    (h : parseAPIKeys raw = .ok keys) (r : Request) (role : APIKeyRole) (tenant : GoString) :
    authRole keys role r = .handled tenant ↔
      ∃ pair ∈ pieces raw, ∃ roles, Piece pair tenant r.token roles ∧ role ∈ roles := by
  rw [authRole_eq_handled]
  constructor
  · rintro ⟨key, hlookup, hrole, rfl⟩
    obtain ⟨pair, hpair, hentry, hsecret⟩ := (lookup_parsed h).mp hlookup
    obtain ⟨roles, hpiece, -⟩ := parseEntry_eq_ok.mp hentry
    refine ⟨pair, hpair, roles, hsecret ▸ hpiece, (parsed_hasRole hentry hpiece role).mp hrole⟩
  · rintro ⟨pair, hpair, roles, hpiece, hrole⟩
    -- every piece was parsed, and as what it stands for
    obtain ⟨parsed, hparsed, -, -⟩ := parseAPIKeys_eq_ok.mp h
    obtain ⟨key, -, hentry⟩ := exists_of_forall₂ hparsed hpair
    obtain ⟨roles', hpiece', -⟩ := parseEntry_eq_ok.mp hentry
    obtain ⟨rfl, hsecret, rfl⟩ := hpiece.unique hpiece'
    exact ⟨key, (lookup_parsed h).mpr ⟨pair, hpair, hentry, hsecret.symm⟩,
      (parsed_hasRole hentry hpiece' role).mpr hrole, rfl⟩

/-- A parsed map has one clean entry for each piece, under its secret; the
handler runs for what a piece says, and never without a token; and every list
of clean entries with distinct secrets is read back from its rendering. -/
theorem apiKeys_authorise :
    (∀ (raw : GoString) (keys : GoMap GoString APIKey), parseAPIKeys raw = .ok keys →
      keys.len = (pieces raw).length ∧
      (∀ secret key, keys.lookup secret = some key →
        key.secret = secret ∧ Clean key.tenantID ∧ Clean key.secret ∧ key.roles.len ≠ 0 ∧
          ∀ role v, key.roles.lookup role = some v → v = true ∧ role ∈ knownRoles) ∧
      (∀ (r : Request) (role : APIKeyRole) (tenant : GoString),
        authRole keys role r = .handled tenant ↔
          ∃ pair ∈ pieces raw, ∃ roles, Piece pair tenant r.token roles ∧ role ∈ roles) ∧
      ∀ (r : Request) (role : APIKeyRole) (tenant : GoString), r.token = [] →
        authRole keys role r ≠ .handled tenant) ∧
    ∀ entries : List Entry, (∀ e ∈ entries, e.Valid) → (entries.map (·.secret)).Nodup →
      ∃ keys, parseAPIKeys (renderAll entries) = .ok keys ∧
        ∀ secret key, keys.lookup secret = some key ↔
          ∃ e ∈ entries, e.secret = secret ∧ key = e.apiKey := by
  constructor
  · intro raw keys h
    have hkey : ∀ secret key, keys.lookup secret = some key →
        key.secret = secret ∧ Clean key.tenantID ∧ Clean key.secret ∧ key.roles.len ≠ 0 ∧
          ∀ role v, key.roles.lookup role = some v → v = true ∧ role ∈ knownRoles := by
      intro secret key hlookup
      obtain ⟨pair, hpair, hentry, hsecret⟩ := (lookup_parsed h).mp hlookup
      obtain ⟨roles, hpiece, htenant, hne, hknown, hroles⟩ := parseEntry_eq_ok.mp hentry
      obtain ⟨hclean, hclean'⟩ := hpiece.clean (comma_notMem_pieces hpair) htenant hne
      refine ⟨hsecret, hclean, hclean', ?_, ?_⟩
      · rw [hroles]
        exact roleSet_len_ne_zero hpiece.roles_ne_nil
      · intro role v hv
        rw [hroles] at hv
        obtain ⟨hmem, htrue⟩ := lookup_roleSet.mp hv
        exact ⟨htrue, hknown role hmem⟩
    refine ⟨?_, hkey, handled_iff h, ?_⟩
    · obtain ⟨parsed, hparsed, hnodup, rfl⟩ := parseAPIKeys_eq_ok.mp h
      rw [len_keyed hnodup (fun _ _ => Finmap.lookup_empty _), hparsed.length_eq]
      exact Nat.zero_add _
    · intro r role tenant htoken hhandled
      obtain ⟨key, hlookup, -, -⟩ := authRole_eq_handled.mp hhandled
      obtain ⟨hsecret, -, hclean, -⟩ := hkey _ _ hlookup
      exact hclean.ne_nil (hsecret.trans htoken)
  · intro entries hvalid hnodup
    have hnodup' : ((entries.map Entry.apiKey).map (·.secret)).Nodup := by
      rwa [List.map_map]
    refine ⟨_, parse_renderAll hvalid hnodup, fun secret key => ?_⟩
    rw [lookup_keyed hnodup' (fun _ _ => Finmap.lookup_empty _), Finmap.lookup_empty, List.mem_map]
    constructor
    · rintro (hempty | ⟨⟨e, he, rfl⟩, hsecret⟩)
      · exact nomatch hempty
      · exact ⟨e, he, hsecret, rfl⟩
    · rintro ⟨e, he, hsecret, rfl⟩
      exact .inr ⟨⟨e, he, rfl⟩, hsecret⟩

/-- A tenant with a key of its own and a key for its workers. -/
def sampleEntries : List Entry :=
  [{ tenantID := go "tenant_a", secret := go "tenant-secret", roles := [.tenant] },
    { tenantID := go "tenant_a", secret := go "ops-secret", roles := [.worker, .provider] }]

theorem sampleEntries_valid : ∀ e ∈ sampleEntries, e.Valid := by
  refine List.forall_mem_cons.mpr ⟨?_, List.forall_mem_cons.mpr ⟨?_, by simp⟩⟩ <;>
    exact ⟨⟨by decide +kernel, by decide +kernel, by decide +kernel, by decide +kernel⟩,
      ⟨by decide +kernel, by decide +kernel, by decide +kernel, by decide +kernel⟩, by decide⟩

/-- The key for the workers of the tenant opens their endpoints. -/
theorem apiKeys_authorise_sample :
    ∃ keys, parseAPIKeys (renderAll sampleEntries) = .ok keys ∧ keys.len = 2 ∧
      authRole keys roleWorker { authorization := go "Bearer ops-secret" } =
        .handled (go "tenant_a") := by
  obtain ⟨keys, hparse, hlookup⟩ := apiKeys_authorise.2 sampleEntries sampleEntries_valid
    (by decide +kernel)
  obtain ⟨hlen, -⟩ := apiKeys_authorise.1 _ keys hparse
  refine ⟨keys, hparse, ?_, ?_⟩
  · rw [hlen, pieces_renderAll sampleEntries_valid]
    rfl
  · refine authRole_eq_handled.mpr ⟨_, (hlookup _ _).mpr
      ⟨_, List.mem_cons_of_mem _ List.mem_cons_self, by decide +kernel, rfl⟩, ?_, rfl⟩
    decide +kernel

end PixRail.Api
