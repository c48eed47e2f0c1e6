import Ixmati.Api.Scopes

/-!
# Who calls

Both doors of the API ask for a key: REST in the header `Authorization`, bare or after `Bearer ` or
`ApiKey `, gRPC in the metadata `x-api-key`.  The keys are those of `Scopes`, and a call goes on with the
identity of its key.

* `requireAuth_eq_ok`, `grpcAuth_eq_ok` : who is let in, and as whom;
* `presents_bearer`, `presents_apiKey`, `presents_bare` : the key in a header, a bare one only if it does
  not begin like the other two spellings;
* `requireAuth_eq_grpcAuth` : a header is taken like its key over gRPC;
* `admitted_iff` : with the keys of the server, the identity is a listed name with its own scopes.
-/

namespace Ixmati

namespace Authentication

open Scopes

/-- `AuthConfig`. -/
structure AuthConfig where
  enabled : Bool
  validKeys : List ApiKey

/-- `AuthConfig::new`. -/
def AuthConfig.new (keys : List ApiKey) : AuthConfig := ⟨true, keys⟩

/-- `AuthConfig::disabled`. -/
def AuthConfig.disabled : AuthConfig := ⟨false, []⟩

/-- `AuthCredentials`. -/
inductive AuthCredentials where
  | bearerToken (token : String)
  | apiKey (key : String)

/-- `AuthCredentials::from_header`. -/
def AuthCredentials.fromHeader : Option String → Option AuthCredentials
  | none => none
  | some header =>
    match stripPrefix "Bearer " header.toList with
    | some token => some (.bearerToken (String.ofList token))
    | none =>
      match stripPrefix "ApiKey " header.toList with
      | some key => some (.apiKey (String.ofList key))
      | none => some (.apiKey header)

/-- The key or token. -/
def AuthCredentials.secret : AuthCredentials → String
  | .bearerToken token => token
  | .apiKey key => key

/-- `validate_api_key`. -/
def validateApiKey (key : String) (validKeys : List ApiKey) : Option ApiKey :=
  validKeys.find? fun k => decide (k.keyId = key)

/-- `require_auth` up to the call of the handler: the identity that it gets, or the detail of the error
`401`.  A header that is not visible ASCII counts as none. -/
def requireAuth (config : AuthConfig) (authorization : Option String) :
    Except String (Option AuthIdentity) :=
  if config.enabled = false then .ok none
  else
    match AuthCredentials.fromHeader authorization with
    | some (.apiKey key) =>
      match validateApiKey key config.validKeys with
      | some apiKey => .ok (some apiKey.identity)
      | none => .error "invalid API key"
    | some (.bearerToken token) =>
      match validateApiKey token config.validKeys with
      | some apiKey => .ok (some apiKey.identity)
      | none => .error "invalid session token"
    | none => .error "Authorization header required"

/-- `auth` of gRPC: the identity, or the message of `UNAUTHENTICATED`. -/
def grpcAuth (config : AuthConfig) (xApiKey : Option String) : Except String (Option AuthIdentity) :=
  if config.enabled = false then .ok none
  else
    match xApiKey with
    | none => .error "x-api-key metadata is required"
    | some key =>
      match validateApiKey key config.validKeys with
      | some apiKey => .ok (some apiKey.identity)
      | none => .error "invalid API key"

variable {config : AuthConfig} {authorization xApiKey : Option String} {key : String}
  {identity : Option AuthIdentity}

/-! ### Who is let in -/

theorem requireAuth_eq_ok :
    requireAuth config authorization = .ok identity ↔
      (config.enabled = false ∧ identity = none) ∨
      (config.enabled = true ∧ ∃ credentials k, AuthCredentials.fromHeader authorization = some credentials ∧
        validateApiKey credentials.secret config.validKeys = some k ∧ identity = some k.identity) := by
  unfold requireAuth
  split_ifs with henabled
  · simp [henabled, eq_comm]
  · rw [Bool.not_eq_false] at henabled
    simp only [henabled, Bool.true_eq_false, false_and, true_and, false_or]
    split
    · rename_i key hcred
      cases hkey : validateApiKey key config.validKeys <;>
        simp [hcred, AuthCredentials.secret, hkey, eq_comm]
    · rename_i token hcred
      cases hkey : validateApiKey token config.validKeys <;>
        simp [hcred, AuthCredentials.secret, hkey, eq_comm]
    · rename_i hcred
      simp [hcred]

theorem grpcAuth_eq_ok :
    grpcAuth config xApiKey = .ok identity ↔
      (config.enabled = false ∧ identity = none) ∨
      (config.enabled = true ∧ ∃ key k, xApiKey = some key ∧
        validateApiKey key config.validKeys = some k ∧ identity = some k.identity) := by
  unfold grpcAuth
  split_ifs with henabled
  · simp [henabled, eq_comm]
  · rw [Bool.not_eq_false] at henabled
    simp only [henabled, Bool.true_eq_false, false_and, true_and, false_or]
    cases xApiKey with
    | none => simp
    | some key => cases hkey : validateApiKey key config.validKeys <;> simp [hkey, eq_comm]

/-- No call gets in without a key, unless authentication is switched off. -/
theorem identity_ne_none (henabled : config.enabled = true)
    (h : requireAuth config authorization = .ok identity ∨ grpcAuth config xApiKey = .ok identity) :
    identity ≠ none := by
  rw [requireAuth_eq_ok, grpcAuth_eq_ok] at h
  rcases h with (⟨hoff, -⟩ | ⟨-, _, _, -, -, rfl⟩) | ⟨hoff, -⟩ | ⟨-, _, _, -, -, rfl⟩
  · rw [henabled] at hoff
    cases hoff
  · exact Option.some_ne_none _
  · rw [henabled] at hoff
    cases hoff
  · exact Option.some_ne_none _

/-! ### The spellings of a header -/

/-- The header carries the key. -/
def Presents (authorization : Option String) (key : String) : Prop :=
  ∃ credentials, AuthCredentials.fromHeader authorization = some credentials ∧ credentials.secret = key

theorem presents_bearer (key : String) : Presents (some ("Bearer " ++ key)) key := by
  refine ⟨.bearerToken key, ?_, rfl⟩
  simp only [AuthCredentials.fromHeader, String.toList_append, stripPrefix_append,
    String.ofList_toList]

theorem presents_apiKey (key : String) : Presents (some ("ApiKey " ++ key)) key := by
  have hbearer : stripPrefix "Bearer " ("ApiKey " ++ key).toList = none := by
    simp [stripPrefix, String.toList_append]
  refine ⟨.apiKey key, ?_, rfl⟩
  rw [AuthCredentials.fromHeader, hbearer]
  simp only [String.toList_append, stripPrefix_append, String.ofList_toList]

theorem presents_bare (hbearer : stripPrefix "Bearer " key.toList = none)
    (hapiKey : stripPrefix "ApiKey " key.toList = none) : Presents (some key) key :=
  ⟨.apiKey key, by rw [AuthCredentials.fromHeader, hbearer, hapiKey], rfl⟩

theorem Presents.unique {key' : String} (h : Presents authorization key)
    (h' : Presents authorization key') : key = key' := by
  obtain ⟨c, hc, rfl⟩ := h
  obtain ⟨c', hc', rfl⟩ := h'
  rw [hc, Option.some.injEq] at hc'
  rw [hc']

/-- A header lets in whom its key lets in over gRPC. -/
theorem requireAuth_eq_grpcAuth (h : Presents authorization key) :
    requireAuth config authorization = .ok identity ↔ grpcAuth config (some key) = .ok identity := by
  rw [requireAuth_eq_ok, grpcAuth_eq_ok]
  refine or_congr_right (and_congr_right fun _ => ?_)
  constructor
  · rintro ⟨c, k, hc, hk, rfl⟩
    exact ⟨key, k, rfl, h.unique ⟨c, hc, rfl⟩ ▸ hk, rfl⟩
  · rintro ⟨_, k, hkey, hk, rfl⟩
    cases hkey
    obtain ⟨c, hc, hsecret⟩ := h
    exact ⟨c, k, hc, hsecret ▸ hk, rfl⟩

/-! ### The keys of the server -/

section Server

variable {keys scopes : String} {i : AuthIdentity}

theorem find?_map_keyId (names : List String) (access : String → List String) (key : String) :
    validateApiKey key (names.map fun name => ⟨name, access name⟩) =
      if key ∈ names then some ⟨key, access key⟩ else none := by
  induction names with
  | nil => rfl
  | cons name names ih =>
    unfold validateApiKey at ih ⊢
    rw [List.map_cons, List.find?_cons]
    by_cases hname : name = key
    · simp [hname]
    · simp [hname, ih, Ne.symm hname]

/-- The identity that the server gives to a key. -/
def identityOf (scopes key : String) : AuthIdentity :=
  ⟨key, ((parseApiKeyScopes scopes).get key).getD []⟩

theorem validateApiKey_apiKeys :
    (validateApiKey key (apiKeys keys scopes)).map ApiKey.identity =
      if key ∈ keyNames keys then some (identityOf scopes key) else none := by
  rw [apiKeys, find?_map_keyId]
  split_ifs <;> rfl

theorem exists_validated_iff :
    (∃ k, validateApiKey key (apiKeys keys scopes) = some k ∧ some i = some k.identity) ↔
      key ∈ keyNames keys ∧ i = identityOf scopes key := by
  have hmap : (validateApiKey key (apiKeys keys scopes)).map ApiKey.identity = some i ↔
      key ∈ keyNames keys ∧ i = identityOf scopes key := by
    rw [validateApiKey_apiKeys]
    split_ifs with hkey <;> simp [hkey, eq_comm]
  rw [← hmap, Option.map_eq_some_iff]
  simp only [Option.some.injEq, eq_comm]

/-- **Who is let in by the server**: the keys that it lists and nobody else, over REST and over gRPC, each
as itself and with the stores of its own entry. -/
theorem admitted_iff :
    (requireAuth (.new (apiKeys keys scopes)) authorization = .ok (some i) ↔
      ∃ key ∈ keyNames keys, Presents authorization key ∧ i = identityOf scopes key) ∧
    (grpcAuth (.new (apiKeys keys scopes)) xApiKey = .ok (some i) ↔
      ∃ key ∈ keyNames keys, xApiKey = some key ∧ i = identityOf scopes key) := by
  constructor
  · rw [requireAuth_eq_ok]
    constructor
    · rintro (⟨-, hnone⟩ | ⟨-, c, k, hc, hk⟩)
      · cases hnone
      · obtain ⟨hmem, hi⟩ := exists_validated_iff.1 ⟨k, hk⟩
        exact ⟨c.secret, hmem, ⟨c, hc, rfl⟩, hi⟩
    · rintro ⟨key, hmem, ⟨c, hc, rfl⟩, hi⟩
      obtain ⟨k, hk⟩ := exists_validated_iff.2 ⟨hmem, hi⟩
      exact Or.inr ⟨rfl, c, k, hc, hk⟩
  · rw [grpcAuth_eq_ok]
    constructor
    · rintro (⟨-, hnone⟩ | ⟨-, key, k, hkey, hk⟩)
      · cases hnone
      · obtain ⟨hmem, hi⟩ := exists_validated_iff.1 ⟨k, hk⟩
        exact ⟨key, hmem, hkey, hi⟩
    · rintro ⟨key, hmem, hkey, hi⟩
      obtain ⟨k, hk⟩ := exists_validated_iff.2 ⟨hmem, hi⟩
      exact Or.inr ⟨rfl, key, k, hkey, hk⟩

end Server

end Authentication

end Ixmati
