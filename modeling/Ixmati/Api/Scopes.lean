import Ixmati.Api.Read
import Ixmati.Lib.Collect
import Ixmati.Lib.Text

/-!
# Scopes of the API keys

The server reads its keys from `IXMATI_API_KEYS`, separated by `,`, and the stores of each from
`IXMATI_API_KEY_SCOPES`, whose entries `key=store|store` are separated by `;`.  A key without an entry
has access to every store, and so has one whose list of stores is empty, which is what an entry with
nothing but blanks on its right gives.

* `parseApiKeyScopes_get` : of several entries of one key the last one stays;
* `failsClosed_iff` : no key gets more than its entries list exactly if the last entry of each key lists
  a store, or some entry of it lists `*`.
-/

namespace Ixmati

namespace Scopes

/-! ### The two formats -/

/-- A key of the server; the time of its creation is left out. -/
structure ApiKey where
  keyId : String
  storeAccess : List String
  deriving DecidableEq

/-- `AuthIdentity::from`. -/
def ApiKey.identity (k : ApiKey) : AuthIdentity := ⟨k.keyId, k.storeAccess⟩

/-- The texts `key=stores` between the semicolons, split at the first `=`; others are left out. -/
def splitEntries (raw : String) : List (List Char × List Char) :=
  (raw.toList.splitOn ';').filterMap (splitOnce '=')

/-- The stores on the right of an entry. -/
def parseStores (stores : List Char) : List String :=
  (((stores.splitOn '|').map trim).filter fun store => !store.isEmpty).map String.ofList

/-- `parse_api_key_scopes`. -/
def parseApiKeyScopes (raw : String) : Dict String (List String) :=
  Dict.ofPairs (((splitEntries raw).map fun p => (String.ofList (trim p.1), parseStores p.2)).filter
    fun p => p.1 ≠ "")

/-- The names of the keys. -/
def keyNames (raw : String) : List String :=
  ((raw.toList.splitOn ',').filter fun key => !(trim key).isEmpty).map fun key =>
    String.ofList (trim key)

/-- The keys that `run` gives to `AuthConfig::new`. -/
def apiKeys (keys scopes : String) : List ApiKey :=
  (keyNames keys).map fun key => ⟨key, ((parseApiKeyScopes scopes).get key).getD []⟩

/-! ### What the entries say -/

/-- The right sides of the entries of a key, in their order. -/
def entriesOf (scopes key : String) : List (List Char) :=
  ((splitEntries scopes).filter fun p => String.ofList (trim p.1) = key).map Prod.snd

/-- One of the entries of the key lists the store. -/
def Listed (scopes key store : String) : Prop :=
  ∃ stores ∈ entriesOf scopes key, store.toList ∈ (stores.splitOn '|').map trim

instance (scopes key store : String) : Decidable (Listed scopes key store) :=
  inferInstanceAs (Decidable (∃ stores ∈ entriesOf scopes key, _ ∈ _))

/-- A key with an entry is allowed what its entries list, and one without is allowed every store. -/
def FailsClosed (keys scopes : String) : Prop :=
  ∀ k ∈ apiKeys keys scopes,
    (entriesOf scopes k.keyId ≠ [] →
      (∀ store, k.identity.allowsStore store = true →
        Listed scopes k.keyId store ∨ Listed scopes k.keyId "*") ∧
      (k.identity.allowsUnscopedProjection = true → Listed scopes k.keyId "*")) ∧
    (entriesOf scopes k.keyId = [] → ∀ store, k.identity.allowsStore store = true)

/-! ### What the server makes of them -/

variable {keys scopes key : String}

theorem ne_empty_of_mem_keyNames (h : key ∈ keyNames keys) : key ≠ "" := by
  obtain ⟨raw, hraw, rfl⟩ := List.mem_map.1 h
  have hne : trim raw ≠ [] := by simpa using (List.mem_filter.1 hraw).2
  intro hempty
  exact hne (String.ofList_inj.1 hempty)

/-- Of the entries of a key the last one stays. -/
theorem parseApiKeyScopes_get (hkey : key ≠ "") :
    (parseApiKeyScopes scopes).get key = (entriesOf scopes key).getLast?.map parseStores := by
  have hfilter : ∀ p : List Char × List Char,
      (decide (String.ofList (trim p.1) = key) && decide (String.ofList (trim p.1) ≠ "")) =
        decide (String.ofList (trim p.1) = key) := by
    intro p
    by_cases hp : String.ofList (trim p.1) = key
    · simp [hp, hkey]
    · simp [hp]
  rw [parseApiKeyScopes, Dict.get_ofPairs, List.filter_filter, List.filter_map, List.map_map,
    entriesOf, ← List.getLast?_map, List.map_map]
  congr 2
  exact List.filter_congr fun p _ => hfilter p

theorem mem_parseStores {stores : List Char} {store : String} (h : store ∈ parseStores stores) :
    store.toList ∈ (stores.splitOn '|').map trim := by
  obtain ⟨cs, hcs, rfl⟩ := List.mem_map.1 h
  rw [String.toList_ofList]
  exact (List.mem_filter.1 hcs).1

theorem parseStores_eq_nil {stores : List Char} :
    parseStores stores = [] ↔ ∀ piece ∈ stores.splitOn '|', trim piece = [] := by
  simp [parseStores, List.filter_eq_nil_iff]

/-- The access of a key whose last entry is the given one. -/
theorem mem_apiKeys {k : ApiKey} (h : k ∈ apiKeys keys scopes) :
    k.keyId ∈ keyNames keys ∧
      k.storeAccess = ((entriesOf scopes k.keyId).getLast?.map parseStores).getD [] := by
  obtain ⟨key, hkey, rfl⟩ := List.mem_map.1 h
  exact ⟨hkey, by rw [parseApiKeyScopes_get (ne_empty_of_mem_keyNames hkey)]⟩

/-- What a key is allowed whose list of stores is not empty is in the list. -/
theorem allowed_of_ne_nil {i : AuthIdentity} (hne : i.storeAccess ≠ []) :
    (∀ store, i.allowsStore store = true → store ∈ i.storeAccess ∨ "*" ∈ i.storeAccess) ∧
      (i.allowsUnscopedProjection = true → "*" ∈ i.storeAccess) := by
  by_cases hstar : "*" ∈ i.storeAccess
  · exact ⟨fun _ _ => Or.inr hstar, fun _ => hstar⟩
  · have hscoped : i.Scoped := ⟨hne, hstar⟩
    refine ⟨fun store h => Or.inl ((hscoped.allowsStore store).1 h), fun h => ?_⟩
    rw [AuthIdentity.allowsUnscopedProjection_eq_false.2 hscoped] at h
    cases h

/-- A key whose last entry lists nothing has access to everything. -/
theorem global_of_blank {k : ApiKey} (hk : k ∈ apiKeys keys scopes) {stores : List Char}
    (hlast : (entriesOf scopes k.keyId).getLast? = some stores)
    (hblank : ∀ piece ∈ stores.splitOn '|', trim piece = []) :
    k.identity.allowsUnscopedProjection = true := by
  have haccess := (mem_apiKeys hk).2
  rw [hlast, Option.map_some, Option.getD_some, parseStores_eq_nil.2 hblank] at haccess
  rw [AuthIdentity.allowsUnscopedProjection, ApiKey.identity, haccess]
  rfl

/-- A key whose last entry lists a store is allowed what that entry lists. -/
theorem listed_of_last {k : ApiKey} (hk : k ∈ apiKeys keys scopes) {stores : List Char}
    (hlast : (entriesOf scopes k.keyId).getLast? = some stores)
    (hsome : ∃ piece ∈ stores.splitOn '|', trim piece ≠ []) :
    (∀ store, k.identity.allowsStore store = true →
      Listed scopes k.keyId store ∨ Listed scopes k.keyId "*") ∧
    (k.identity.allowsUnscopedProjection = true → Listed scopes k.keyId "*") := by
  have haccess := (mem_apiKeys hk).2
  rw [hlast, Option.map_some, Option.getD_some] at haccess
  have hlisted : ∀ store ∈ k.identity.storeAccess, Listed scopes k.keyId store := by
    intro store hstore
    refine ⟨stores, List.mem_of_getLast? hlast, mem_parseStores ?_⟩
    rw [← haccess]
    exact hstore
  have hne : k.identity.storeAccess ≠ [] := by
    intro hnil
    obtain ⟨piece, hpiece, htrim⟩ := hsome
    exact htrim (parseStores_eq_nil.1 (haccess.symm.trans hnil) piece hpiece)
  have hallowed := allowed_of_ne_nil hne
  refine ⟨fun store hstore => ?_, fun hall => hlisted _ (hallowed.2 hall)⟩
  exact (hallowed.1 store hstore).imp (hlisted store) (hlisted "*")

/-- A key without an entry has access to every store. -/
theorem global_of_no_entry {k : ApiKey} (hk : k ∈ apiKeys keys scopes)
    (hnone : entriesOf scopes k.keyId = []) (store : String) : k.identity.allowsStore store = true := by
  have haccess := (mem_apiKeys hk).2
  rw [hnone] at haccess
  rw [AuthIdentity.allowsStore, ApiKey.identity, haccess]
  rfl

/-- No key is allowed more than its entries list exactly if the last entry of each key that has one
lists a store, or some entry of it lists `*`. -/
theorem failsClosed_iff (keys scopes : String) :
    FailsClosed keys scopes ↔
      ∀ key ∈ keyNames keys, ∀ stores, (entriesOf scopes key).getLast? = some stores →
        (∃ piece ∈ stores.splitOn '|', trim piece ≠ []) ∨ Listed scopes key "*" := by
  constructor
  · intro h key hkey stores hlast
    by_contra hblank
    push Not at hblank
    have hmem : (⟨key, ((parseApiKeyScopes scopes).get key).getD []⟩ : ApiKey) ∈ apiKeys keys scopes :=
      List.mem_map_of_mem hkey
    have hentries : entriesOf scopes key ≠ [] := by
      intro hnil
      rw [hnil] at hlast
      cases hlast
    -- an empty list of stores is read as access to all of them
    exact hblank.2 (((h _ hmem).1 hentries).2 (global_of_blank hmem hlast hblank.1))
  · intro h k hk
    refine ⟨fun hentries => ?_, global_of_no_entry hk⟩
    obtain ⟨stores, hlast⟩ := Option.isSome_iff_exists.1 (List.getLast?_isSome.2 hentries)
    rcases h k.keyId (mem_apiKeys hk).1 stores hlast with hsome | hstar
    · exact listed_of_last hk hlast hsome
    · exact ⟨fun _ _ => Or.inr hstar, fun _ => hstar⟩

/-- An entry with nothing on its right gives its key every store. -/
theorem blank_scope_is_global :
    ¬ FailsClosed "orders-key,audit-key" "orders-key=orders|users;audit-key=" := by
  intro h
  have hkey : (⟨"audit-key", []⟩ : ApiKey) ∈
      apiKeys "orders-key,audit-key" "orders-key=orders|users;audit-key=" := by decide +kernel
  have hentries : entriesOf "orders-key=orders|users;audit-key=" "audit-key" ≠ [] := by
    decide +kernel
  have hlisted := ((h _ hkey).1 hentries).2 rfl
  exact absurd hlisted (by decide +kernel)

end Scopes

end Ixmati
