import Ixmati.Core.Envelope

/-!
# Reads

`read_handler` of `rest.rs` and the two ways to it: `GET`/`POST /read`, which check the identity in
`authorize_read`, and `ReadService.read` of `grpc.rs`, which has a check of its own.  A request in
protobuf has plain strings, where the empty one means that the field is absent; the query of a
`GET` has optional strings, and a parameter can be present and empty.

The two checks differ on a request that names a store *and* a projection.  `read_handler` then
reads the projection and ignores the store, but the gRPC check looks at the projection only when no
store is named:

* `SameBoundary` : what REST and gRPC should agree on;
* `sameBoundary_iff` : they do exactly when a scoped identity does not name one of its stores
  together with a projection.
-/

namespace Ixmati

/-! ### Identities -/

/-- The principal of a request. -/
structure AuthIdentity where
  keyId : String
  storeAccess : List String

namespace AuthIdentity

/-- May the identity use the store? -/
def allowsStore (i : AuthIdentity) (store : String) : Bool :=
  i.storeAccess.isEmpty || i.storeAccess.any fun allowed => allowed == "*" || allowed == store

/-- May the identity read projections across stores? -/
def allowsUnscopedProjection (i : AuthIdentity) : Bool :=
  i.storeAccess.isEmpty || i.storeAccess.any fun allowed => allowed == "*"

/-- The identity is confined to a list of stores. -/
def Scoped (i : AuthIdentity) : Prop := i.storeAccess ≠ [] ∧ "*" ∉ i.storeAccess

instance (i : AuthIdentity) : Decidable i.Scoped := inferInstanceAs (Decidable (_ ∧ _))

variable {i : AuthIdentity}

theorem allowsUnscopedProjection_eq_false : i.allowsUnscopedProjection = false ↔ i.Scoped := by
  have hne : i.storeAccess.isEmpty = false ↔ i.storeAccess ≠ [] := by simp
  simp only [allowsUnscopedProjection, Scoped, Bool.or_eq_false_iff, hne, List.any_eq_false,
    beq_iff_eq]
  refine and_congr_right fun _ => ⟨fun h hmem => h _ hmem rfl, fun h x hx hstar => h (hstar ▸ hx)⟩

theorem Scoped.allowsStore (h : i.Scoped) (store : String) :
    i.allowsStore store = true ↔ store ∈ i.storeAccess := by
  have hne : i.storeAccess.isEmpty = false := by simpa using h.1
  simp only [AuthIdentity.allowsStore, hne, Bool.false_or, List.any_eq_true, Bool.or_eq_true,
    beq_iff_eq]
  constructor
  · rintro ⟨x, hx, rfl | rfl⟩
    · exact absurd hx h.2
    · exact hx
  · intro hmem
    exact ⟨store, hmem, Or.inr rfl⟩

theorem allowsStore_of_not_scoped (h : ¬ i.Scoped) (store : String) :
    i.allowsStore store = true := by
  unfold Scoped at h
  by_cases hne : i.storeAccess = []
  · simp [AuthIdentity.allowsStore, hne]
  · have hstar : "*" ∈ i.storeAccess := by
      by_contra hstar
      exact h ⟨hne, hstar⟩
    simp only [AuthIdentity.allowsStore, Bool.or_eq_true, List.any_eq_true]
    exact Or.inr ⟨"*", hstar, by simp⟩

end AuthIdentity

/-! ### Requests -/

/-- The query of `GET /read`. -/
structure ReadQuery where
  store : Option String
  entity : Option String
  key : Option String
  projection : Option String
  deriving DecidableEq

/-- `pb::ReadRequest`. -/
structure ReadRequest where
  store : String
  entity : String
  key : String
  projection : String
  deriving DecidableEq

/-- `(!s.is_empty()).then_some(s)`. -/
def nonEmpty (s : String) : Option String := if s = "" then none else some s

/-- The query that `POST /read` and gRPC make of a protobuf request. -/
def ReadRequest.toQuery (r : ReadRequest) : ReadQuery where
  store := nonEmpty r.store
  entity := nonEmpty r.entity
  key := nonEmpty r.key
  projection := nonEmpty r.projection

/-- The protobuf request with the values of a query. -/
def ReadQuery.toRequest (q : ReadQuery) : ReadRequest where
  store := q.store.getD ""
  entity := q.entity.getD ""
  key := q.key.getD ""
  projection := q.projection.getD ""

theorem nonEmpty_getD (s : String) : (nonEmpty s).getD "" = s := by
  unfold nonEmpty
  split_ifs with h
  · exact h.symm
  · rfl

theorem ReadRequest.toQuery_toRequest (r : ReadRequest) : r.toQuery.toRequest = r := by
  simp [ReadRequest.toQuery, ReadQuery.toRequest, nonEmpty_getD]

/-! ### `read_handler` -/

/-- The errors of `ixmati-core` that a read or a write can give. -/
inductive CoreError where
  | storeNotFound (store : String)
  | writeRejected (detail store idempotencyKey : String)
  | permissionDenied (store detail : String)
  | queueFull (store : String)
  | outboxBacklog (store : String) (depth threshold : Int64)
  | internal (detail : String)
  deriving DecidableEq

/-- Where a document was read from. -/
inductive Source where
  | cache
  | sqlite
  deriving DecidableEq

/-- The `source` of a response. -/
def Source.name : Source → String
  | .cache => "cache"
  | .sqlite => "sqlite"

/-- The answers of `read_handler`. -/
inductive ReadResult where
  | projectionFound (projection key : String) (payload : Json)
  | projectionNotFound (projection key : String)
  | found (store entity key : String) (source : Source) (payload : Json)
  | notFound (store entity key : String)

/-- The body of the response, in the key order of `serde_json`. -/
def ReadResult.toJson : ReadResult → Json
  | .projectionFound projection key payload =>
    .object [("found", .bool true), ("key", .string key), ("payload", payload),
      ("projection", .string projection)]
  | .projectionNotFound projection key =>
    .object [("found", .bool false), ("key", .string key),
      ("message", .string "projection not found"), ("projection", .string projection)]
  | .found store entity key source payload =>
    .object [("entity", .string entity), ("found", .bool true), ("key", .string key),
      ("payload", payload), ("source", .string source.name), ("store", .string store)]
  | .notFound store entity key =>
    .object [("entity", .string entity), ("found", .bool false), ("key", .string key),
      ("message", .string "not found"), ("store", .string store)]

/-- What `read_handler` looks up. -/
inductive ReadTarget where
  | projection (projection key : String)
  | entity (store entity key : String)
  deriving DecidableEq

/-- The first part of `read_handler`: a projection goes before a store. -/
def readTarget (params : ReadQuery) : Except CoreError ReadTarget :=
  match params.projection with
  | some projection => .ok (.projection projection (params.key.getD ""))
  | none =>
    match params.store with
    | some store => .ok (.entity store (params.entity.getD "") (params.key.getD ""))
    | none => .error (.storeNotFound "")

/-- What a read finds outside of the process. -/
structure ReadEnv where
  /-- The cache, as the configured mode reads it. -/
  cached : ReadTarget → Option Bytes
  /-- The payload row of an entity: `none` if no database is configured for the store. -/
  select : String → String → String → Option (Except String (Option Bytes))

/-- A cache hit: bytes that are a document. -/
def cacheHit (D : Deps) (cached : Option Bytes) : Option Json := cached.bind D.fromSlice

/-- The answer from a payload row. -/
def fromRow (D : Deps) (store entity key : String) : Option Bytes → ReadResult
  | some bytes => .found store entity key .sqlite ((D.fromSlice bytes).getD .null)
  | none => .notFound store entity key

/-- `read_handler`, with the status of an error. -/
def readHandler (D : Deps) (env : ReadEnv) (params : ReadQuery) :
    Except (ℕ × CoreError) ReadResult :=
  match readTarget params with
  | .error e => .error (400, e)
  | .ok (.projection projection key) =>
    match cacheHit D (env.cached (.projection projection key)) with
    | some value => .ok (.projectionFound projection key value)
    | none => .ok (.projectionNotFound projection key)
  | .ok (.entity store entity key) =>
    match cacheHit D (env.cached (.entity store entity key)) with
    | some value => .ok (.found store entity key .cache value)
    | none =>
      match env.select store entity key with
      | none => .error (503, .internal "no database configured for reads")
      | some (.error detail) => .error (500, .internal detail)
      | some (.ok row) => .ok (fromRow D store entity key row)

/-! ### The two checks -/

/-- `store_is_authorized`. -/
def storeIsAuthorized (identity : Option AuthIdentity) (store : String) : Bool :=
  (identity.map (·.allowsStore store)).getD true

/-- The identity may not read projections across stores. -/
def deniesProjection (identity : Option AuthIdentity) : Bool :=
  (identity.map fun i => !i.allowsUnscopedProjection).getD false

/-- `forbidden_store_response`. -/
def forbiddenStore (store : String) : CoreError :=
  .permissionDenied store ("API key is not authorized for store " ++ store)

/-- `authorize_read` of REST: two checks, one after the other. -/
def authorizeRead (identity : Option AuthIdentity) (params : ReadQuery) : Option CoreError :=
  match params.store.filter fun store => !storeIsAuthorized identity store with
  | some store => some (forbiddenStore store)
  | none =>
    if params.projection.isSome && deniesProjection identity then
      some (forbiddenStore "<projection>")
    else none

/-- `GET /read` and `POST /read`, up to the encoding of the response. -/
def restRead (D : Deps) (env : ReadEnv) (identity : Option AuthIdentity) (params : ReadQuery) :
    Except (ℕ × CoreError) ReadResult :=
  match authorizeRead identity params with
  | some e => .error (403, e)
  | none => readHandler D env params

/-- The check of `ReadService.read`: the message of `PERMISSION_DENIED`, if any. -/
def grpcAuthorizeRead (identity : Option AuthIdentity) (request : ReadRequest) : Option String :=
  if request.store ≠ "" then
    if storeIsAuthorized identity request.store then none
    else some ("API key is not authorized for store " ++ request.store)
  else if request.projection ≠ "" && deniesProjection identity then
    some "scoped API keys cannot read an unscoped projection"
  else none

/-- `ReadService.read`, up to the encoding of the response: a denial, or what the handler does. -/
def grpcRead (D : Deps) (env : ReadEnv) (identity : Option AuthIdentity) (request : ReadRequest) :
    Except String (Except (ℕ × CoreError) ReadResult) :=
  match grpcAuthorizeRead identity request with
  | some message => .error message
  | none => .ok (readHandler D env request.toQuery)

/-! ### One boundary -/

/-- The query names a projection. -/
def ReadQuery.NamesProjection (q : ReadQuery) : Prop := ∃ p, q.projection = some p ∧ p ≠ ""

/-- The query names a store and no projection. -/
def ReadQuery.NamesOnlyStore (q : ReadQuery) (store : String) : Prop :=
  q.store = some store ∧ store ≠ "" ∧ (q.projection = none ∨ q.projection = some "")

/-- REST on a query and gRPC on the same request enforce the same boundary. -/
structure SameBoundary (identity : Option AuthIdentity) (q : ReadQuery) (r : ReadRequest) :
    Prop where
  /-- A request for a projection is allowed by both or denied by both. -/
  agree : q.NamesProjection → (authorizeRead identity q = none ↔ grpcAuthorizeRead identity r = none)
  /-- A scoped identity gets no projection from either. -/
  confined : q.NamesProjection → ∀ i, identity = some i → i.Scoped →
    ∀ D env projection key payload,
      restRead D env identity q ≠ .ok (.projectionFound projection key payload) ∧
      grpcRead D env identity r ≠ .ok (.ok (.projectionFound projection key payload))
  /-- A request for a store is allowed by both exactly when the store is. -/
  store_only : ∀ store, q.NamesOnlyStore store →
    (authorizeRead identity q = none ↔ storeIsAuthorized identity store = true) ∧
    (grpcAuthorizeRead identity r = none ↔ storeIsAuthorized identity store = true)

/-- A scoped identity names one of its stores together with a projection. -/
def ProjectionThroughStore (identity : Option AuthIdentity) (q : ReadQuery) : Prop :=
  ∃ i store, identity = some i ∧ i.Scoped ∧ q.store = some store ∧ store ≠ "" ∧
    store ∈ i.storeAccess ∧ q.projection ≠ none

variable {identity : Option AuthIdentity} {q : ReadQuery} {r : ReadRequest}

theorem authorizeRead_eq_none :
    authorizeRead identity q = none ↔
      (∀ store, q.store = some store → storeIsAuthorized identity store = true) ∧
        (q.projection = none ∨ deniesProjection identity = false) := by
  unfold authorizeRead
  cases hs : q.store with
  | none => cases q.projection <;> simp
  | some store =>
    cases hauth : storeIsAuthorized identity store with
    | true => cases q.projection <;> simp [Option.filter, hauth]
    | false => simp [Option.filter, hauth]

theorem grpcAuthorizeRead_eq_none :
    grpcAuthorizeRead identity r = none ↔
      (r.store ≠ "" ∧ storeIsAuthorized identity r.store = true) ∨
        (r.store = "" ∧ (r.projection = "" ∨ deniesProjection identity = false)) := by
  unfold grpcAuthorizeRead
  by_cases hs : r.store = ""
  · by_cases hp : r.projection = ""
    · simp [hs, hp]
    · cases deniesProjection identity <;> simp [hs, hp]
  · cases storeIsAuthorized identity r.store <;> simp [hs]

/-- Whoever is not scoped is allowed everything. -/
theorem allows_of_not_scoped (h : ∀ i, identity = some i → ¬ i.Scoped) :
    deniesProjection identity = false ∧ ∀ store, storeIsAuthorized identity store = true := by
  cases identity with
  | none => exact ⟨rfl, fun _ => rfl⟩
  | some i =>
    have hns := h i rfl
    have hproj : i.allowsUnscopedProjection = true := by
      by_contra hfalse
      exact hns (AuthIdentity.allowsUnscopedProjection_eq_false.1 (by simpa using hfalse))
    exact ⟨by simp [deniesProjection, hproj], fun store => by
      simp [storeIsAuthorized, AuthIdentity.allowsStore_of_not_scoped hns]⟩

theorem deniesProjection_of_scoped {i : AuthIdentity} (h : i.Scoped) :
    deniesProjection (some i) = true := by
  simp [deniesProjection, AuthIdentity.allowsUnscopedProjection_eq_false.2 h]

theorem storeIsAuthorized_of_scoped {i : AuthIdentity} (h : i.Scoped) (store : String) :
    storeIsAuthorized (some i) store = true ↔ store ∈ i.storeAccess := by
  simp [storeIsAuthorized, h.allowsStore]

/-- Whoever is not scoped is allowed the same by both, and a denied request gets nothing. -/
theorem sameBoundary_of_not_scoped (h : ∀ i, identity = some i → ¬ i.Scoped) (q : ReadQuery)
    (r : ReadRequest) : SameBoundary identity q r := by
  obtain ⟨hproj, hstore⟩ := allows_of_not_scoped h
  have hrest : authorizeRead identity q = none :=
    authorizeRead_eq_none.2 ⟨fun store _ => hstore store, Or.inr hproj⟩
  have hgrpc : grpcAuthorizeRead identity r = none := by
    rw [grpcAuthorizeRead_eq_none]
    by_cases hs : r.store = ""
    · exact Or.inr ⟨hs, Or.inr hproj⟩
    · exact Or.inl ⟨hs, hstore _⟩
  refine ⟨fun _ => by simp [hrest, hgrpc], fun _ i hi hsc => absurd hsc (h i hi), fun store _ => ?_⟩
  simp [hrest, hgrpc, hstore]

/-- A request that both deny gets nothing from either. -/
theorem confined_of_denied (hrest : authorizeRead identity q ≠ none)
    (hgrpc : grpcAuthorizeRead identity r ≠ none) (D : Deps) (env : ReadEnv)
    (projection key : String) (payload : Json) :
    restRead D env identity q ≠ .ok (.projectionFound projection key payload) ∧
      grpcRead D env identity r ≠ .ok (.ok (.projectionFound projection key payload)) := by
  obtain ⟨e, he⟩ := Option.ne_none_iff_exists'.1 hrest
  obtain ⟨m, hm⟩ := Option.ne_none_iff_exists'.1 hgrpc
  simp [restRead, grpcRead, he, hm]

theorem sameBoundary_of_scoped {i : AuthIdentity} (hsc : i.Scoped)
    (h : ¬ ProjectionThroughStore (some i) q) : SameBoundary (some i) q q.toRequest := by
  have hdeny := deniesProjection_of_scoped hsc
  -- a projection is denied by REST always, and by gRPC for want of one of its stores
  have hproj : q.NamesProjection →
      authorizeRead (some i) q ≠ none ∧ grpcAuthorizeRead (some i) q.toRequest ≠ none := by
    rintro ⟨p, hp, hpne⟩
    constructor
    · rw [Ne, authorizeRead_eq_none]
      rintro ⟨-, hnone | hfalse⟩
      · simp [hp] at hnone
      · simp [hdeny] at hfalse
    · rw [Ne, grpcAuthorizeRead_eq_none]
      rintro (⟨hs, hauth⟩ | ⟨-, hempty | hfalse⟩)
      · cases hstore : q.store with
        | none => simp [ReadQuery.toRequest, hstore] at hs
        | some store =>
          simp only [ReadQuery.toRequest, hstore, Option.getD_some] at hs hauth
          exact h ⟨i, store, rfl, hsc, hstore, hs,
            (storeIsAuthorized_of_scoped hsc store).1 hauth, by simp [hp]⟩
      · simp [ReadQuery.toRequest, hp, hpne] at hempty
      · simp [hdeny] at hfalse
  refine ⟨fun hq => ?_, fun hq j hj hsc' => ?_, fun store hq => ?_⟩
  · obtain ⟨hrest, hgrpc⟩ := hproj hq
    simp [hrest, hgrpc]
  · obtain ⟨hrest, hgrpc⟩ := hproj hq
    exact confined_of_denied hrest hgrpc
  · obtain ⟨hstore, hne, hq⟩ := hq
    rw [authorizeRead_eq_none, grpcAuthorizeRead_eq_none]
    have hreq : q.toRequest.store = store := by simp [ReadQuery.toRequest, hstore]
    constructor
    · constructor
      · intro hrest
        exact hrest.1 store hstore
      · intro hauth
        refine ⟨fun st hst => ?_, ?_⟩
        · rw [hstore, Option.some.injEq] at hst
          exact hst ▸ hauth
        · by_contra hboth
          push Not at hboth
          exact h ⟨i, store, rfl, hsc, hstore, hne,
            (storeIsAuthorized_of_scoped hsc store).1 hauth, hboth.1⟩
    · simp [hreq, hne]

/-- A scoped identity that names one of its stores together with a projection is let through by
gRPC and stopped by REST. -/
theorem not_sameBoundary_of_projectionThroughStore (h : ProjectionThroughStore identity q) :
    ¬ SameBoundary identity q q.toRequest := by
  obtain ⟨i, store, rfl, hsc, hstore, hne, hmem, hproj⟩ := h
  obtain ⟨p, hp⟩ := Option.ne_none_iff_exists'.1 hproj
  have hauth := (storeIsAuthorized_of_scoped hsc store).2 hmem
  have hgrpc : grpcAuthorizeRead (some i) q.toRequest = none := by
    rw [grpcAuthorizeRead_eq_none]
    left
    simp [ReadQuery.toRequest, hstore, hne, hauth]
  have hrest : authorizeRead (some i) q ≠ none := by
    rw [Ne, authorizeRead_eq_none]
    rintro ⟨-, hnone | hfalse⟩
    · exact hproj hnone
    · simp [deniesProjection_of_scoped hsc] at hfalse
  intro hsame
  by_cases hpe : p = ""
  · have := (hsame.store_only store ⟨hstore, hne, Or.inr (by rw [hp, hpe])⟩).1.2 hauth
    exact hrest this
  · exact hrest ((hsame.agree ⟨p, hp, hpe⟩).2 hgrpc)

theorem sameBoundary_toRequest_iff (identity : Option AuthIdentity) (q : ReadQuery) :
    SameBoundary identity q q.toRequest ↔ ¬ ProjectionThroughStore identity q := by
  refine ⟨fun hsame h => not_sameBoundary_of_projectionThroughStore h hsame, fun h => ?_⟩
  by_cases hsc : ∃ i, identity = some i ∧ i.Scoped
  · obtain ⟨i, rfl, hsc⟩ := hsc
    exact sameBoundary_of_scoped hsc h
  · exact sameBoundary_of_not_scoped (fun i hi his => hsc ⟨i, hi, his⟩) _ _

/-- **REST and gRPC enforce the same read boundary except through a store.**  For every identity
and every request, as the query of a `GET` or as a protobuf message: the two paths decide alike,
keep projections from scoped identities and follow `allows_store` if and only if the request is
not one of a scoped identity that names one of its stores and gives a projection. -/
theorem sameBoundary_iff (identity : Option AuthIdentity) (q : ReadQuery) (r : ReadRequest) :
    (SameBoundary identity q q.toRequest ↔ ¬ ProjectionThroughStore identity q) ∧
    (SameBoundary identity r.toQuery r ↔ ¬ ProjectionThroughStore identity r.toQuery) := by
  refine ⟨sameBoundary_toRequest_iff identity q, ?_⟩
  have h := sameBoundary_toRequest_iff identity r.toQuery
  rwa [r.toQuery_toRequest] at h

/-- A key for `orders` reads a projection of several stores through gRPC by naming `orders`. -/
theorem orders_key_reads_projection :
    ¬ SameBoundary (some ⟨"orders-key", ["orders"]⟩)
      (ReadRequest.toQuery ⟨"orders", "", "u-1", "orders_with_user"⟩)
      ⟨"orders", "", "u-1", "orders_with_user"⟩ := by
  intro hsame
  have hagree := hsame.agree ⟨"orders_with_user", rfl, by decide⟩
  exact absurd (hagree.2 (by decide)) (by decide)

end Ixmati
