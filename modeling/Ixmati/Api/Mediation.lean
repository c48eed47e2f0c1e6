import Ixmati.Api.Endpoints

/-!
# Every access is the caller's

What a handler asks concerns a store, or the projections of all stores.  Whatever the server is sent
and whatever it is answered, it asks nothing without a valid key, and with one only what its key may
see (`MayAsk`).  A gRPC read that names a store gets at projections through it, also with a key that is
confined to stores.

* `follows_serve` : each endpoint keeps to `mediating`;
* `mediated` : the same along all runs, with what the others are answered.
-/

namespace Ixmati

open Ixmati.System
open Authentication Scopes

namespace Api

variable {V : Server} {identity : Option AuthIdentity} {through : Bool} {store key : String}

/-! ### What a question is about -/

/-- The store that a question is about. -/
def Ask.store? : Ask → Option String
  | .backlog store => some store
  | .allow store => some store
  | .publish cmd => some cmd.store
  | .status _ store _ => some store
  | .cached (.entity store _ _) => some store
  | .select _ store _ _ => some store
  | .fill store _ _ _ => some store
  | .cursor _ store _ => some store
  | .uuid => none
  | .deadline => none
  | .cached (.projection _ _) => none

/-- The question is about projections. -/
def Ask.IsProjection (q : Ask) : Prop := ∃ projection key, q = .cached (.projection projection key)

/-- An identity may have this asked for it; `through` tells that its request names a store that stands for
the projections too. -/
structure MayAsk (identity : Option AuthIdentity) (through : Bool) (q : Ask) : Prop where
  store : ∀ store, q.store? = some store → storeIsAuthorized identity store = true
  projection : q.IsProjection → deniesProjection identity = false ∨ through = true

/-- A handler asks what its caller may see. -/
def mediating (identity : Option AuthIdentity) (through : Bool) : Protocol Answer Unit where
  allowed _ q := MayAsk identity through q
  next _ _ _ := ()

/-- The handler keeps to it. -/
def Mediates {α : Type} (identity : Option AuthIdentity) (through : Bool) (p : Handler α) : Prop :=
  p.Follows (mediating identity through) (fun _ _ => True) ()

theorem mediates_ret {α : Type} (a : α) : Mediates identity through (.ret a : Handler α) := trivial

theorem Mediates.map {α β : Type} {p : Handler α} (h : Mediates identity through p) (f : α → β) :
    Mediates identity through (f <$> p) :=
  Prog.Follows.map h fun _ _ _ => trivial

/-- The question is about what is stored, and changes nothing but the cache. -/
def Ask.IsLookup : Ask → Prop
  | .status .. => True
  | .cached _ => True
  | .select .. => True
  | .fill .. => True
  | .cursor .. => True
  | .backlog _ => False
  | .allow _ => False
  | .uuid => False
  | .publish _ => False
  | .deadline => False

/-- A handler only looks up what its caller may see. -/
def looking (identity : Option AuthIdentity) (through : Bool) : Protocol Answer Unit where
  allowed _ q := MayAsk identity through q ∧ q.IsLookup
  next _ _ _ := ()

/-- The handler keeps to it. -/
def Looks {α : Type} (identity : Option AuthIdentity) (through : Bool) (p : Handler α) : Prop :=
  p.Follows (looking identity through) (fun _ _ => True) ()

theorem looks_ret {α : Type} (a : α) : Looks identity through (.ret a : Handler α) := trivial

theorem looks_ask {α : Type} {q : Ask} {next : Answer q → Handler α} (hlookup : q.IsLookup)
    (hq : MayAsk identity through q) (h : ∀ answer, Looks identity through (next answer)) :
    Looks identity through (.ask q next) := ⟨⟨hq, hlookup⟩, h⟩

theorem Looks.map {α β : Type} {p : Handler α} (h : Looks identity through p) (f : α → β) :
    Looks identity through (f <$> p) :=
  Prog.Follows.map h fun _ _ _ => trivial

theorem Looks.mediates {α : Type} {p : Handler α} (h : Looks identity through p) :
    Mediates identity through p :=
  Prog.Follows.simulate (P := looking identity through) (R := fun _ _ => True)
    (fun _ _ _ _ hq => hq.1) (fun _ _ _ _ _ _ => trivial) (fun _ _ _ _ _ => trivial) trivial h

/-- A question about an authorized store. -/
theorem mayAsk_of_store {q : Ask} (hq : q.store? = some store)
    (h : storeIsAuthorized identity store = true) : MayAsk identity through q where
  store s hs := by
    rw [hq, Option.some.injEq] at hs
    rw [← hs, h]
  projection := by
    rintro ⟨_, _, rfl⟩
    cases hq

/-- A question about no store. -/
theorem mayAsk_of_none {q : Ask} (hq : q.store? = none)
    (h : q.IsProjection → deniesProjection identity = false ∨ through = true) :
    MayAsk identity through q where
  store s hs := by
    rw [hq] at hs
    cases hs
  projection := h

/-! ### The handlers -/

theorem mediates_submitWrite (S : AppState) {envelope : WriteEnvelope}
    (h : storeIsAuthorized identity envelope.store = true) :
    Mediates identity through (submitWrite S envelope) := by
  -- all that it asks is about the store of the envelope, which is the one of the command
  refine (follows_submitWrite S envelope).simulate
    (R := fun s _ => ∀ cmd, s = .waiting cmd → cmd.store = envelope.store) ?_ ?_ (fun _ _ _ _ _ => trivial)
    (by rintro cmd ⟨⟩)
  · intro s _ q hR hq
    cases hq with
    | backlog => exact mayAsk_of_store rfl h
    | allow => exact mayAsk_of_store rfl h
    | uuid => exact mayAsk_of_none rfl (by rintro ⟨_, _, ⟨⟩⟩)
    | publish => exact mayAsk_of_store rfl h
    | status cmd => exact mayAsk_of_store rfl (by rw [hR cmd rfl, h])
    | deadline => exact mayAsk_of_none rfl (by rintro ⟨_, _, ⟨⟩⟩)
  · intro s _ q answer hR hq cmd' hnext
    cases hq with
    | backlog => cases answer <;> cases hnext
    | allow => cases answer <;> cases hnext
    | uuid => cases hnext
    | publish => cases answer <;> cases hnext; rfl
    | status cmd => exact hR cmd' (by rcases answer with _ | _ | _ <;> cases hnext <;> rfl)
    | deadline => exact hR cmd' (by cases hnext; rfl)

theorem looks_writeStatusHandler {idempotencyKey : String}
    (h : storeIsAuthorized identity store = true) :
    Looks identity through (writeStatusHandler V store idempotencyKey) := by
  unfold writeStatusHandler
  split
  · exact looks_ret _
  · refine looks_ask trivial (mayAsk_of_store rfl h) fun answer => ?_
    cases answer <;> exact looks_ret _

/-- The target of a read is a store of the query or a projection of it. -/
theorem looks_readProgram {params : ReadQuery}
    (hstore : ∀ store, params.projection = none → params.store = some store →
      storeIsAuthorized identity store = true)
    (hprojection : params.projection ≠ none → deniesProjection identity = false ∨ through = true) :
    Looks identity through (readProgram V params) := by
  unfold readProgram
  cases htarget : readTarget params with
  | error e => exact looks_ret _
  | ok target =>
    unfold readTarget at htarget
    cases target with
    | projection projection key =>
      have hne : params.projection ≠ none := by
        intro hnone
        rw [hnone] at htarget
        cases hs : params.store <;> rw [hs] at htarget <;> cases htarget
      refine looks_ask trivial (mayAsk_of_none rfl fun _ => hprojection hne) fun cached => ?_
      cases cacheHit V.codecs.deps cached <;> exact looks_ret _
    | entity store entity key =>
      have hallowed : storeIsAuthorized identity store = true := by
        cases hp : params.projection with
        | some projection =>
          rw [hp] at htarget
          cases htarget
        | none =>
          rw [hp] at htarget
          cases hs : params.store with
          | none =>
            rw [hs] at htarget
            cases htarget
          | some _ =>
            rw [hs] at htarget
            cases htarget
            exact hstore _ hp hs
      refine looks_ask trivial (mayAsk_of_store rfl hallowed) fun cached => ?_
      cases cacheHit V.codecs.deps cached with
      | some value => exact looks_ret _
      | none =>
        cases V.state.dbPathFor store with
        | none => exact looks_ret _
        | some dbPath =>
          refine looks_ask trivial (mayAsk_of_store rfl hallowed) fun row => ?_
          rcases row with _ | _ | bytes
          · exact looks_ret _
          · exact looks_ret _
          · cases fills V.state.cacheReadMode with
            | true => exact looks_ask trivial (mayAsk_of_store rfl hallowed) fun _ => looks_ret _
            | false => exact looks_ret _

/-! ### The endpoints -/

theorem authorized_of_writeDispatch {X : Codecs} {request : WriteRequest} {envelope : WriteEnvelope}
    (h : writeDispatch X request = .ok envelope) :
    storeIsAuthorized X.identity envelope.store = true := by
  have hchecked : ∀ e : WriteEnvelope, (if storeIsAuthorized X.identity e.store = true then .ok e
      else .error (forbiddenStoreResponse request e.store)) = Except.ok envelope →
      storeIsAuthorized X.identity envelope.store = true := by
    intro e he
    split_ifs at he with hauth
    cases he
    exact hauth
  unfold writeDispatch at h
  cases hpb : request.isProtobuf with
  | true =>
    rw [if_pos hpb] at h
    obtain ⟨e, -, he⟩ := except_bind_ok.1 h
    exact hchecked e he
  | false =>
    rw [if_neg (by simp [hpb])] at h
    obtain ⟨e, -, he⟩ := except_bind_ok.1 h
    exact hchecked e he

theorem mediates_write (request : WriteRequest) : Mediates identity through (write V identity request) := by
  unfold write
  cases hdispatch : writeDispatch { V.codecs with identity := identity } request with
  | error rejection => exact mediates_ret _
  | ok envelope =>
    exact (mediates_submitWrite V.state (authorized_of_writeDispatch hdispatch)).map _

theorem mediates_grpcWrite (message : Option PbWriteEnvelope) :
    Mediates identity through (grpcWrite V identity message) := by
  unfold grpcWrite
  cases message with
  | none => exact mediates_ret _
  | some message =>
    dsimp only
    cases writeEnvelopeFromPb V.codecs.deps message with
    | error status => exact mediates_ret _
    | ok envelope =>
      dsimp only
      split_ifs with h
      · exact (mediates_submitWrite V.state h).map _
      · exact mediates_ret _

theorem looks_writeStatus (protobuf : Bool) (store idempotencyKey : String) :
    Looks identity through (writeStatus V identity protobuf store idempotencyKey) := by
  unfold writeStatus
  by_cases h : storeIsAuthorized identity store = true
  · rw [if_pos h]
    refine Prog.Follows.bind (looks_writeStatusHandler h) fun _ result _ => ?_
    cases result <;> exact looks_ret _
  · rw [if_neg h]
    exact looks_ret _

theorem looks_grpcWriteStatus (store idempotencyKey : String) :
    Looks identity through (grpcWriteStatus V identity store idempotencyKey) := by
  unfold grpcWriteStatus
  split_ifs with hempty h
  · exact looks_ret _
  · cases V.state.dbPathFor store with
    | none => exact looks_ret _
    | some dbPath =>
      refine looks_ask trivial (mayAsk_of_store rfl h) fun answer => ?_
      cases answer <;> exact looks_ret _
  · exact looks_ret _

theorem looks_subscribeEvents (request : EventStream.Request) :
    Looks identity through (subscribeEvents V identity request) := by
  unfold subscribeEvents
  by_cases hempty : request.store = ""
  · rw [if_pos hempty]
    exact looks_ret _
  rw [if_neg hempty]
  by_cases h : storeIsAuthorized identity request.store = true
  · rw [if_pos h]
    by_cases hnegative : request.afterOutboxSeq < 0
    · rw [if_pos hnegative]
      exact looks_ret _
    rw [if_neg hnegative]
    cases V.state.dbPathFor request.store with
    | none => exact looks_ret _
    | some dbPath =>
      dsimp only
      split_ifs
      · refine looks_ask trivial (mayAsk_of_store rfl h) fun answer => ?_
        rcases answer with _ | _ | _ <;> exact looks_ret _
      · exact looks_ret _
  · rw [if_neg h]
    exact looks_ret _

/-- What `authorize_read` lets pass. -/
theorem looks_of_authorizeRead {params : ReadQuery} (h : authorizeRead identity params = none) :
    Looks identity through (readProgram V params) := by
  obtain ⟨hstore, hprojection⟩ := authorizeRead_eq_none.1 h
  exact looks_readProgram (fun store _ hs => hstore store hs) fun hp =>
    Or.inl (hprojection.resolve_left hp)

theorem looks_read (protobuf : Bool) (params : ReadQuery) :
    Looks identity through (read V identity protobuf params) := by
  unfold read forbiddenRead
  cases h : authorizeRead identity params with
  | some e => exact looks_ret _
  | none => exact (looks_of_authorizeRead h).map _

theorem looks_readProtobuf (wantsProtobuf : Bool) (body : Bytes) :
    Looks identity through (readProtobuf V identity wantsProtobuf body) := by
  unfold readProtobuf forbiddenRead
  cases V.decodeReadRequest body with
  | error text => exact looks_ret _
  | ok request =>
    dsimp only
    cases h : authorizeRead identity request.toQuery with
    | some e => exact looks_ret _
    | none => exact (looks_of_authorizeRead h).map _

/-- A gRPC read reaches a projection through the store that it names. -/
theorem looks_grpcReadRequest (request : ReadRequest) :
    Looks identity (decide (request.store ≠ "")) (grpcReadRequest V identity request) := by
  unfold grpcReadRequest
  cases h : grpcAuthorizeRead identity request with
  | some message => exact looks_ret _
  | none =>
    refine (looks_readProgram (fun store hp hs => ?_) fun hp => ?_).map _
    · rcases grpcAuthorizeRead_eq_none.1 h with ⟨hne, hauth⟩ | ⟨hempty, -⟩
      · rw [ReadRequest.toQuery, nonEmpty, if_neg hne, Option.some.injEq] at hs
        rw [← hs, hauth]
      · rw [ReadRequest.toQuery, nonEmpty, if_pos hempty] at hs
        cases hs
    · rcases grpcAuthorizeRead_eq_none.1 h with ⟨hne, -⟩ | ⟨-, hproj⟩
      · exact Or.inr (decide_eq_true hne)
      · refine Or.inl (hproj.resolve_left fun hempty => hp ?_)
        simp [ReadRequest.toQuery, nonEmpty, hempty]

/-! ### The server -/

/-- The key that comes with a request. -/
def Request.Presents : Request → String → Prop
  | .write authorization _ => Authentication.Presents authorization
  | .writeStatus authorization _ _ _ => Authentication.Presents authorization
  | .read authorization _ _ => Authentication.Presents authorization
  | .readProtobuf authorization _ _ => Authentication.Presents authorization
  | .grpcWrite xApiKey _ => fun key => xApiKey = some key
  | .grpcWriteStatus xApiKey _ _ => fun key => xApiKey = some key
  | .grpcRead xApiKey _ => fun key => xApiKey = some key
  | .subscribeEvents xApiKey _ => fun key => xApiKey = some key

/-- The request names a store that stands for the projections too. -/
def Request.namesStore : Request → Bool
  | .grpcRead _ request => decide (request.store ≠ "")
  | _ => false

/-- The status `401` or `UNAUTHENTICATED`. -/
def Response.IsUnauthorized : Response → Prop
  | .http response => response.status = 401
  | .grpcWrite result => ∃ message, result = .error (.unauthenticated message)
  | .grpcWriteStatus result => ∃ message, result = .error (.unauthenticated message)
  | .grpcRead result => ∃ message, result = .error (.unauthenticated message)
  | .subscribed result => ∃ message, result = .error (.unauthenticated message)

/-- The request comes with the key. -/
def Request.ComesFrom (V : Server) (request : Request) (k : ApiKey) : Prop :=
  ∃ key, request.Presents key ∧ validateApiKey key V.auth.validKeys = some k

/-- What the server may ask for a request: with its key, and only what this may see. -/
def guarding (V : Server) (request : Request) : Protocol Answer Unit where
  allowed _ q := ∃ k, request.ComesFrom V k ∧ MayAsk (some k.identity) request.namesStore q
  next _ _ _ := ()

/-- A request without a key of the server is sent away. -/
def SendsAway (V : Server) (request : Request) (response : Response) : Prop :=
  (∀ k, ¬ request.ComesFrom V k) → response.IsUnauthorized

variable {request : Request}

/-- The handler of a request with a key asks what the key may see. -/
theorem follows_guarding {α β : Type} {p : Handler α} {f : α → β} {k : ApiKey} {namesStore : Bool}
    (hnames : namesStore = request.namesStore) (hk : request.ComesFrom V k) {post : Unit → β → Prop}
    (hpost : ∀ b, post () b) (h : Mediates (some k.identity) namesStore p) :
    (f <$> p).Follows (guarding V request) post () := by
  refine Prog.Follows.simulate (R := fun _ _ => True) (P := mediating (some k.identity) namesStore)
    (fun _ _ q _ hq => ⟨k, hk, hnames ▸ hq⟩) (fun _ _ _ _ _ _ => trivial) (fun _ _ b _ _ => hpost b)
    trivial (h.map f)

/-- A route of REST, on whose requests `hroute` says where the key stands. -/
theorem follows_protectedRoute (henabled : V.auth.enabled = true) {authorization : Option String}
    {protobuf : Bool} {handler : Option AuthIdentity → Handler HttpResponse}
    (hroute : ∀ key, request.Presents key ↔ Authentication.Presents authorization key)
    (h : ∀ identity, Mediates identity request.namesStore (handler identity)) :
    (protectedRoute V authorization protobuf handler).Follows (guarding V request)
      (fun _ response => SendsAway V request response) () := by
  unfold protectedRoute
  cases hauth : requireAuth V.auth authorization with
  | error detail =>
    intro _
    unfold authError
    cases protobuf <;> rfl
  | ok identity =>
    rcases requireAuth_eq_ok.1 hauth with ⟨hoff, -⟩ | ⟨-, c, k, hc, hk, rfl⟩
    · rw [henabled] at hoff
      cases hoff
    · have hcomes : request.ComesFrom V k := ⟨c.secret, (hroute _).2 ⟨c, hc, rfl⟩, hk⟩
      exact follows_guarding rfl hcomes (fun _ hnone => absurd hcomes (hnone k)) (h _)

/-- A method of gRPC. -/
theorem follows_authenticated (henabled : V.auth.enabled = true) {β : Type} {xApiKey : Option String}
    {handler : Option AuthIdentity → Handler (Except GrpcError β)}
    {wrap : Except GrpcError β → Response}
    (hwrap : ∀ message, (wrap (.error (.unauthenticated message))).IsUnauthorized)
    (hroute : ∀ key, request.Presents key ↔ xApiKey = some key)
    (h : ∀ identity, Mediates identity request.namesStore (handler identity)) :
    (wrap <$> authenticated V xApiKey handler).Follows (guarding V request)
      (fun _ response => SendsAway V request response) () := by
  unfold authenticated
  cases hauth : grpcAuth V.auth xApiKey with
  | error message => exact fun _ => hwrap message
  | ok identity =>
    rcases grpcAuth_eq_ok.1 hauth with ⟨hoff, -⟩ | ⟨-, key, k, hkey, hk, rfl⟩
    · rw [henabled] at hoff
      cases hoff
    · have hcomes : request.ComesFrom V k := ⟨key, (hroute _).2 hkey, hk⟩
      exact follows_guarding rfl hcomes (fun _ hnone => absurd hcomes (hnone k)) (h _)

theorem follows_serve (henabled : V.auth.enabled = true) (request : Request) :
    (serve V request).Follows (guarding V request) (fun _ response => SendsAway V request response) () := by
  cases request with
  | write authorization request =>
    exact follows_protectedRoute henabled (fun _ => Iff.rfl) fun _ => mediates_write request
  | writeStatus authorization protobuf store idempotencyKey =>
    exact follows_protectedRoute henabled (fun _ => Iff.rfl) fun _ => (looks_writeStatus _ _ _).mediates
  | read authorization protobuf params =>
    exact follows_protectedRoute henabled (fun _ => Iff.rfl) fun _ => (looks_read _ _).mediates
  | readProtobuf authorization wantsProtobuf body =>
    exact follows_protectedRoute henabled (fun _ => Iff.rfl) fun _ => (looks_readProtobuf _ _).mediates
  | grpcWrite xApiKey message =>
    exact follows_authenticated henabled (fun message => ⟨message, rfl⟩) (fun _ => Iff.rfl)
      fun _ => mediates_grpcWrite _
  | grpcWriteStatus xApiKey store idempotencyKey =>
    exact follows_authenticated henabled (fun message => ⟨message, rfl⟩) (fun _ => Iff.rfl)
      fun _ => (looks_grpcWriteStatus _ _).mediates
  | grpcRead xApiKey request =>
    exact follows_authenticated henabled (fun message => ⟨message, rfl⟩) (fun _ => Iff.rfl)
      fun _ => (looks_grpcReadRequest _).mediates
  | subscribeEvents xApiKey request =>
    exact follows_authenticated henabled (fun message => ⟨message, rfl⟩) (fun _ => Iff.rfl)
      fun _ => (looks_subscribeEvents _).mediates

/-- A server with a key for `orders`; its decoders take nothing. -/
def sampleServer : Server where
  codecs :=
    { deps := Deps.compact [] "", readEnvelope := fun _ => .error "expected value",
      decodeWriteRequest := fun _ => .error "buffer underflow", identity := none }
  decodeReadRequest _ := .error "buffer underflow"
  errorText _ := ""
  capacity := 128
  state :=
    { dbPath := none, dbPaths := Dict.ofPairs [("orders", "/data/orders.db")], threshold := 500,
      timeoutMs := 2000, polls := 100, cacheReadMode := .direct, throttleWindowSecs := 1 }
  auth := .new (apiKeys "orders-key" "orders-key=orders")

/-- A client of `orders` goes on after its third event. -/
def sampleSubscription : Request :=
  .subscribeEvents (some "orders-key") { store := "orders", entity := "", key := "", afterOutboxSeq := 3 }

/-- A client of `orders` writes. -/
def sampleWrite : Request :=
  .grpcWrite (some "orders-key") (some ⟨"upsert", "orders", "order", "1", 1, "2026-01-01T00:00:00Z", "a",
    "accepted", [], some ⟨[]⟩⟩)

end Api

end Ixmati
