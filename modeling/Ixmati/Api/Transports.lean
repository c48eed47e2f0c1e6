import Ixmati.Api.Mediation

/-!
# One service over two transports

A message can be posted to the REST endpoint as protobuf or sent over gRPC.  As programs the two are
equal, up to the form of what is sent back: they ask the same in the same order, whatever they are
answered, so nothing outside of the connection can tell them apart.

* `grpcWrite_eq` : `WriteService::write` is `POST /write` with a protobuf body;
* `grpcRead_eq` : `ReadService::read` is `POST /read`, for requests that do not name both a store and a
  projection;
* `same_service` : the same with the keys, for the server.
-/

namespace Ixmati

open Ixmati.System
open Authentication Scopes

namespace Api

variable {V : Server} {identity : Option AuthIdentity}

/-! ### From one form to the other -/

/-- The end of a gRPC call that stands for the error detail of an HTTP response. -/
def grpcErrorOf (retryAfter : Option ℕ) (detail : ErrorDetail) : GrpcError :=
  if detail.error = "UNAUTHORIZED" then .unauthenticated detail.detail
  else if detail.error = "PERMISSION_DENIED" then .permissionDenied detail.detail
  else if detail.error = "QUEUE_FULL" ∨ detail.error = "OUTBOX_BACKLOG" then
    .status ⟨.resourceExhausted, detail.detail⟩ retryAfter
  else if detail.error = "STORE_NOT_FOUND" then .status ⟨.notFound, detail.detail⟩ none
  else if detail.error = "INTERNAL" then .status ⟨.internal, detail.detail⟩ none
  else .status ⟨.invalidArgument, detail.detail⟩ none

/-- The result of a gRPC call that stands for an HTTP response with a protobuf body. -/
def grpcResultOf {β : Type} (body : Body → Option β) (response : HttpResponse) : Except GrpcError β :=
  match response.body with
  | .errorDetail detail => .error (grpcErrorOf response.retryAfter detail)
  | other =>
    match body other with
    | some result => .ok result
    | none => .error (.status ⟨.internal, ""⟩ none)

/-- The error without the text for a caller that is sent away. -/
def GrpcError.plain : GrpcError → GrpcError
  | .unauthenticated _ => .unauthenticated ""
  | .permissionDenied _ => .permissionDenied ""
  | e => e

/-- The body is a response to a write. -/
def Body.writeResponse? : Body → Option PbWriteResponse
  | .writeResponse response => some response
  | _ => none

/-- The body is a response to a read. -/
def Body.readResponse? : Body → Option PbReadResponse
  | .readResponse response => some response
  | _ => none

/-! ### A message that cannot be used -/

/-- The only error is `INVALID_ARGUMENT`. -/
def OnlyInvalid {α : Type} (x : Except Status α) : Prop :=
  ∀ status, x = .error status → status.code = .invalidArgument

theorem onlyInvalid_ok {α : Type} (a : α) : OnlyInvalid (.ok a) := by
  rintro _ ⟨⟩

theorem onlyInvalid_error {α : Type} (message : String) :
    OnlyInvalid (.error ⟨.invalidArgument, message⟩ : Except Status α) := by
  rintro _ ⟨⟩
  rfl

theorem OnlyInvalid.bind {α β : Type} {x : Except Status α} {f : α → Except Status β} (hx : OnlyInvalid x)
    (hf : ∀ a, OnlyInvalid (f a)) : OnlyInvalid (x >>= f) := by
  cases x with
  | error status =>
    rintro _ ⟨⟩
    exact hx status rfl
  | ok a => exact hf a

mutual

theorem onlyInvalid_pbValueToJson : ∀ v : PbValue, OnlyInvalid (pbValueToJson v)
  | .null _ => onlyInvalid_ok _
  | .number x => by
    rw [pbValueToJson]
    cases Number.fromF64 x with
    | some n => exact onlyInvalid_ok _
    | none => exact onlyInvalid_error _
  | .string _ => onlyInvalid_ok _
  | .bool _ => onlyInvalid_ok _
  | .struct fields => by
    rw [pbValueToJson]
    exact (onlyInvalid_pbFieldsToJson fields []).bind fun _ => onlyInvalid_ok _
  | .list values => by
    rw [pbValueToJson]
    exact (onlyInvalid_pbValuesToJson values).bind fun _ => onlyInvalid_ok _
  | .empty => onlyInvalid_error _

theorem onlyInvalid_pbFieldsToJson : ∀ (fields : List (String × PbValue)) (object : List (String × Json)),
    OnlyInvalid (pbFieldsToJson fields object)
  | [], _ => onlyInvalid_ok _
  | (_, v) :: fields, _ => by
    rw [pbFieldsToJson]
    exact (onlyInvalid_pbValueToJson v).bind fun _ => onlyInvalid_pbFieldsToJson fields _

theorem onlyInvalid_pbValuesToJson : ∀ vs : List PbValue, OnlyInvalid (pbValuesToJson vs)
  | [] => onlyInvalid_ok _
  | v :: vs => by
    rw [pbValuesToJson]
    exact (onlyInvalid_pbValueToJson v).bind fun _ =>
      (onlyInvalid_pbValuesToJson vs).bind fun _ => onlyInvalid_ok _

end

theorem onlyInvalid_writeEnvelopeFromPb (D : Deps) (message : PbWriteEnvelope) :
    OnlyInvalid (writeEnvelopeFromPb D message) := by
  have hpayload : OnlyInvalid (message.readPayload D) := by
    unfold PbWriteEnvelope.readPayload
    split_ifs
    · cases message.payload with
      | none => exact onlyInvalid_error _
      | some value =>
        exact (onlyInvalid_pbFieldsToJson value.fields []).bind fun _ => onlyInvalid_ok _
    · cases D.fromSlice message.payloadBytes with
      | none => exact onlyInvalid_error _
      | some payload => exact onlyInvalid_ok _
    · exact onlyInvalid_error _
  refine hpayload.bind fun payload => ?_
  split_ifs
  · exact onlyInvalid_error _
  · exact onlyInvalid_error _
  · exact onlyInvalid_ok _

/-! ### Writes -/

theorem startsWithProtobuf_trim {cs : List Char} (h : startsWithProtobuf cs = true) :
    startsWithProtobuf (trim cs) = true := by
  unfold startsWithProtobuf at h ⊢
  rw [List.isPrefixOf_iff_prefix] at h ⊢
  obtain ⟨rest, rfl⟩ := h
  exact prefix_trim (by decide) (by decide) (by decide) rest

/-- The first item of a list that starts with protobuf does. -/
theorem exists_item {cs : List Char} (h : startsWithProtobuf cs = true) :
    ∃ item ∈ cs.splitOn ',', startsWithProtobuf item = true := by
  unfold startsWithProtobuf at h ⊢
  rw [List.isPrefixOf_iff_prefix] at h
  obtain ⟨rest, rfl⟩ := h
  by_cases hcomma : ',' ∈ rest
  · obtain ⟨item, back, rfl, hitem⟩ := List.eq_append_cons_of_mem hcomma
    refine ⟨"application/protobuf".toList ++ item, ?_, by simp⟩
    rw [← List.append_assoc, List.splitOn_append_cons_self,
      List.splitOn_eq_singleton (by simp [hitem])]
    simp
  · refine ⟨"application/protobuf".toList ++ rest, ?_, by simp⟩
    rw [List.splitOn_eq_singleton (by simp [hcomma])]
    simp

/-- The content type of protobuf is a wish for protobuf. -/
theorem wantsProtobuf_of_isProtobuf {request : WriteRequest} (h : request.isProtobuf = true) :
    request.wantsProtobuf = true := by
  unfold WriteRequest.isProtobuf at h
  cases hct : request.contentType with
  | none =>
    rw [hct] at h
    cases h
  | some value =>
    rw [hct] at h
    obtain ⟨item, hmem, hitem⟩ := exists_item h
    rw [WriteRequest.wantsProtobuf, List.any_eq_true]
    refine ⟨value, by simp [hct], List.any_eq_true.2 ⟨item, hmem, startsWithProtobuf_trim hitem⟩⟩

theorem grpcWriteView_refusal (envelope : WriteEnvelope) (why : Refusal) :
    grpcWriteView V (why.toResult envelope) =
      grpcResultOf Body.writeResponse? (writeView V true (why.toResult envelope)) := by
  cases why <;> rfl

/-- The two views of the results that `submit_write` can have. -/
theorem grpcWriteView_eq {S : AppState} {envelope : WriteEnvelope} {result : SubmitResult} {s : Progress}
    (h : Fits S envelope result s) :
    grpcWriteView V result = grpcResultOf Body.writeResponse? (writeView V true result) := by
  cases s with
  | checking =>
    obtain ⟨-, rfl⟩ := h
    exact grpcWriteView_refusal envelope .unsupported
  | refused =>
    obtain ⟨why, rfl⟩ := h
    exact grpcWriteView_refusal envelope why
  | waiting cmd => rw [show result = _ from h]; rfl
  | committed => rw [show result = _ from h]; rfl
  | unloaded => exact h.elim
  | admitted => exact h.elim

/-- `WriteService::write` is `POST /write` with the message as its body. -/
theorem grpcWrite_eq {request : WriteRequest} {message : Option PbWriteEnvelope}
    (hpb : request.isProtobuf = true)
    (hdecode : V.codecs.decodeWriteRequest request.body = .ok message) :
    grpcWrite V identity message =
      grpcResultOf Body.writeResponse? <$> write V identity request := by
  have hwants := wantsProtobuf_of_isProtobuf hpb
  have hdispatch : writeDispatch { V.codecs with identity := identity } request =
      (Ixmati.readProtobuf { V.codecs with identity := identity } request.body).bind fun envelope =>
        if storeIsAuthorized identity envelope.store then .ok envelope
        else .error (forbiddenStoreResponse request envelope.store) := by
    unfold writeDispatch
    rw [if_pos hpb]
    rfl
  unfold write grpcWrite
  rw [hdispatch, hpb, Ixmati.readProtobuf]
  simp only [hdecode]
  cases message with
  | none => rfl
  | some message =>
    dsimp only
    cases hread : writeEnvelopeFromPb V.codecs.deps message with
    | error status =>
      have hcode := onlyInvalid_writeEnvelopeFromPb V.codecs.deps message status hread
      obtain ⟨code, text⟩ := status
      cases hcode
      rfl
    | ok envelope =>
      simp only [Except.mapError, Except.bind]
      cases hauth : storeIsAuthorized identity envelope.store with
      | true =>
        simp only [if_pos]
        rw [← comp_map]
        exact (follows_submitWrite V.state envelope).map_congr fun _ _ h => grpcWriteView_eq h
      | false =>
        have hforbidden : forbiddenStoreResponse request envelope.store =
            .protobuf 403 ⟨"PERMISSION_DENIED", notAuthorized envelope.store, envelope.store, ""⟩ :=
          if_pos hwants
        simp only [Bool.false_eq_true, if_false, hforbidden]
        rfl

/-! ### Reads -/

/-- A payload that is no object is the only one that cannot be sent. -/
theorem jsonToStruct_eq (j : Json) :
    (∃ v, jsonToStruct j = .ok v) ∨
      jsonToStruct j = .error ⟨.internal, "stored payload is not a JSON object"⟩ := by
  cases j with
  | object fields => exact Or.inl ((jsonToStruct_ok_iff _).2 rfl)
  | _ => exact Or.inr rfl

theorem readResponseFromJson_error {value : Json} {status : Status}
    (h : readResponseFromJson value = .error status) : status.code = .internal := by
  unfold readResponseFromJson at h
  cases hpayload : value.get? "payload" with
  | none =>
    rw [hpayload] at h
    cases h
  | some payload =>
    rw [hpayload] at h
    rcases jsonToStruct_eq payload with ⟨v, hv⟩ | hv
    · simp only [hv] at h
      cases h
    · simp only [hv] at h
      cases h
      rfl

/-- The errors of `read_handler`. -/
def ReadFails : Except (ℕ × CoreError) ReadResult → Prop
  | .ok _ => True
  | .error (_, e) => (∃ store, e = .storeNotFound store) ∨ ∃ detail, e = .internal detail

/-- `read_handler` fails for want of a store, of a database or of an answer of it. -/
theorem returns_readProgram (params : ReadQuery) : (readProgram V params).Returns ReadFails := by
  unfold readProgram
  cases htarget : readTarget params with
  | error e =>
    unfold readTarget at htarget
    refine Prog.returns_ret (Or.inl ⟨"", ?_⟩)
    cases hp : params.projection with
    | some projection =>
      rw [hp] at htarget
      cases htarget
    | none =>
      cases hs : params.store <;> rw [hp, hs] at htarget <;> cases htarget
      rfl
  | ok target =>
    cases target with
    | projection projection key =>
      refine Prog.returns_ask fun cached => ?_
      cases cacheHit V.codecs.deps cached <;> exact Prog.returns_ret trivial
    | entity store entity key =>
      refine Prog.returns_ask fun cached => ?_
      cases cacheHit V.codecs.deps cached with
      | some value => exact Prog.returns_ret trivial
      | none =>
        cases V.state.dbPathFor store with
        | none => exact Prog.returns_ret (Or.inr ⟨_, rfl⟩)
        | some dbPath =>
          refine Prog.returns_ask fun row => ?_
          rcases row with _ | _ | bytes
          · exact Prog.returns_ret (Or.inr ⟨_, rfl⟩)
          · exact Prog.returns_ret trivial
          · cases fills V.state.cacheReadMode with
            | true => exact Prog.returns_ask fun _ => Prog.returns_ret trivial
            | false => exact Prog.returns_ret trivial

/-- The two views of the results that `read_handler` can have. -/
theorem grpcReadView_eq {result : Except (ℕ × CoreError) ReadResult} (h : ReadFails result) :
    grpcReadView V result = grpcResultOf Body.readResponse? (readView true result) := by
  rcases result with ⟨status, e⟩ | result
  · rcases h with ⟨store, rfl⟩ | ⟨detail, rfl⟩ <;> rfl
  · simp only [grpcReadView, readView, if_true]
    cases hresponse : readResponseFromJson result.toJson with
    | ok response => rfl
    | error status =>
      have hcode := readResponseFromJson_error hresponse
      obtain ⟨code, message⟩ := status
      cases hcode
      rfl

/-- The two checks of a read that does not name both a store and a projection. -/
theorem forbiddenRead_eq (identity : Option AuthIdentity) {request : ReadRequest}
    (hone : request.store = "" ∨ request.projection = "") :
    (grpcAuthorizeRead identity request = none ∧ forbiddenRead identity true request.toQuery = none) ∨
      ∃ message store, grpcAuthorizeRead identity request = some message ∧
        forbiddenRead identity true request.toQuery = some (forbidden true store) := by
  have hiff : grpcAuthorizeRead identity request = none ↔
      authorizeRead identity request.toQuery = none := by
    rw [grpcAuthorizeRead_eq_none, authorizeRead_eq_none]
    unfold ReadRequest.toQuery nonEmpty
    rcases hone with hs | hp
    · by_cases hp : request.projection = "" <;> simp [hs, hp]
    · by_cases hs : request.store = "" <;> simp [hs, hp]
  unfold forbiddenRead
  cases hrest : authorizeRead identity request.toQuery with
  | none => exact Or.inl ⟨hiff.2 hrest, rfl⟩
  | some e =>
    have hne : grpcAuthorizeRead identity request ≠ none := by
      rw [Ne, hiff, hrest]
      exact Option.some_ne_none e
    obtain ⟨message, hmessage⟩ := Option.ne_none_iff_exists'.1 hne
    have hstore : ∃ store, e = forbiddenStore store := by
      unfold authorizeRead at hrest
      split at hrest
      · exact ⟨_, (Option.some.inj hrest).symm⟩
      · split_ifs at hrest
        exact ⟨_, (Option.some.inj hrest).symm⟩
    obtain ⟨store, rfl⟩ := hstore
    exact Or.inr ⟨message, store, hmessage, rfl⟩

/-- `ReadService::read` is `POST /read` with the message as its body, but for the text of a denial. -/
theorem grpcRead_eq (identity : Option AuthIdentity) {request : ReadRequest} {body : Bytes}
    (hdecode : V.decodeReadRequest body = .ok request)
    (hone : request.store = "" ∨ request.projection = "") :
    Except.mapError GrpcError.plain <$> grpcReadRequest V identity request =
      (fun response => (grpcResultOf Body.readResponse? response).mapError GrpcError.plain) <$>
        readProtobuf V identity true body := by
  unfold grpcReadRequest readProtobuf
  simp only [hdecode]
  rcases forbiddenRead_eq identity hone with ⟨hgrpc, hrest⟩ | ⟨message, store, hgrpc, hrest⟩
  · rw [hgrpc, hrest]
    dsimp only
    rw [← comp_map, ← comp_map]
    refine (returns_readProgram request.toQuery).map_congr fun _ _ h => ?_
    exact congrArg (Except.mapError GrpcError.plain) (grpcReadView_eq h)
  · rw [hgrpc, hrest]
    rfl

/-! ### The server -/

/-- The response without the text for a caller that is sent away. -/
def Response.plain : Response → Response
  | .http response => .http response
  | .grpcWrite result => .grpcWrite (result.mapError GrpcError.plain)
  | .grpcWriteStatus result => .grpcWriteStatus (result.mapError GrpcError.plain)
  | .grpcRead result => .grpcRead (result.mapError GrpcError.plain)
  | .subscribed result => .subscribed (result.mapError GrpcError.plain)

/-- The response to a write in the form of gRPC. -/
def Response.asGrpcWrite : Response → Response
  | .http response => .grpcWrite (grpcResultOf Body.writeResponse? response)
  | other => other

/-- The response to a read in the form of gRPC. -/
def Response.asGrpcRead : Response → Response
  | .http response => .grpcRead (grpcResultOf Body.readResponse? response)
  | other => other

/-- A key is let in, as somebody, by both doors or by none. -/
theorem both_doors {authorization : Option String} {key : String}
    (hkey : Authentication.Presents authorization key) (config : AuthConfig) :
    (∃ identity, requireAuth config authorization = .ok identity ∧
        grpcAuth config (some key) = .ok identity) ∨
      ∃ detail message, requireAuth config authorization = .error detail ∧
        grpcAuth config (some key) = .error message := by
  cases hrest : requireAuth config authorization with
  | ok identity => exact Or.inl ⟨identity, rfl, (requireAuth_eq_grpcAuth hkey).1 hrest⟩
  | error detail =>
    cases hgrpc : grpcAuth config (some key) with
    | ok identity =>
      rw [(requireAuth_eq_grpcAuth hkey).2 hgrpc] at hrest
      cases hrest
    | error message => exact Or.inr ⟨detail, message, rfl, rfl⟩

/-- **One service over two transports.**  Let a header carry a key.  A command that is posted as protobuf
with the header, and the one sent over gRPC with the key, are handled by the same program: it asks the
same in the same order whatever it is answered, and what comes back is the same message or the same
error.  Reads are too, unless they name both a store and a projection. -/
theorem same_service (V : Server) {authorization : Option String} {key : String}
    (hkey : Authentication.Presents authorization key) :
    (∀ (request : WriteRequest) (message : Option PbWriteEnvelope), request.isProtobuf = true →
      V.codecs.decodeWriteRequest request.body = .ok message →
      Response.plain <$> serve V (.grpcWrite (some key) message) =
        (fun response => response.asGrpcWrite.plain) <$> serve V (.write authorization request)) ∧
    (∀ (body : Bytes) (request : ReadRequest), V.decodeReadRequest body = .ok request →
      request.store = "" ∨ request.projection = "" →
      Response.plain <$> serve V (.grpcRead (some key) request) =
        (fun response => response.asGrpcRead.plain) <$>
          serve V (.readProtobuf authorization true body)) := by
  constructor
  · intro request message hpb hdecode
    simp only [serve, protectedRoute, authenticated, wantsProtobuf_of_isProtobuf hpb]
    rcases both_doors hkey V.auth with ⟨identity, hrest, hgrpc⟩ | ⟨detail, message, hrest, hgrpc⟩
    · simp only [hrest, hgrpc]
      rw [grpcWrite_eq hpb hdecode, ← comp_map, ← comp_map, ← comp_map]
      rfl
    · simp only [hrest, hgrpc]
      rfl
  · intro body request hdecode hone
    simp only [serve, protectedRoute, authenticated]
    rcases both_doors hkey V.auth with ⟨identity, hrest, hgrpc⟩ | ⟨detail, message, hrest, hgrpc⟩
    · simp only [hrest, hgrpc]
      have hread := congrArg (Functor.map Response.grpcRead) (grpcRead_eq identity hdecode hone)
      rw [← comp_map, ← comp_map] at hread ⊢
      exact hread
    · simp only [hrest, hgrpc]
      rfl

/-- A write of an order. -/
def sampleMessage : PbWriteEnvelope where
  op := "upsert"
  store := "orders"
  entity := "order"
  key := "1"
  version := 1
  ts := "2026-01-01T00:00:00Z"
  idempotencyKey := "a"
  ackMode := "accepted"
  payloadBytes := []
  payload := some ⟨[]⟩

/-- A read of the order. -/
def sampleQuestion : ReadRequest := ⟨"orders", "order", "1", ""⟩

/-- Decoders that take these two messages. -/
def twoMessages : Server :=
  { sampleServer with
    codecs := { sampleServer.codecs with
      decodeWriteRequest := fun body =>
        if body = [1] then .ok (some sampleMessage) else .error "buffer underflow" }
    decodeReadRequest := fun body => if body = [2] then .ok sampleQuestion else .error "buffer underflow" }

theorem same_service_of_two_messages :
    (∃ q next, serve twoMessages (.grpcWrite (some "orders-key") (some sampleMessage)) = .ask q next) ∧
    Response.plain <$> serve twoMessages (.grpcWrite (some "orders-key") (some sampleMessage)) =
      (fun response => response.asGrpcWrite.plain) <$> serve twoMessages
        (.write (some "Bearer orders-key") ⟨some "application/protobuf", none, [1]⟩) ∧
    (∃ q next, serve twoMessages (.grpcRead (some "orders-key") sampleQuestion) = .ask q next) ∧
    Response.plain <$> serve twoMessages (.grpcRead (some "orders-key") sampleQuestion) =
      (fun response => response.asGrpcRead.plain) <$>
        serve twoMessages (.readProtobuf (some "Bearer orders-key") true [2]) := by
  have hkey : Authentication.Presents (some "Bearer orders-key") "orders-key" :=
    presents_bearer "orders-key"
  exact ⟨⟨_, _, rfl⟩, (same_service twoMessages hkey).1 _ _ rfl rfl, ⟨_, _, rfl⟩,
    (same_service twoMessages hkey).2 _ _ rfl (Or.inr rfl)⟩

end Api

end Ixmati
