import Ixmati.Api.Authentication
import Ixmati.Api.Submit
import Ixmati.Api.WriteDispatch

/-!
# The endpoints

The protected endpoints of the API over both transports, each from the credentials of its request to
what is sent back: `POST /write`, `GET /writes/{store}/{key}`, `GET /read` and `POST /read` of `rest.rs`,
and `Write`, `GetWriteStatus`, `Read` and `SubscribeEvents` of `grpc.rs`.  They share `submit_write` and
`read_handler`, and what they need from outside of the process they ask (`Ask`).

* `serve` : what the server does with a request;
* `eval_readProgram` : `read_handler` asked step by step is `readHandler`.
-/

namespace Ixmati

open Ixmati.System
open Authentication

/-- `Error::code`. -/
def CoreError.code : CoreError → String
  | .storeNotFound _ => "STORE_NOT_FOUND"
  | .writeRejected .. => "WRITE_REJECTED"
  | .permissionDenied .. => "PERMISSION_DENIED"
  | .queueFull _ => "QUEUE_FULL"
  | .outboxBacklog .. => "OUTBOX_BACKLOG"
  | .internal _ => "INTERNAL"

/-- The text of an error. -/
def CoreError.toText : CoreError → String
  | .storeNotFound store => "store not found: " ++ store
  | .writeRejected detail _ _ => "write rejected: " ++ detail
  | .permissionDenied store detail => "permission denied for store " ++ store ++ ": " ++ detail
  | .queueFull store => "queue full: " ++ store
  | .outboxBacklog store depth threshold =>
    "outbox backlog over threshold: " ++ store ++ " (" ++ toString depth ++ " > " ++
      toString threshold ++ ")"
  | .internal detail => "internal error: " ++ detail

namespace Api

/-! ### What is sent back -/

/-- `pb::WriteResponse`. -/
structure PbWriteResponse where
  status : String
  store : String
  idempotencyKey : String
  message : String
  deriving DecidableEq

/-- `pb::GetWriteStatusResponse`. -/
structure PbStatusResponse where
  status : ℕ
  store : String
  idempotencyKey : String
  detail : String
  deriving DecidableEq

/-- `pb::ReadResponse`; `payload_bytes` is always empty. -/
structure PbReadResponse where
  found : Bool
  store : String
  entity : String
  key : String
  version : UInt64
  payload : Option Struct
  projection : String
  source : String

/-- The body of a response of the HTTP server. -/
inductive Body where
  | error (e : CoreError)
  | errorDetail (detail : ErrorDetail)
  | ack (ack : AckResponse)
  | writeResponse (response : PbWriteResponse)
  | status (status : WriteStatus)
  | statusResponse (response : PbStatusResponse)
  | json (value : Json)
  | readResponse (response : PbReadResponse)

/-- A response of the HTTP server. -/
structure HttpResponse where
  status : ℕ
  body : Body
  /-- The header `Retry-After`. -/
  retryAfter : Option ℕ

/-- The end of a gRPC call that has no response. -/
inductive GrpcError where
  | unauthenticated (message : String)
  | permissionDenied (message : String)
  | unavailable (message : String)
  /-- With the metadata `retry-after`. -/
  | status (status : Status) (retryAfter : Option ℕ)

/-- What the server needs: the decoders of third-party crates and the configuration. -/
structure Server where
  codecs : Codecs
  /-- `pb::ReadRequest::decode`. -/
  decodeReadRequest : Bytes → Except String ReadRequest
  /-- The text of an error of `fetch_events`. -/
  errorText : FetchError → String
  capacity : ℕ
  state : AppState
  auth : AuthConfig

variable (V : Server)

/-- The seconds of `Retry-After`. -/
def Server.retryAfter : ℕ := max V.state.throttleWindowSecs 1

/-- `with_retry_after`. -/
def withRetryAfter (response : HttpResponse) : HttpResponse :=
  if response.status = 429 then { response with retryAfter := some V.retryAfter } else response

/-- `protobuf_error`. -/
def protobufError (status : ℕ) (e : CoreError) : HttpResponse :=
  ⟨status, .errorDetail ⟨e.code, e.toText, "", ""⟩, none⟩

/-- An error as JSON or as protobuf. -/
def errorResponse (protobuf : Bool) (status : ℕ) (e : CoreError) : HttpResponse :=
  if protobuf then protobufError status e else ⟨status, .error e, none⟩

/-- The response to a request that gets no further than the dispatch. -/
def rejectionResponse : WriteRejection → HttpResponse
  | .protobuf status detail => ⟨status, .errorDetail detail, none⟩
  | .json status e => ⟨status, .error e, none⟩

/-- `auth_error`. -/
def authError (protobuf : Bool) (detail : String) : HttpResponse :=
  if protobuf then ⟨401, .errorDetail ⟨"UNAUTHORIZED", detail, "", ""⟩, none⟩
  else ⟨401, .error (.internal detail), none⟩

/-- `map_core_error`. -/
def mapCoreError (e : CoreError) : GrpcError :=
  match e with
  | .queueFull _ | .outboxBacklog .. => .status ⟨.resourceExhausted, e.toText⟩ (some V.retryAfter)
  | .storeNotFound _ => .status ⟨.notFound, e.toText⟩ none
  | .writeRejected .. => .status ⟨.invalidArgument, e.toText⟩ none
  | .permissionDenied .. => .permissionDenied e.toText
  | .internal _ => .status ⟨.internal, e.toText⟩ none

/-! ### Writes -/

/-- `pb::WriteResponse` of an acknowledgement. -/
def ackToPb (ack : AckResponse) : PbWriteResponse where
  status := if ack.status = "APPLIED" then "COMMITTED" else ack.status
  store := ack.store
  idempotencyKey := ack.idempotencyKey
  message := ack.message.getD ""

/-- The response of `write_dispatch` to the result of `submit_write`. -/
def writeView (protobuf : Bool) : SubmitResult → HttpResponse
  | .ack status ack => ⟨status, if protobuf then .writeResponse (ackToPb ack) else .ack ack, none⟩
  | .error status e => withRetryAfter V (errorResponse protobuf status e)

/-- `write_dispatch`, with the identity of the caller. -/
def write (identity : Option AuthIdentity) (request : WriteRequest) : Handler HttpResponse :=
  match writeDispatch { V.codecs with identity := identity } request with
  | .error rejection => .ret (rejectionResponse rejection)
  | .ok envelope => writeView V request.isProtobuf <$> submitWrite V.state envelope

/-- The response of `WriteService` to the result of `submit_write`. -/
def grpcWriteView : SubmitResult → Except GrpcError PbWriteResponse
  | .ack _ ack => .ok (ackToPb ack)
  | .error _ e => .error (mapCoreError V e)

/-- The message of `PERMISSION_DENIED`. -/
def notAuthorized (store : String) : String := "API key is not authorized for store " ++ store

/-- `WriteService::write`. -/
def grpcWrite (identity : Option AuthIdentity) (message : Option PbWriteEnvelope) :
    Handler (Except GrpcError PbWriteResponse) :=
  match message with
  | none => .ret (.error (.status ⟨.invalidArgument, "envelope is required"⟩ none))
  | some message =>
    match writeEnvelopeFromPb V.codecs.deps message with
    | .error status => .ret (.error (.status status none))
    | .ok envelope =>
      if storeIsAuthorized identity envelope.store then
        grpcWriteView V <$> submitWrite V.state envelope
      else .ret (.error (.permissionDenied (notAuthorized envelope.store)))

/-! ### The status of a write -/

/-- `write_status_handler`, with the status of an error. -/
def writeStatusHandler (store idempotencyKey : String) : Handler (Except (ℕ × CoreError) WriteStatus) :=
  match V.state.dbPathFor store with
  | none => .ret (.error (503, .internal "no database configured for status queries"))
  | some dbPath =>
    .ask (.status dbPath store idempotencyKey) fun
      | .ok status => .ret (.ok status)
      | .error detail => .ret (.error (500, .internal detail))

/-- The status as protobuf, as `write_status_dispatch` makes it from the JSON. -/
def statusToPb : WriteStatus → PbStatusResponse
  | .pending store idempotencyKey => ⟨6, store, idempotencyKey, ""⟩
  | .applied idempotencyKey store entity key version appliedAt =>
    ⟨2, store, idempotencyKey,
      if entity = "" then ""
      else "APPLIED " ++ entity ++ "/" ++ key ++ " v" ++ toString version.toNat ++ " at " ++ appliedAt⟩

/-- `forbidden_store_response`. -/
def forbidden (protobuf : Bool) (store : String) : HttpResponse :=
  if protobuf then ⟨403, .errorDetail ⟨"PERMISSION_DENIED", notAuthorized store, store, ""⟩, none⟩
  else ⟨403, .error (forbiddenStore store), none⟩

/-- `write_status_dispatch`; `protobuf` is `wants_protobuf` of its headers. -/
def writeStatus (identity : Option AuthIdentity) (protobuf : Bool) (store idempotencyKey : String) :
    Handler HttpResponse :=
  if storeIsAuthorized identity store then
    writeStatusHandler V store idempotencyKey >>= fun
      | .ok status =>
        .ret ⟨200, if protobuf then .statusResponse (statusToPb status) else .status status, none⟩
      | .error (code, e) => .ret (errorResponse protobuf code e)
  else .ret (forbidden protobuf store)

/-- The status as gRPC gives it. -/
def grpcStatusView : WriteStatus → PbStatusResponse
  | .pending store idempotencyKey => ⟨6, store, idempotencyKey, "PENDING"⟩
  | .applied idempotencyKey store entity key version appliedAt =>
    ⟨2, store, idempotencyKey,
      "APPLIED " ++ entity ++ "/" ++ key ++ " v" ++ toString version.toNat ++ " at " ++ appliedAt⟩

/-- `WriteService::get_write_status`. -/
def grpcWriteStatus (identity : Option AuthIdentity) (store idempotencyKey : String) :
    Handler (Except GrpcError PbStatusResponse) :=
  if store = "" ∨ idempotencyKey = "" then
    .ret (.error (.status ⟨.invalidArgument, "store and idempotency_key are required"⟩ none))
  else if storeIsAuthorized identity store then
    match V.state.dbPathFor store with
    | none => .ret (.error (.unavailable "store database is not configured"))
    | some dbPath =>
      .ask (.status dbPath store idempotencyKey) fun
        | .ok status => .ret (.ok (grpcStatusView status))
        | .error detail => .ret (.error (.status ⟨.internal, detail⟩ none))
  else .ret (.error (.permissionDenied (notAuthorized store)))

/-! ### Reads -/

/-- The modes in which `read_handler` fills the cache after a miss. -/
def fills : Cache.ReadMode → Bool
  | .socket => true
  | .direct => true
  | .mqtt => false

/-- `read_handler`. -/
def readProgram (params : ReadQuery) : Handler (Except (ℕ × CoreError) ReadResult) :=
  match readTarget params with
  | .error e => .ret (.error (400, e))
  | .ok (.projection projection key) =>
    .ask (.cached (.projection projection key)) fun cached =>
      match cacheHit V.codecs.deps cached with
      | some value => .ret (.ok (.projectionFound projection key value))
      | none => .ret (.ok (.projectionNotFound projection key))
  | .ok (.entity store entity key) =>
    .ask (.cached (.entity store entity key)) fun cached =>
      match cacheHit V.codecs.deps cached with
      | some value => .ret (.ok (.found store entity key .cache value))
      | none =>
        match V.state.dbPathFor store with
        | none => .ret (.error (503, .internal "no database configured for reads"))
        | some dbPath =>
          .ask (.select dbPath store entity key) fun
            | .error detail => .ret (.error (500, .internal detail))
            | .ok none => .ret (.ok (fromRow V.codecs.deps store entity key none))
            | .ok (some bytes) =>
              if fills V.state.cacheReadMode then
                .ask (.fill store entity key bytes) fun _ =>
                  .ret (.ok (fromRow V.codecs.deps store entity key (some bytes)))
              else .ret (.ok (fromRow V.codecs.deps store entity key (some bytes)))

/-- A field of a document that is a string, or else the empty one. -/
def textOf (value : Json) (field : String) : String := (value.getStr field).getD ""

/-- `read_response_from_json`. -/
def readResponseFromJson (value : Json) : Except Status PbReadResponse := do
  let payload ← match value.get? "payload" with
    | some payload => some <$> jsonToStruct payload
    | none => .ok none
  return {
    found := match value.get? "found" with
      | some (.bool found) => found
      | _ => false
    store := textOf value "store"
    entity := textOf value "entity"
    key := textOf value "key"
    version := (value.getU64 "version").getD 0
    payload := payload
    projection := textOf value "projection"
    source := textOf value "source" }

/-- The response to the result of `read_handler`. -/
def readView (protobuf : Bool) : Except (ℕ × CoreError) ReadResult → HttpResponse
  | .ok result =>
    if protobuf then
      match readResponseFromJson result.toJson with
      | .ok response => ⟨200, .readResponse response, none⟩
      | .error status => ⟨500, .errorDetail ⟨"INTERNAL", status.message, "", ""⟩, none⟩
    else ⟨200, .json result.toJson, none⟩
  | .error (status, e) => errorResponse protobuf status e

/-- `authorize_read` with its response. -/
def forbiddenRead (identity : Option AuthIdentity) (protobuf : Bool) (params : ReadQuery) :
    Option HttpResponse :=
  (authorizeRead identity params).map fun
    | .permissionDenied store _ => forbidden protobuf store
    | e => ⟨403, .error e, none⟩

/-- `read_dispatch`; `protobuf` is `wants_protobuf` of its headers. -/
def read (identity : Option AuthIdentity) (protobuf : Bool) (params : ReadQuery) :
    Handler HttpResponse :=
  match forbiddenRead identity protobuf params with
  | some response => .ret response
  | none => readView protobuf <$> readProgram V params

/-- `read_protobuf_dispatch`; `wantsProtobuf` of its headers decides about a denial only. -/
def readProtobuf (identity : Option AuthIdentity) (wantsProtobuf : Bool) (body : Bytes) :
    Handler HttpResponse :=
  match V.decodeReadRequest body with
  | .error text => .ret ⟨400, .errorDetail ⟨"INVALID_ARGUMENT", text, "", ""⟩, none⟩
  | .ok request =>
    match forbiddenRead identity wantsProtobuf request.toQuery with
    | some response => .ret response
    | none => readView true <$> readProgram V request.toQuery

/-- The response of `ReadService` to the result of `read_handler`. -/
def grpcReadView : Except (ℕ × CoreError) ReadResult → Except GrpcError PbReadResponse
  | .ok result => (readResponseFromJson result.toJson).mapError fun status => .status status none
  | .error (_, e) => .error (mapCoreError V e)

/-- `ReadService::read`. -/
def grpcReadRequest (identity : Option AuthIdentity) (request : ReadRequest) :
    Handler (Except GrpcError PbReadResponse) :=
  match grpcAuthorizeRead identity request with
  | some message => .ret (.error (.permissionDenied message))
  | none => grpcReadView V <$> readProgram V request.toQuery

/-! ### Subscriptions -/

/-- The configuration of the stream. -/
def Server.stream : EventStream.Config where
  capacity := V.capacity
  hasDatabase store := (V.state.dbPathFor store).isSome
  errorText := V.errorText

/-- `EventService::subscribe_events`, up to the start of its task: the database and the cursor that the
task fetches from. -/
def subscribeEvents (identity : Option AuthIdentity) (request : EventStream.Request) :
    Handler (Except GrpcError (String × ℕ)) :=
  if request.store = "" then
    .ret (.error (.status ⟨.invalidArgument, "store is required"⟩ none))
  else if storeIsAuthorized identity request.store then
    if request.afterOutboxSeq < 0 then
      .ret (.error (.status ⟨.invalidArgument, "after_outbox_seq cannot be negative"⟩ none))
    else
      match V.state.dbPathFor request.store with
      | none => .ret (.error (.status ⟨.notFound, "store database is not configured"⟩ none))
      | some dbPath =>
        if request.afterOutboxSeq > 0 then
          .ask (.cursor dbPath request.store request.afterOutboxSeq.toNat) fun
            | .error detail => .ret (.error (.status ⟨.internal, detail⟩ none))
            | .ok (some message) => .ret (.error (.status ⟨.outOfRange, message⟩ none))
            | .ok none => .ret (.ok (dbPath, request.afterOutboxSeq.toNat))
        else .ret (.ok (dbPath, 0))
  else .ret (.error (.permissionDenied (notAuthorized request.store)))

/-! ### The server -/

/-- The requests, with their credentials.  Where only `wants_protobuf` is read of the headers, it stands
for them. -/
inductive Request where
  /-- `POST /write`. -/
  | write (authorization : Option String) (request : WriteRequest)
  /-- `GET /writes/{store}/{idempotency_key}`. -/
  | writeStatus (authorization : Option String) (protobuf : Bool) (store idempotencyKey : String)
  /-- `GET /read`. -/
  | read (authorization : Option String) (protobuf : Bool) (params : ReadQuery)
  /-- `POST /read`. -/
  | readProtobuf (authorization : Option String) (wantsProtobuf : Bool) (body : Bytes)
  | grpcWrite (xApiKey : Option String) (message : Option PbWriteEnvelope)
  | grpcWriteStatus (xApiKey : Option String) (store idempotencyKey : String)
  | grpcRead (xApiKey : Option String) (request : ReadRequest)
  | subscribeEvents (xApiKey : Option String) (request : EventStream.Request)

/-- What the client gets. -/
inductive Response where
  | http (response : HttpResponse)
  | grpcWrite (result : Except GrpcError PbWriteResponse)
  | grpcWriteStatus (result : Except GrpcError PbStatusResponse)
  | grpcRead (result : Except GrpcError PbReadResponse)
  | subscribed (result : Except GrpcError (String × ℕ))

/-- A route behind `require_auth`. -/
def protectedRoute (authorization : Option String) (protobuf : Bool)
    (handler : Option AuthIdentity → Handler HttpResponse) : Handler Response :=
  match requireAuth V.auth authorization with
  | .error detail => .ret (.http (authError protobuf detail))
  | .ok identity => .http <$> handler identity

/-- A method that begins with `auth`. -/
def authenticated {β : Type} (xApiKey : Option String)
    (handler : Option AuthIdentity → Handler (Except GrpcError β)) : Handler (Except GrpcError β) :=
  match grpcAuth V.auth xApiKey with
  | .error message => .ret (.error (.unauthenticated message))
  | .ok identity => handler identity

/-- What the server does with a request. -/
def serve : Request → Handler Response
  | .write authorization request =>
    protectedRoute V authorization request.wantsProtobuf fun identity => write V identity request
  | .writeStatus authorization protobuf store idempotencyKey =>
    protectedRoute V authorization protobuf fun identity =>
      writeStatus V identity protobuf store idempotencyKey
  | .read authorization protobuf params =>
    protectedRoute V authorization protobuf fun identity => read V identity protobuf params
  | .readProtobuf authorization wantsProtobuf body =>
    protectedRoute V authorization wantsProtobuf fun identity =>
      readProtobuf V identity wantsProtobuf body
  | .grpcWrite xApiKey message =>
    .grpcWrite <$> authenticated V xApiKey fun identity => grpcWrite V identity message
  | .grpcWriteStatus xApiKey store idempotencyKey =>
    .grpcWriteStatus <$> authenticated V xApiKey fun identity =>
      grpcWriteStatus V identity store idempotencyKey
  | .grpcRead xApiKey request =>
    .grpcRead <$> authenticated V xApiKey fun identity => grpcReadRequest V identity request
  | .subscribeEvents xApiKey request =>
    .subscribed <$> authenticated V xApiKey fun identity => subscribeEvents V identity request

/-! ### The two models of a read -/

/-- The answers of a cache and of databases that do not change. -/
def answersOf (env : ReadEnv) : ∀ q, Answer q
  | .backlog _ => none
  | .allow _ => true
  | .uuid => ""
  | .publish _ => .sent
  | .status _ store idempotencyKey => .ok (.pending store idempotencyKey)
  | .deadline => true
  | .cached target => env.cached target
  | .select _ store entity key => (env.select store entity key).getD (.ok none)
  | .fill .. => ()
  | .cursor .. => .ok none

/-- `read_handler` step by step finds what `readHandler` finds. -/
theorem eval_readProgram (env : ReadEnv)
    (henv : ∀ store entity key, (env.select store entity key).isSome = (V.state.dbPathFor store).isSome)
    (params : ReadQuery) :
    (readProgram V params).eval (answersOf env) = readHandler V.codecs.deps env params := by
  unfold readProgram readHandler
  cases readTarget params with
  | error e => rfl
  | ok target =>
    cases target with
    | projection projection key =>
      simp only [Prog.eval, answersOf]
      cases cacheHit V.codecs.deps (env.cached (.projection projection key)) <;> rfl
    | entity store entity key =>
      simp only [Prog.eval, answersOf]
      cases cacheHit V.codecs.deps (env.cached (.entity store entity key)) with
      | some value => rfl
      | none =>
        have hselect := henv store entity key
        cases hpath : V.state.dbPathFor store with
        | none =>
          rw [hpath, Option.isSome_none, Option.isSome_eq_false_iff, Option.isNone_iff_eq_none] at hselect
          rw [hselect]
          rfl
        | some dbPath =>
          rw [hpath, Option.isSome_some, Option.isSome_iff_exists] at hselect
          obtain ⟨row, hrow⟩ := hselect
          simp only [Prog.eval, answersOf, hrow, Option.getD_some]
          rcases row with _ | _ | bytes
          · rfl
          · rfl
          · cases fills V.state.cacheReadMode <;> rfl

end Api

end Ixmati
