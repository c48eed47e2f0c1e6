import Ixmati.Core.Document
import Ixmati.Lib.Exec
import Ixmati.Writer.Outbox

/-!
# Protobuf messages

The part of `grpc.rs` that turns stored documents into protobuf: `json_to_struct`, which makes a
`google.protobuf.Struct` of a JSON object, and `event_from_row`, which makes an event of a row of
`_outbox`.  `as_f64` never refuses a number, so a document can be converted exactly when it is an
object (`jsonToStruct_ok_iff`).

The other way round, `write_envelope_from_pb` reads a command from a message.  It accepts only payloads
that are objects (`isObject_of_writeEnvelopeFromPb`).
-/

namespace Ixmati

/-! ### Numbers -/

/-- `n as f64`: the nearest float, and of two the one with the even significand. -/
def F64.ofNat (n : ℕ) : F64 :=
  if n = 0 then ⟨0⟩
  else
    let e := n.log2
    let significand :=
      if e ≤ 52 then n * 2 ^ (52 - e)
      else
        let ulp := 2 ^ (e - 52)
        let q := n / ulp
        let twice := 2 * (n % ulp)
        if twice < ulp then q else if ulp < twice then q + 1 else q + q % 2
    -- a significand that was rounded up to the next power of two carries into the exponent
    ⟨UInt64.ofNat ((e + 1023) * 2 ^ 52 + (significand - 2 ^ 52))⟩

/-- The same number with the sign bit set. -/
def F64.negate (x : F64) : F64 := ⟨x.bits ||| 0x8000000000000000⟩

/-- `serde_json::Number::as_f64`. -/
def Number.asF64 : Number → Option F64
  | .posInt n => some (F64.ofNat n.toNat)
  | .negInt n => some (F64.ofNat n.toInt.natAbs).negate
  | .float x => some x

-- 1, the first integer that is not a float, and -3
example : F64.ofNat 1 = ⟨0x3FF0000000000000⟩ ∧ F64.ofNat (2 ^ 53 + 1) = F64.ofNat (2 ^ 53) ∧
    Number.asF64 (.negInt (-3)) = some ⟨0xC008000000000000⟩ := by
  decide

/-! ### `google.protobuf.Struct` -/

/-- `tonic::Code`, as far as it is used. -/
inductive Code where
  | invalidArgument
  | notFound
  | outOfRange
  | resourceExhausted
  | internal
  deriving DecidableEq

/-- `tonic::Status`. -/
structure Status where
  code : Code
  message : String
  deriving DecidableEq

/-- `google.protobuf.Value`, by its `kind`. -/
inductive PbValue where
  /-- No kind at all. -/
  | empty
  | null (n : Int32)
  | number (x : F64)
  | string (s : String)
  | bool (b : Bool)
  /-- The fields of the struct, in key order. -/
  | struct (fields : List (String × PbValue))
  | list (values : List PbValue)

/-- `google.protobuf.Struct`; a `BTreeMap` lists its fields in key order. -/
structure Struct where
  fields : List (String × PbValue)

mutual

/-- `json_to_pb_value`. -/
def jsonToPbValue : Json → Except Status PbValue
  | .null => .ok (.null 0)
  | .bool b => .ok (.bool b)
  | .number n =>
    match n.asF64 with
    | some x => .ok (.number x)
    | none => .error ⟨.internal, "JSON number cannot be represented as f64"⟩
  | .string s => .ok (.string s)
  | .array items => do return .list (← jsonToPbValues items)
  | .object fields => do return .struct (← jsonToPbFields fields)

/-- The items of an array. -/
def jsonToPbValues : List Json → Except Status (List PbValue)
  | [] => .ok []
  | x :: xs => do return (← jsonToPbValue x) :: (← jsonToPbValues xs)

/-- The fields of an object: `serde_json` keeps them in key order, as a `Struct` does. -/
def jsonToPbFields : List (String × Json) → Except Status (List (String × PbValue))
  | [] => .ok []
  | (k, x) :: xs => do return (k, ← jsonToPbValue x) :: (← jsonToPbFields xs)

end

/-- `json_to_struct`. -/
def jsonToStruct : Json → Except Status Struct
  | .object fields => do return ⟨← jsonToPbFields fields⟩
  | _ => .error ⟨.internal, "stored payload is not a JSON object"⟩

/-- Is the document an object? -/
def Json.isObject : Json → Bool
  | .object _ => true
  | _ => false

mutual

theorem jsonToPbValue_ok : ∀ j, ∃ v, jsonToPbValue j = .ok v
  | .null => ⟨_, rfl⟩
  | .bool _ => ⟨_, rfl⟩
  | .number (.posInt _) => ⟨_, rfl⟩
  | .number (.negInt _) => ⟨_, rfl⟩
  | .number (.float _) => ⟨_, rfl⟩
  | .string _ => ⟨_, rfl⟩
  | .array items => by
    obtain ⟨vs, hvs⟩ := jsonToPbValues_ok items
    exact ⟨.list vs, except_bind_ok.2 ⟨vs, hvs, rfl⟩⟩
  | .object fields => by
    obtain ⟨vs, hvs⟩ := jsonToPbFields_ok fields
    exact ⟨.struct vs, except_bind_ok.2 ⟨vs, hvs, rfl⟩⟩

theorem jsonToPbValues_ok : ∀ js, ∃ vs, jsonToPbValues js = .ok vs
  | [] => ⟨_, rfl⟩
  | x :: xs => by
    obtain ⟨v, hv⟩ := jsonToPbValue_ok x
    obtain ⟨vs, hvs⟩ := jsonToPbValues_ok xs
    exact ⟨v :: vs, except_bind_ok.2 ⟨v, hv, except_bind_ok.2 ⟨vs, hvs, rfl⟩⟩⟩

theorem jsonToPbFields_ok : ∀ fields, ∃ vs, jsonToPbFields fields = .ok vs
  | [] => ⟨_, rfl⟩
  | (k, x) :: xs => by
    obtain ⟨v, hv⟩ := jsonToPbValue_ok x
    obtain ⟨vs, hvs⟩ := jsonToPbFields_ok xs
    exact ⟨(k, v) :: vs, except_bind_ok.2 ⟨v, hv, except_bind_ok.2 ⟨vs, hvs, rfl⟩⟩⟩

end

/-- A document becomes a struct exactly when it is an object. -/
theorem jsonToStruct_ok_iff (j : Json) : (∃ v, jsonToStruct j = .ok v) ↔ j.isObject = true := by
  cases j with
  | object fields => exact iff_of_true (exists_except_map_ok.2 (jsonToPbFields_ok fields)) rfl
  | _ => simp [jsonToStruct, Json.isObject]

/-! ### Commands -/

/-- Neither infinite nor `NaN`. -/
def F64.isFinite (x : F64) : Bool := x.bits &&& 0x7FF0000000000000 != 0x7FF0000000000000

/-- `serde_json::Number::from_f64`. -/
def Number.fromF64 (x : F64) : Option Number := if x.isFinite then some (.float x) else none

mutual

/-- `pb_value_to_json`. -/
def pbValueToJson : PbValue → Except Status Json
  | .null _ => .ok .null
  | .number x =>
    match Number.fromF64 x with
    | some n => .ok (.number n)
    | none => .error ⟨.invalidArgument, "payload contains a non-finite number"⟩
  | .string s => .ok (.string s)
  | .bool b => .ok (.bool b)
  | .struct fields => do return .object (← pbFieldsToJson fields [])
  | .list values => do return .array (← pbValuesToJson values)
  | .empty => .error ⟨.invalidArgument, "payload contains an empty value"⟩

/-- The fields of a struct, which are inserted one by one. -/
def pbFieldsToJson : List (String × PbValue) → List (String × Json) →
    Except Status (List (String × Json))
  | [], object => .ok object
  | (k, v) :: fields, object => do
    pbFieldsToJson fields (Json.insertField k (← pbValueToJson v) object)

/-- The values of a list. -/
def pbValuesToJson : List PbValue → Except Status (List Json)
  | [] => .ok []
  | v :: vs => do return (← pbValueToJson v) :: (← pbValuesToJson vs)

end

/-- `struct_to_json`. -/
def structToJson : Option Struct → Except Status Json
  | none => .error ⟨.invalidArgument, "payload is required"⟩
  | some value => do return .object (← pbFieldsToJson value.fields [])

/-- `pb::WriteEnvelope`. -/
structure PbWriteEnvelope where
  op : String
  store : String
  entity : String
  key : String
  version : UInt64
  ts : String
  idempotencyKey : String
  ackMode : String
  payloadBytes : Bytes
  payload : Option Struct

/-- The payload of a message, from the struct or else from the bytes. -/
def PbWriteEnvelope.readPayload (D : Deps) (envelope : PbWriteEnvelope) : Except Status Json :=
  if envelope.payload.isSome then structToJson envelope.payload
  else if envelope.payloadBytes ≠ [] then
    match D.fromSlice envelope.payloadBytes with
    | some payload => .ok payload
    | none => .error ⟨.invalidArgument, "payload_bytes is not valid JSON"⟩
  else .error ⟨.invalidArgument, "payload is required"⟩

/-- `write_envelope_from_pb`. -/
def writeEnvelopeFromPb (D : Deps) (envelope : PbWriteEnvelope) : Except Status WriteEnvelope := do
  let payload ← envelope.readPayload D
  if payload.isObject = false then .error ⟨.invalidArgument, "payload must be a JSON object"⟩
  else if envelope.store = "" ∨ envelope.entity = "" ∨ envelope.key = "" ∨ envelope.op = "" ∨
      envelope.idempotencyKey = "" then
    .error ⟨.invalidArgument, "op, store, entity, key and idempotency_key are required"⟩
  else
    .ok {
      op := envelope.op
      store := envelope.store
      entity := envelope.entity
      key := envelope.key
      version := envelope.version
      ts := envelope.ts
      idempotencyKey := envelope.idempotencyKey
      ackMode := envelope.ackMode
      payload := payload }

/-- A command from a message has an object for payload. -/
theorem isObject_of_writeEnvelopeFromPb {D : Deps} {message : PbWriteEnvelope} {e : WriteEnvelope}
    (h : writeEnvelopeFromPb D message = .ok e) : e.payload.isObject = true := by
  unfold writeEnvelopeFromPb at h
  obtain ⟨payload, -, h⟩ := except_bind_ok.1 h
  split_ifs at h with hobj hreq
  cases h
  simpa using hobj

/-! ### Events -/

/-- `pb::EventEnvelope`. -/
structure PbEvent where
  eventId : String
  eventType : String
  store : String
  entity : String
  key : String
  version : UInt64
  occurredAt : String
  outboxSeq : UInt64
  payload : Option Struct
  payloadBytes : Bytes

/-- Why `fetch_events` fails. -/
inductive FetchError where
  /-- `FromSqlConversionFailure` of a column. -/
  | conversion (column : ℕ) (cause : Status)
  /-- Any other error of SQLite. -/
  | sqlite (text : String)

/-- The payload of the event in a row; what cannot be read, or has no payload, gives `{}`. -/
def eventPayload (D : Deps) (r : OutboxEntry) : Json :=
  (((D.fromSlice r.payload).getD .null).get? "payload").getD (.object [])

/-- `event_from_row`. -/
def eventFromRow (D : Deps) (r : OutboxEntry) : Except FetchError PbEvent :=
  match jsonToStruct (eventPayload D r) with
  | .ok payload =>
    .ok {
      eventId := r.eventId
      eventType := r.eventType
      store := r.store
      entity := r.entity
      key := r.key
      version := r.version.toUInt64
      occurredAt := r.occurredAt
      outboxSeq := UInt64.ofNat r.id
      payload := some payload
      payloadBytes := [] }
  | .error cause => .error (.conversion 8 cause)

/-- A row can be delivered exactly when the payload of its event is an object. -/
theorem eventFromRow_ok_iff (D : Deps) (r : OutboxEntry) :
    (∃ e, eventFromRow D r = .ok e) ↔ (eventPayload D r).isObject = true := by
  rw [← jsonToStruct_ok_iff, eventFromRow]
  cases jsonToStruct (eventPayload D r) <;> simp

theorem eventId_of_eventFromRow {D : Deps} {r : OutboxEntry} {e : PbEvent}
    (h : eventFromRow D r = .ok e) : e.eventId = r.eventId := by
  unfold eventFromRow at h
  split at h
  · cases h
    rfl
  · cases h

end Ixmati
