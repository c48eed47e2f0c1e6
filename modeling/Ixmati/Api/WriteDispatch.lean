import Ixmati.Api.EventStream
import Ixmati.System.Step

/-!
# Accepted commands and deliverable events

`write_dispatch` of `rest.rs` takes a command as JSON or as protobuf, by the content type of the
request.  The protobuf way asks for an object as payload, the JSON way takes any document.  The payload
goes unchanged into the event of the command, and `event_from_row` cannot turn an event into protobuf
whose payload is not an object.

One row that cannot be delivered makes `fetch_events` fail for every page that it is on
(`fetchEvents_ok_iff`), so the event stream of a store works exactly as long as no JSON request with
another payload is applied (`deliverable_iff`).
-/

namespace Ixmati

open Ixmati.System
open WriteEngine

/-! ### The request -/

/-- The headers and the body of a request, as far as `write_dispatch` reads them. -/
structure WriteRequest where
  contentType : Option String
  accept : Option String
  body : Bytes

/-- The rest of the API: the decoders of third-party crates, and the caller's key. -/
structure Codecs where
  deps : Deps
  /-- `serde_json::from_slice::<WriteEnvelope>`, or the text of the error. -/
  readEnvelope : Bytes → Except String WriteEnvelope
  /-- `pb::WriteRequest::decode`, or the text of the error, and the envelope in the message. -/
  decodeWriteRequest : Bytes → Except String (Option PbWriteEnvelope)
  /-- The identity of the caller, if keys are asked for. -/
  identity : Option AuthIdentity

/-- `pb::ErrorDetail`. -/
structure ErrorDetail where
  error : String
  detail : String
  store : String
  idempotencyKey : String
  deriving DecidableEq

/-- The answer to a request that is not handed to `submit_write`. -/
inductive WriteRejection where
  | protobuf (status : ℕ) (detail : ErrorDetail)
  | json (status : ℕ) (error : CoreError)
  deriving DecidableEq

/-- `value.starts_with(PROTOBUF_CONTENT_TYPE)`. -/
def startsWithProtobuf (value : List Char) : Bool := "application/protobuf".toList.isPrefixOf value

/-- The content type selects the protobuf way. -/
def WriteRequest.isProtobuf (r : WriteRequest) : Bool :=
  (r.contentType.map fun value => startsWithProtobuf value.toList).getD false

/-- `wants_protobuf`. -/
def WriteRequest.wantsProtobuf (r : WriteRequest) : Bool :=
  ([r.accept, r.contentType].filterMap id).any fun value =>
    (value.toList.splitOn ',').any fun item => startsWithProtobuf (trim item)

/-- `forbidden_store_response`. -/
def forbiddenStoreResponse (r : WriteRequest) (store : String) : WriteRejection :=
  let detail := "API key is not authorized for store " ++ store
  if r.wantsProtobuf then .protobuf 403 ⟨"PERMISSION_DENIED", detail, store, ""⟩
  else .json 403 (.permissionDenied store detail)

/-- The answer to a message that cannot be used. -/
def invalidArgument (detail : String) : WriteRejection :=
  .protobuf 400 ⟨"INVALID_ARGUMENT", detail, "", ""⟩

/-- The command in a protobuf body. -/
def readProtobuf (X : Codecs) (body : Bytes) : Except WriteRejection WriteEnvelope :=
  match X.decodeWriteRequest body with
  | .error text => .error (invalidArgument text)
  | .ok none => .error (invalidArgument "envelope is required")
  | .ok (some message) => (writeEnvelopeFromPb X.deps message).mapError fun e => invalidArgument e.message

/-- The command in a JSON body. -/
def readJson (X : Codecs) (body : Bytes) : Except WriteRejection WriteEnvelope :=
  (X.readEnvelope body).mapError fun text => .json 400 (.internal text)

/-- `write_dispatch` up to its call of `submit_write`. -/
def writeDispatch (X : Codecs) (r : WriteRequest) : Except WriteRejection WriteEnvelope := do
  let envelope ← if r.isProtobuf then readProtobuf X r.body else readJson X r.body
  if storeIsAuthorized X.identity envelope.store then .ok envelope
  else .error (forbiddenStoreResponse r envelope.store)

/-- A request that was accepted, and the command that the writer reads from the message that
`submit_write` published for it. -/
structure Accepted (X : Codecs) where
  request : WriteRequest
  envelope : WriteEnvelope
  /-- `Uuid::new_v4()` of `submit_write`. -/
  uuid : String
  cmd : WriteEnvelope
  dispatched : writeDispatch X request = .ok envelope
  received : X.readEnvelope (X.deps.toVec (commandOf envelope uuid).toJson) = .ok cmd

/-- The protobuf way accepts only payloads that are objects. -/
theorem Accepted.isObject_of_isProtobuf {X : Codecs} (a : Accepted X)
    (hpb : a.request.isProtobuf = true) : a.envelope.payload.isObject = true := by
  have h := a.dispatched
  unfold writeDispatch at h
  rw [if_pos hpb] at h
  obtain ⟨envelope, hread, h⟩ := except_bind_ok.1 h
  simp only at h
  split_ifs at h
  cases h
  unfold readProtobuf at hread
  split at hread
  · cases hread
  · cases hread
  · rename_i message _
    cases hmsg : writeEnvelopeFromPb X.deps message with
    | error e => simp [hmsg, Except.mapError] at hread
    | ok e =>
      simp only [hmsg, Except.mapError, Except.ok.injEq] at hread
      rw [← hread]
      exact isObject_of_writeEnvelopeFromPb hmsg

/-! ### Delivery -/

open EventStream

theorem exists_mapM_ok_iff {α β ε : Type} {f : α → Except ε β} (l : List α) :
    (∃ ys, l.mapM f = .ok ys) ↔ ∀ x ∈ l, ∃ y, f x = .ok y := by
  induction l with
  | nil => simp [pure, Except.pure]
  | cons x l ih =>
    rw [List.mapM_cons, List.forall_mem_cons, ← ih]
    cases f x with
    | error e => simp [bind, Except.bind]
    | ok y => cases l.mapM f <;> simp [bind, Except.bind, pure, Except.pure]

/-- A page can be fetched exactly when all rows on it can be delivered. -/
theorem fetchEvents_ok_iff (D : Deps) (rows : List OutboxEntry) (q : Request) (cursor limit : ℕ) :
    (∃ page, fetchEvents D rows q cursor limit = .ok page) ↔
      ∀ r ∈ (beyond (·.id) cursor (matching q rows)).take limit, (eventPayload D r).isObject = true := by
  unfold fetchEvents
  rw [exists_mapM_ok_iff]
  refine forall₂_congr fun r _ => ?_
  rw [← eventFromRow_ok_iff]
  cases eventFromRow D r <;> simp [bind, Except.bind, pure, Except.pure]

/-- `fetch_events` succeeds for every store, filter, cursor and limit. -/
def Deliverable (D : Deps) (rows : List OutboxEntry) : Prop :=
  ∀ q cursor limit, ∃ page, fetchEvents D rows q cursor limit = .ok page

theorem deliverable_rows_iff {D : Deps} {rows : List OutboxEntry} (hid : ∀ r ∈ rows, 0 < r.id) :
    Deliverable D rows ↔ ∀ r ∈ rows, (eventPayload D r).isObject = true := by
  constructor
  · intro h r hr
    -- the page of all rows of its store
    refine (fetchEvents_ok_iff D rows ⟨r.store, "", "", 0⟩ 0 rows.length).1 (h _ _ _) r ?_
    have hmem : r ∈ beyond (·.id) 0 (matching ⟨r.store, "", "", 0⟩ rows) :=
      mem_beyond.2 ⟨mem_matching.2 ⟨hr, by simp [Request.matches]⟩, hid r hr⟩
    rwa [List.take_of_length_le]
    exact ((List.filter_sublist).trans List.filter_sublist).length_le
  · intro h q cursor limit
    rw [fetchEvents_ok_iff]
    intro r hr
    exact h r (mem_matching.1 (mem_beyond.1 (List.mem_of_mem_take hr)).1).1

/-- `serde_json` reads the document of the event, with an object for payload if it was one. -/
def PayloadKept (D : Deps) (e : EventEnvelope) : Prop :=
  ∃ j value, D.fromSlice (D.toVec e.toJson) = some j ∧ j.get? "payload" = some value ∧
    value.isObject = e.payload.isObject

theorem PayloadKept.isObject {D : Deps} {id : ℕ} {e : EventEnvelope}
    (h : PayloadKept D (Outbox.persisted id e)) :
    (eventPayload D (Outbox.stored D id e)).isObject = e.payload.isObject := by
  obtain ⟨j, value, hread, hget, hobj⟩ := h
  have hpayload : eventPayload D (Outbox.stored D id e) = value := by
    show ((Option.getD (D.fromSlice (D.toVec (Outbox.persisted id e).toJson)) .null).get?
      "payload").getD _ = _
    rw [hread, Option.getD_some, hget, Option.getD_some]
  rw [hpayload, hobj]
  rfl

/-- A call of `process_batch` on accepted commands. -/
def batchOf {X : Codecs} (b : (ℕ → Ambient) × List (Accepted X)) : Batch :=
  ⟨b.1, b.2.map (·.cmd)⟩

/-- The command of every iteration was in a batch. -/
theorem mem_commands_of_applied {D : Deps} {store : String} {bs : List Batch} {it : Iteration}
    (hit : it ∈ (History.run D store bs).applied) : ∃ b ∈ bs, it.cmd ∈ b.commands := by
  revert it
  refine History.run_invariant (I := fun h => ∀ {it}, it ∈ h.applied → ∃ b ∈ bs, it.cmd ∈ b.commands)
    (P := fun cmd => ∃ b ∈ bs, cmd ∈ b.commands) (fun b hb cmd hcmd => ⟨b, hb, hcmd⟩)
    (by simp [History.applied]) fun h a cmd db o ih hcmd hok it hit => ?_
  rcases History.extend_cases hok with ⟨-, hlog⟩ | ⟨-, hlog⟩
  · exact ih (hlog ▸ hit)
  · rw [hlog] at hit
    rcases List.mem_append.1 hit with hit | hit
    · exact ih hit
    · rw [List.mem_singleton.1 hit]
      exact hcmd

/-- After every run on accepted commands, `fetch_events` succeeds for every store, filter, cursor and
limit if and only if every JSON request that was applied had an object for payload. -/
theorem deliverable_iff (X : Codecs) (store : String) (bs : List ((ℕ → Ambient) × List (Accepted X)))
    (hcmd : ∀ b ∈ bs, ∀ a ∈ b.2, a.cmd.payload.isObject = a.envelope.payload.isObject)
    (hevent : ∀ i it, (History.run X.deps store (bs.map batchOf)).applied[i]? = some it →
      PayloadKept X.deps (Outbox.persisted (i + 1) (WriteEngine.eventOf it.ambient it.cmd))) :
    Deliverable X.deps (History.run X.deps store (bs.map batchOf)).db.outbox.rows ↔
      ∀ b ∈ bs, ∀ a ∈ b.2, a.request.isProtobuf = false →
        (∃ it ∈ (History.run X.deps store (bs.map batchOf)).applied, it.cmd = a.cmd) →
        a.envelope.payload.isObject = true := by
  have hrows := (History.journaled_run X.deps store (bs.map batchOf)).outbox
  have hcmds : ∀ it ∈ (History.run X.deps store (bs.map batchOf)).applied,
      ∃ b ∈ bs, ∃ a ∈ b.2, a.cmd = it.cmd := by
    intro it hit
    obtain ⟨_, hbatch, hmem⟩ := mem_commands_of_applied hit
    obtain ⟨b, hb, rfl⟩ := List.mem_map.1 hbatch
    obtain ⟨a, ha, heq⟩ := List.mem_map.1 hmem
    exact ⟨b, hb, a, ha, heq⟩
  generalize History.run X.deps store (bs.map batchOf) = h at *
  -- a row is an object exactly when the payload of its command is one
  have hrow : ∀ i it, h.applied[i]? = some it →
      (eventPayload X.deps (History.outboxRow X.deps i it)).isObject = it.cmd.payload.isObject :=
    fun i it hi => (hevent i it hi).isObject
  rw [deliverable_rows_iff, hrows]
  · constructor
    · rintro hall b hb a ha - ⟨it, hit, heq⟩
      obtain ⟨i, hi⟩ := List.mem_iff_getElem?.1 hit
      have hmem : History.outboxRow X.deps i it ∈ h.applied.mapIdx (History.outboxRow X.deps) := by
        refine List.mem_iff_getElem?.2 ⟨i, ?_⟩
        rw [List.getElem?_mapIdx, hi]
        rfl
      rw [← hcmd b hb a ha, ← heq, ← hrow i it hi]
      exact hall _ hmem
    · intro hjson r hr
      obtain ⟨i, hi⟩ := List.mem_iff_getElem?.1 hr
      rw [List.getElem?_mapIdx] at hi
      obtain ⟨it, hit, rfl⟩ := Option.map_eq_some_iff.1 hi
      have hmem := List.mem_iff_getElem?.2 ⟨i, hit⟩
      obtain ⟨b, hb, a, ha, heq⟩ := hcmds it hmem
      rw [hrow i it hit, ← heq, hcmd b hb a ha]
      cases hpb : a.request.isProtobuf with
      | true => exact a.isObject_of_isProtobuf hpb
      | false => exact hjson b hb a ha hpb ⟨it, hmem, heq.symm⟩
  · intro r hr
    rw [hrows] at hr
    obtain ⟨i, hi⟩ := List.mem_iff_getElem?.1 hr
    rw [List.getElem?_mapIdx] at hi
    obtain ⟨it, -, rfl⟩ := Option.map_eq_some_iff.1 hi
    exact Nat.succ_pos i

/-! ### Two requests -/

/-- An upsert of `user/1` with the payload. -/
def upsertOf (payload : Json) : WriteEnvelope := { History.sampleUpsert "w-1" 1 with payload := payload }

/-- The event of that upsert in a fresh store. -/
def upsertEvent (payload : Json) : EventEnvelope :=
  Outbox.persisted 1 (WriteEngine.eventOf History.sampleAmbient (upsertOf payload))

/-- Crates that write compact text and read the command and its event back. -/
def upsertCodecs (payload : Json) : Codecs where
  deps := .compact [(upsertEvent payload).toJson] ""
  readEnvelope b :=
    if b = (upsertOf payload).toJson.compact.toUTF8.data.toList then .ok (upsertOf payload)
    else .error "expected value at line 1 column 1"
  decodeWriteRequest _ := .error "failed to decode Protobuf message"
  identity := none

/-- The request `POST /write` with the upsert as JSON. -/
def upsertRequest (payload : Json) : WriteRequest where
  contentType := some "application/json"
  accept := none
  body := (upsertOf payload).toJson.compact.toUTF8.data.toList

theorem dispatched_upsertRequest (payload : Json) :
    writeDispatch (upsertCodecs payload) (upsertRequest payload) = .ok (upsertOf payload) := by
  have hread : readJson (upsertCodecs payload) (upsertRequest payload).body = .ok (upsertOf payload) := by
    simp [readJson, upsertCodecs, upsertRequest, Except.mapError]
  have hpb : (upsertRequest payload).isProtobuf = false := rfl
  unfold writeDispatch
  rw [hpb, if_neg Bool.false_ne_true, hread]
  rfl

theorem received_upsertOf (payload : Json) :
    (upsertCodecs payload).readEnvelope
      ((upsertCodecs payload).deps.toVec (commandOf (upsertOf payload) "").toJson) =
        .ok (upsertOf payload) := by
  have hcommand : commandOf (upsertOf payload) "" = upsertOf payload := rfl
  rw [hcommand]
  generalize hjson : (upsertOf payload).toJson = j
  simp only [upsertCodecs, Deps.compact, hjson, if_true]

/-- The request is accepted, and the writer gets the command as it was sent. -/
def upsertAccepted (payload : Json) : Accepted (upsertCodecs payload) where
  request := upsertRequest payload
  envelope := upsertOf payload
  uuid := ""
  cmd := upsertOf payload
  dispatched := dispatched_upsertRequest payload
  received := received_upsertOf payload

/-- The run of the writer on that command alone. -/
def upsertRun (payload : Json) : List ((ℕ → Ambient) × List (Accepted (upsertCodecs payload))) :=
  [(fun _ => History.sampleAmbient, [upsertAccepted payload])]

/-- A known operation is applied in a fresh store. -/
theorem applied_upsertRun (payload : Json) :
    (History.run (upsertCodecs payload).deps "main" ((upsertRun payload).map batchOf)).applied =
      [⟨ensureSchema "main", History.sampleAmbient, upsertOf payload,
        .committed (eventOf History.sampleAmbient (upsertOf payload))⟩] := by
  have hgets : GetsThrough (ensureSchema "main") (upsertOf payload) := ⟨rfl, rfl, Or.inl rfl⟩
  have hrun : ∃ r, processCommand (upsertCodecs payload).deps History.sampleAmbient
      (ensureSchema "main") (upsertOf payload) = .ok r :=
    processCommand_ok_iff.2
      fun _ => ⟨by simp [ensureSchema, upsertOf, History.sampleUpsert], by decide⟩
  obtain ⟨⟨tx, o⟩, hok⟩ := hrun
  obtain ⟨rfl, -⟩ := hgets.applies hok
  have hbatch : (upsertRun payload).map batchOf =
      [⟨fun _ => History.sampleAmbient, [upsertOf payload]⟩] := rfl
  rw [hbatch, History.run, List.foldl_cons, List.foldl_nil, History.commit, processBatch, processLoop,
    hok]
  simp only [bind, Except.bind, processLoop, History.trace, hok]
  rfl

theorem fromSlice_upsertEvent (payload : Json) :
    (upsertCodecs payload).deps.fromSlice
      ((upsertCodecs payload).deps.toVec (upsertEvent payload).toJson) =
      some (upsertEvent payload).toJson :=
  fromSlice_compact (List.nodup_singleton _) List.mem_cons_self

theorem payloadKept_upsertEvent (payload : Json) (i : ℕ) (it : Iteration)
    (h : (History.run (upsertCodecs payload).deps "main" ((upsertRun payload).map batchOf)).applied[i]? =
      some it) :
    PayloadKept (upsertCodecs payload).deps (Outbox.persisted (i + 1) (eventOf it.ambient it.cmd)) := by
  rw [applied_upsertRun, List.getElem?_singleton] at h
  split_ifs at h with hi
  obtain rfl := hi
  obtain rfl := Option.some.inj h
  exact ⟨_, payload, fromSlice_upsertEvent payload, rfl, rfl⟩

/-- A JSON request with `null` for payload is accepted and applied, and from then on the stream of its
store cannot be read. -/
theorem null_payload_poisons_stream :
    writeDispatch (upsertCodecs .null) (upsertRequest .null) = .ok (upsertOf .null) ∧
    fetchEvents (upsertCodecs .null).deps
      (History.run (upsertCodecs .null).deps "main" ((upsertRun .null).map batchOf)).db.outbox.rows
      ⟨"main", "", "", 0⟩ 0 128 =
        .error (.conversion 8 ⟨.internal, "stored payload is not a JSON object"⟩) ∧
    ¬ Deliverable (upsertCodecs .null).deps
      (History.run (upsertCodecs .null).deps "main" ((upsertRun .null).map batchOf)).db.outbox.rows := by
  have hfetch : fetchEvents (upsertCodecs .null).deps
      (History.run (upsertCodecs .null).deps "main" ((upsertRun .null).map batchOf)).db.outbox.rows
      ⟨"main", "", "", 0⟩ 0 128 =
        .error (.conversion 8 ⟨.internal, "stored payload is not a JSON object"⟩) := by
    rw [(History.journaled_run ..).outbox, applied_upsertRun]
    have hpayload : eventPayload (upsertCodecs .null).deps (Outbox.stored (upsertCodecs .null).deps 1
        (eventOf History.sampleAmbient (upsertOf .null))) = .null := by
      show ((Option.getD ((upsertCodecs .null).deps.fromSlice
        ((upsertCodecs .null).deps.toVec (upsertEvent .null).toJson)) .null).get? "payload").getD _ = _
      rw [fromSlice_upsertEvent]
      rfl
    have hrow : eventFromRow (upsertCodecs .null).deps (Outbox.stored (upsertCodecs .null).deps 1
        (eventOf History.sampleAmbient (upsertOf .null))) =
          .error (.conversion 8 ⟨.internal, "stored payload is not a JSON object"⟩) := by
      rw [eventFromRow, hpayload]
      rfl
    show (List.mapM _ [Outbox.stored (upsertCodecs .null).deps 1
      (eventOf History.sampleAmbient (upsertOf .null))]) = _
    rw [List.mapM_cons, hrow]
    rfl
  refine ⟨(upsertAccepted .null).dispatched, hfetch, fun h => ?_⟩
  obtain ⟨page, hpage⟩ := h ⟨"main", "", "", 0⟩ 0 128
  rw [hfetch] at hpage
  cases hpage

theorem deliverable_object_payload :
    Deliverable (upsertCodecs (.object [("name", .string "Ana")])).deps
      (History.run (upsertCodecs (.object [("name", .string "Ana")])).deps "main"
        ((upsertRun (.object [("name", .string "Ana")])).map batchOf)).db.outbox.rows := by
  refine (deliverable_iff _ "main" _ ?_ (payloadKept_upsertEvent _)).2 ?_
  · intro b hb a ha
    rw [List.mem_singleton.1 hb] at ha
    rw [List.mem_singleton.1 ha]
    rfl
  · intro b hb a ha _ _
    rw [List.mem_singleton.1 hb] at ha
    rw [List.mem_singleton.1 ha]
    rfl

end Ixmati
