import Ixmati.Api.Read
import Ixmati.Cache.Protocol
import Ixmati.Writer.History
import Ixmati.Lib.Run

/-!
# A store in operation

One store with its clients, as one step system: the calls of `submit_write` that publish a command
and wait for its idempotency row (`rest.rs`, `status.rs`), the writer that commits batches and hands
their events to the cache worker (`main.rs`, `cache_sync.rs`), the worker, the cache server, and the
calls of `read_handler` that prefer the cache and fill it after a miss.  Each process does one thing
per step: a query, a transaction, an exchange over the socket.

What is assumed of the broker is in the steps: the writer gets the published commands of its store,
in any order and any number of times.  An exchange over the socket meets a server that waits for a
line, and it can fail before or after the server executes it (`Link`).  Of the reads, those of an
entity in `Socket` mode are here.

For the proofs, a read remembers the log and the acknowledged writes from when it began, and the log
from when it returned.
-/

namespace Ixmati

open WriteEngine

namespace System

/-- The configuration of the store. -/
structure Config where
  store : String
  /-- `CACHE_SYNC_QUEUE_CAPACITY`. -/
  capacity : ℕ
  /-- `WRITE_COMMITTED_TIMEOUT_MS`. -/
  timeoutMs : ℕ

/-! ### Writes -/

/-- The body of an answer to a write. -/
structure AckResponse where
  status : String
  store : String
  idempotencyKey : String
  message : Option String
  deriving DecidableEq

/-- The answer to a write, with its status code. -/
inductive SubmitResult where
  | ack (status : ℕ) (body : AckResponse)
  | error (status : ℕ) (e : CoreError)
  deriving DecidableEq

/-- The exits of `submit_write` before the command is published. -/
inductive Refusal where
  /-- No database is configured for the store. -/
  | unsupported
  | outboxBacklog (depth threshold : Int64)
  | queueFull
  | mqttUnavailable
  | mqttPublish (detail : String)

/-- The error of an exit. -/
def Refusal.toResult (envelope : WriteEnvelope) : Refusal → SubmitResult
  | .unsupported =>
    .error 400 (.writeRejected
      ("ack_mode=committed requiere que la API tenga SQLITE_PATH configurado " ++
        "para poder confirmar el commit")
      envelope.store envelope.idempotencyKey)
  | .outboxBacklog depth threshold => .error 429 (.outboxBacklog envelope.store depth threshold)
  | .queueFull => .error 429 (.queueFull envelope.store)
  | .mqttUnavailable => .error 503 (.internal "MQTT client not available")
  | .mqttPublish detail => .error 500 (.internal detail)

/-- The command that is published for an envelope; `uuid` is `Uuid::new_v4()`. -/
def commandOf (envelope : WriteEnvelope) (uuid : String) : WriteEnvelope :=
  { envelope with
    idempotencyKey := if envelope.idempotencyKey = "" then uuid else envelope.idempotencyKey
    ackMode := "committed" }

/-- `WriteStatus`. -/
inductive WriteStatus where
  | pending (store idempotencyKey : String)
  | applied (idempotencyKey store entity key : String) (version : UInt64) (appliedAt : String)

/-- `StatusQuery::query_statement`: the row of an idempotency key of the store. -/
def queryStatement (t : IdempotencyTable) (store idempotencyKey : String) : WriteStatus :=
  match t.find? (store, idempotencyKey) with
  | some row =>
    .applied row.idempotencyKey row.store row.entity row.key row.version.toUInt64 row.appliedAt
  | none => .pending store idempotencyKey

/-- The answer to a write whose row was found. -/
def committedAck (cmd : WriteEnvelope) (entity key : String) (version : UInt64)
    (appliedAt : String) : SubmitResult :=
  .ack 200
    { status := "APPLIED", store := cmd.store, idempotencyKey := cmd.idempotencyKey,
      message := some ("committed: " ++ entity ++ "/" ++ key ++ " v" ++
        toString version.toNat ++ " at " ++ appliedAt) }

/-- The answer to a write whose row was not found in time. -/
def pendingAck (cfg : Config) (cmd : WriteEnvelope) : SubmitResult :=
  .ack 202
    { status := "PENDING", store := cmd.store, idempotencyKey := cmd.idempotencyKey,
      message := some ("aún no comprometido tras " ++ toString cfg.timeoutMs ++
        "ms; consultar GET /writes/" ++ cmd.store ++ "/" ++ cmd.idempotencyKey) }

/-- A call of `submit_write`, which polls until it has a result. -/
structure Submit where
  cmd : WriteEnvelope
  result : Option SubmitResult

/-- The call returned `200`. -/
def Submit.acked (c : Submit) : Bool :=
  match c.result with
  | some (.ack status _) => status == 200
  | _ => false

/-! ### The cache worker -/

/-- `event_to_cache_command`. -/
def eventToCacheCommand (event : EventEnvelope) : WriteEnvelope where
  op := if ".eliminado".toList.isSuffixOf event.eventType.toList then "delete" else "upsert"
  store := event.store
  entity := event.entity
  key := event.key
  version := event.version
  ts := event.occurredAt
  idempotencyKey := ""
  ackMode := "accepted"
  payload := event.payload

/-- The call that `sync_batch` makes for a command. -/
def syncCall (D : Deps) (cmd : WriteEnvelope) : Cache.Call :=
  if cmd.op = "delete" then .del (.entity cmd.store cmd.entity cmd.key)
  else .set (.entity cmd.store cmd.entity cmd.key) (D.toVec cmd.payload)

/-- How an exchange over the socket goes. -/
inductive Link where
  | up
  /-- The request does not get there. -/
  | lost
  /-- The request is executed and the answer does not come back. -/
  | unanswered
  deriving DecidableEq

/-- The entries after an exchange, and the replies that come back. -/
def exchange (e : Cache.Entries) (c : Cache.Call) : Link → Cache.Entries × List Cache.Reply
  | .up => ((Cache.serve false e c.request).entries, (Cache.serve false e c.request).replies)
  | .lost => (e, [])
  | .unanswered => ((Cache.serve false e c.request).entries, [])

/-- An exchange that is executed has the effect of its command. -/
theorem exchange_entries {c : Cache.Call} (h : c.command.WellFormed) (e : Cache.Entries)
    {link : Link} (hlink : link ≠ .lost) : (exchange e c link).1 = c.command.apply e := by
  cases link with
  | up => simp [exchange, Cache.serve_request e h]
  | lost => exact absurd rfl hlink
  | unanswered => simp [exchange, Cache.serve_request e h]

theorem exchange_up {c : Cache.Call} (h : c.command.WellFormed) (e : Cache.Entries) :
    exchange e c .up = (c.command.apply e, [c.command.reply e]) := by
  simp [exchange, Cache.serve_request e h]

theorem not_accepted_of_down (e : Cache.Entries) (c : Cache.Call) {link : Link} (h : link ≠ .up) :
    c.accepted (exchange e c link).2 = false := by
  cases link with
  | up => exact absurd rfl h
  | lost => rfl
  | unanswered => rfl

/-! ### Reads -/

/-- Where a call of `read_handler` is. -/
inductive Stage where
  /-- Asking the cache, for the second time if `again`. -/
  | asking (again : Bool)
  | selecting
  /-- Putting the payload row into the cache, for the second time if `again`. -/
  | filling (bytes : Bytes) (again : Bool)
  | returned (result : Except (ℕ × CoreError) ReadResult) (log : List Iteration)

/-- A call of `read_handler` for an entity. -/
structure Read where
  entity : String
  key : String
  /-- The commands whose writes had returned `200` when the call began. -/
  acked : List WriteEnvelope
  /-- The log when the call began. -/
  before : List Iteration
  stage : Stage

/-- `SELECT payload FROM payload_<store> WHERE entity = ?1 AND key = ?2`. -/
def selectPayload (db : Database) (store entity key : String) : Except String (Option Bytes) :=
  match db.payload (tableName store) with
  | some t => .ok ((t.find? (entity, key)).map (·.payload))
  | none => .error ("SQL prepare: no such table: payload_" ++ store)

/-! ### Steps -/

/-- What the main loop of the writer is doing. -/
inductive Phase where
  | receiving
  /-- Between the commit of a batch and `try_enqueue`. -/
  | enqueuing (events : List EventEnvelope)

/-- The events that are not handed over yet. -/
def Phase.events : Phase → List EventEnvelope
  | .receiving => []
  | .enqueuing events => events

/-- The store, its clients and its cache. -/
structure State where
  /-- The database, and the iterations that led to it. -/
  history : History
  /-- The commands published so far. -/
  published : List WriteEnvelope
  submits : List Submit
  phase : Phase
  /-- The jobs in the channel to the worker. -/
  queue : List (List WriteEnvelope)
  /-- What is left of the job that the worker is on. -/
  job : List WriteEnvelope
  /-- The jobs that found the channel full. -/
  dropped : ℕ
  /-- The errors that `sync_batch` counts. -/
  errors : ℕ
  cache : Cache.Entries
  reads : List Read

/-- The steps of the system. -/
inductive Action where
  /-- `submit_write` publishes the command of an envelope. -/
  | submit (envelope : WriteEnvelope) (uuid : String)
  /-- `submit_write` returns before that. -/
  | refuse (envelope : WriteEnvelope) (why : Refusal)
  /-- A call of `submit_write` queries its status; `readable` tells whether the query succeeds. -/
  | poll (i : ℕ) (readable : Bool)
  /-- A call of `submit_write` gives up. -/
  | deadline (i : ℕ)
  /-- The writer processes a batch of published commands, given by their positions. -/
  | commit (ambient : ℕ → Ambient) (batch : List ℕ)
  /-- `try_enqueue` of the events of the batch. -/
  | enqueue
  /-- The worker takes a job from the channel. -/
  | receive
  /-- The worker makes the call for the next command of its job. -/
  | sync (link : Link)
  /-- A read begins. -/
  | startRead (entity key : String)
  /-- A read asks the cache. -/
  | get (i : ℕ) (link : Link)
  /-- A read looks into the database; `fault` is an error of SQLite. -/
  | select (i : ℕ) (fault : Option String)
  /-- A read fills the cache. -/
  | fill (i : ℕ) (link : Link)

/-- The state before anything happens. -/
def init (cfg : Config) : State where
  history := ⟨ensureSchema cfg.store, []⟩
  published := []
  submits := []
  phase := .receiving
  queue := []
  job := []
  dropped := 0
  errors := 0
  cache := fun _ => none
  reads := []

/-- The log: the applied commands. -/
def State.log (s : State) : List Iteration := s.history.applied

/-- The commands that the broker sends the writer: those of its store (`Routing.mem_delivered_iff`).
The topic filter also lets through a store string that goes on with a slash; such a command is left
out. -/
def State.delivered (cfg : Config) (s : State) (batch : List ℕ) : List WriteEnvelope :=
  (batch.filterMap fun i => s.published[i]?).filter fun cmd => decide (cmd.store = cfg.store)

/-- The commands of the writes that returned `200`. -/
def State.acked (s : State) : List WriteEnvelope :=
  (s.submits.filter Submit.acked).map (·.cmd)

/-- The state after a batch of the given commands was committed. -/
def State.afterBatch (D : Deps) (s : State) (ambient : ℕ → Ambient) (cmds : List WriteEnvelope)
    (db : Database) (result : BatchResult) : State :=
  { s with
    history := ⟨db, s.history.iterations ++ History.trace D ambient s.history.db cmds⟩
    phase := .enqueuing result.events }

/-- A read goes on. -/
def State.setStage (s : State) (i : ℕ) (r : Read) (stage : Stage) : State :=
  { s with reads := s.reads.set i { r with stage := stage } }

/-- The stage after the answer of the cache.  `CacheClient` asks again unless it is a hit. -/
def stageAfterGet (D : Deps) (cfg : Config) (s : State) (r : Read) (again : Bool)
    (replies : List Cache.Reply) : Stage :=
  match replies.head? with
  | some (.hit payload) =>
    match cacheHit D (some payload) with
    | some value => .returned (.ok (.found cfg.store r.entity r.key .cache value)) s.log
    | none => .selecting
  | _ => if again then .selecting else .asking true

/-- The stage after the query of the payload row. -/
def stageAfterSelect (D : Deps) (cfg : Config) (s : State) (r : Read) : Stage :=
  match selectPayload s.history.db cfg.store r.entity r.key with
  | .ok (some bytes) => .filling bytes false
  | .ok none => .returned (.ok (fromRow D cfg.store r.entity r.key none)) s.log
  | .error detail => .returned (.error (500, .internal detail)) s.log

/-- The stage after an attempt to fill the cache. -/
def stageAfterFill (D : Deps) (cfg : Config) (s : State) (r : Read) (bytes : Bytes)
    (again accepted : Bool) : Stage :=
  if accepted || again then
    .returned (.ok (fromRow D cfg.store r.entity r.key (some bytes))) s.log
  else .filling bytes true

/-- One step. -/
def step (D : Deps) (cfg : Config) (s : State) : Action → Option State
  | .submit envelope uuid =>
    let cmd := commandOf envelope uuid
    some { s with published := s.published ++ [cmd], submits := s.submits ++ [⟨cmd, none⟩] }
  | .refuse envelope why =>
    some { s with submits := s.submits ++ [⟨envelope, some (why.toResult envelope)⟩] }
  | .poll i readable =>
    match s.submits[i]? with
    | some ⟨cmd, none⟩ =>
      match queryStatement s.history.db.idempotency cmd.store cmd.idempotencyKey with
      | .applied _ _ entity key version appliedAt =>
        -- a query that fails counts as "not applied yet"
        if readable then
          some { s with
            submits := s.submits.set i ⟨cmd, some (committedAck cmd entity key version appliedAt)⟩ }
        else some s
      | .pending _ _ => some s
    | _ => none
  | .deadline i =>
    match s.submits[i]? with
    | some ⟨cmd, none⟩ =>
      some { s with submits := s.submits.set i ⟨cmd, some (pendingAck cfg cmd)⟩ }
    | _ => none
  | .commit ambient batch =>
    match s.phase with
    | .receiving =>
      match processBatch D ambient s.history.db (s.delivered cfg batch) with
      | .ok (db, result) => some (s.afterBatch D ambient (s.delivered cfg batch) db result)
      | .error _ => some s
    | _ => none
  | .enqueue =>
    match s.phase with
    | .enqueuing events =>
      if events = [] then some { s with phase := .receiving }
      else if s.queue.length < max cfg.capacity 1 then
        some { s with
          phase := .receiving, queue := s.queue ++ [events.map eventToCacheCommand] }
      else some { s with phase := .receiving, dropped := s.dropped + 1 }
    | _ => none
  | .receive =>
    match s.job, s.queue with
    | [], job :: queue => some { s with job := job, queue := queue }
    | _, _ => none
  | .sync link =>
    match s.job with
    | cmd :: job =>
      let (entries, replies) := exchange s.cache (syncCall D cmd) link
      some { s with
        job := job
        cache := entries
        errors := if (syncCall D cmd).accepted replies then s.errors else s.errors + 1 }
    | [] => none
  | .startRead entity key =>
    some { s with reads := s.reads ++ [⟨entity, key, s.acked, s.log, .asking false⟩] }
  | .get i link =>
    match s.reads[i]? with
    | some r =>
      match r.stage with
      | .asking again =>
        let (entries, replies) :=
          exchange s.cache (.get (.entity cfg.store r.entity r.key)) link
        some { s.setStage i r (stageAfterGet D cfg s r again replies) with cache := entries }
      | _ => none
    | none => none
  | .select i fault =>
    match s.reads[i]? with
    | some r =>
      match r.stage with
      | .selecting =>
        match fault with
        | some detail => some (s.setStage i r (.returned (.error (500, .internal detail)) s.log))
        | none => some (s.setStage i r (stageAfterSelect D cfg s r))
      | _ => none
    | none => none
  | .fill i link =>
    match s.reads[i]? with
    | some r =>
      match r.stage with
      | .filling bytes again =>
        let call := Cache.Call.set (.entity cfg.store r.entity r.key) bytes
        let (entries, replies) := exchange s.cache call link
        some { s.setStage i r (stageAfterFill D cfg s r bytes again (call.accepted replies)) with
          cache := entries }
      | _ => none
    | none => none

/-! ### What a step can do -/

/-- The steps with what they ask and do, one constructor for each way through `step`. -/
inductive Moves (D : Deps) (cfg : Config) (s : State) : Action → State → Prop
  | submit (envelope : WriteEnvelope) (uuid : String) :
    Moves D cfg s (.submit envelope uuid)
      { s with
        published := s.published ++ [commandOf envelope uuid]
        submits := s.submits ++ [⟨commandOf envelope uuid, none⟩] }
  | refuse (envelope : WriteEnvelope) (why : Refusal) :
    Moves D cfg s (.refuse envelope why)
      { s with submits := s.submits ++ [⟨envelope, some (why.toResult envelope)⟩] }
  | ack {i : ℕ} {cmd : WriteEnvelope} {row : IdempotencyRow}
      (hcall : s.submits[i]? = some ⟨cmd, none⟩)
      (hrow : s.history.db.idempotency.find? (cmd.store, cmd.idempotencyKey) = some row) :
    Moves D cfg s (.poll i true)
      { s with
        submits := s.submits.set i
          ⟨cmd, some (committedAck cmd row.entity row.key row.version.toUInt64 row.appliedAt)⟩ }
  /-- A query without result, and a batch that fails. -/
  | idle (a : Action) : Moves D cfg s a s
  | deadline {i : ℕ} {cmd : WriteEnvelope} (hcall : s.submits[i]? = some ⟨cmd, none⟩) :
    Moves D cfg s (.deadline i)
      { s with submits := s.submits.set i ⟨cmd, some (pendingAck cfg cmd)⟩ }
  | commit {ambient : ℕ → Ambient} {batch : List ℕ} {db : Database} {result : BatchResult}
      (hphase : s.phase = .receiving)
      (hok : processBatch D ambient s.history.db (s.delivered cfg batch) = .ok (db, result)) :
    Moves D cfg s (.commit ambient batch)
      (s.afterBatch D ambient (s.delivered cfg batch) db result)
  | skip (hphase : s.phase = .enqueuing []) :
    Moves D cfg s .enqueue { s with phase := .receiving }
  | enqueue {events : List EventEnvelope} (hphase : s.phase = .enqueuing events)
      (hroom : s.queue.length < max cfg.capacity 1) :
    Moves D cfg s .enqueue
      { s with phase := .receiving, queue := s.queue ++ [events.map eventToCacheCommand] }
  | drop {events : List EventEnvelope} (hphase : s.phase = .enqueuing events) (hne : events ≠ [])
      (hfull : ¬ s.queue.length < max cfg.capacity 1) :
    Moves D cfg s .enqueue { s with phase := .receiving, dropped := s.dropped + 1 }
  | receive {job : List WriteEnvelope} {queue : List (List WriteEnvelope)} (hjob : s.job = [])
      (hqueue : s.queue = job :: queue) :
    Moves D cfg s .receive { s with job := job, queue := queue }
  | sync (link : Link) {cmd : WriteEnvelope} {job : List WriteEnvelope} (hjob : s.job = cmd :: job) :
    Moves D cfg s (.sync link)
      { s with
        job := job
        cache := (exchange s.cache (syncCall D cmd) link).1
        errors := if (syncCall D cmd).accepted (exchange s.cache (syncCall D cmd) link).2 then
          s.errors else s.errors + 1 }
  | startRead (entity key : String) :
    Moves D cfg s (.startRead entity key)
      { s with reads := s.reads ++ [⟨entity, key, s.acked, s.log, .asking false⟩] }
  | get {i : ℕ} (link : Link) {r : Read} {again : Bool} (hread : s.reads[i]? = some r)
      (hstage : r.stage = .asking again) :
    Moves D cfg s (.get i link)
      { s.setStage i r (stageAfterGet D cfg s r again
          (exchange s.cache (.get (.entity cfg.store r.entity r.key)) link).2) with
        cache := (exchange s.cache (.get (.entity cfg.store r.entity r.key)) link).1 }
  | select {i : ℕ} {r : Read} (hread : s.reads[i]? = some r) (hstage : r.stage = .selecting) :
    Moves D cfg s (.select i none) (s.setStage i r (stageAfterSelect D cfg s r))
  | fault {i : ℕ} {r : Read} (detail : String) (hread : s.reads[i]? = some r)
      (hstage : r.stage = .selecting) :
    Moves D cfg s (.select i (some detail))
      (s.setStage i r (.returned (.error (500, .internal detail)) s.log))
  | fill {i : ℕ} (link : Link) {r : Read} {bytes : Bytes} {again : Bool}
      (hread : s.reads[i]? = some r) (hstage : r.stage = .filling bytes again) :
    Moves D cfg s (.fill i link)
      { s.setStage i r (stageAfterFill D cfg s r bytes again
          ((Cache.Call.set (.entity cfg.store r.entity r.key) bytes).accepted
            (exchange s.cache (.set (.entity cfg.store r.entity r.key) bytes) link).2)) with
        cache := (exchange s.cache (.set (.entity cfg.store r.entity r.key) bytes) link).1 }

variable {D : Deps} {cfg : Config} {s s' : State} {a : Action}

theorem moves_of_step (h : step D cfg s a = some s') : Moves D cfg s a s' := by
  cases a with
  | submit envelope uuid =>
    cases h
    exact .submit envelope uuid
  | refuse envelope why =>
    cases h
    exact .refuse envelope why
  | poll i readable =>
    simp only [step, queryStatement] at h
    split at h
    · rename_i cmd hcall
      cases hrow : s.history.db.idempotency.find? (cmd.store, cmd.idempotencyKey) with
      | none =>
        simp only [hrow] at h
        cases h
        exact .idle _
      | some row =>
        simp only [hrow] at h
        cases readable with
        | false =>
          cases h
          exact .idle _
        | true =>
          cases h
          exact .ack hcall hrow
    · cases h
  | deadline i =>
    simp only [step] at h
    split at h
    · rename_i cmd hcall
      cases h
      exact .deadline hcall
    · cases h
  | commit ambient batch =>
    simp only [step] at h
    split at h
    · rename_i hphase
      split at h
      · rename_i db result hok
        cases h
        exact .commit hphase hok
      · cases h
        exact .idle _
    · cases h
  | enqueue =>
    simp only [step] at h
    split at h
    · rename_i events hphase
      split_ifs at h with hnil hroom
      · cases h
        exact .skip (hnil ▸ hphase)
      · cases h
        exact .enqueue hphase hroom
      · cases h
        exact .drop hphase hnil hroom
    · cases h
  | receive =>
    simp only [step] at h
    split at h
    · rename_i job queue hjob hqueue
      cases h
      exact .receive hjob hqueue
    · cases h
  | sync link =>
    simp only [step] at h
    split at h
    · rename_i cmd job hjob
      cases h
      exact .sync link hjob
    · cases h
  | startRead entity key =>
    cases h
    exact .startRead entity key
  | get i link =>
    simp only [step] at h
    split at h
    · rename_i r hread
      split at h
      · rename_i again hstage
        cases h
        exact .get link hread hstage
      · cases h
    · cases h
  | select i fault =>
    simp only [step] at h
    split at h
    · rename_i r hread
      split at h
      · rename_i hstage
        cases fault with
        | none =>
          cases h
          exact .select hread hstage
        | some detail =>
          cases h
          exact .fault detail hread hstage
      · cases h
    · cases h
  | fill i link =>
    simp only [step] at h
    split at h
    · rename_i r hread
      split at h
      · rename_i bytes again hstage
        cases h
        exact .fill link hread hstage
      · cases h
    · cases h

/-! ### Batches -/

section Batches

variable {ambient : ℕ → Ambient} {cmds : List WriteEnvelope} {db : Database} {result : BatchResult}

theorem mem_delivered {batch : List ℕ} {cmd : WriteEnvelope} (h : cmd ∈ s.delivered cfg batch) :
    cmd ∈ s.published ∧ cmd.store = cfg.store := by
  obtain ⟨hmem, hstore⟩ := List.mem_filter.1 h
  obtain ⟨i, -, hi⟩ := List.mem_filterMap.1 hmem
  exact ⟨List.mem_of_getElem? hi, of_decide_eq_true hstore⟩

/-- What every iteration of the loop keeps of a history, a batch keeps. -/
theorem history_afterBatch {I : History → Prop}
    (hok : processBatch D ambient s.history.db cmds = .ok (db, result))
    (hstep : ∀ h a cmd db o, I h → cmd ∈ cmds → processCommand D a h.db cmd = .ok (db, o) →
      I (h.extend a cmd db o)) (hI : I s.history) :
    I (s.afterBatch D ambient cmds db result).history :=
  History.processBatch_invariant (b := ⟨ambient, cmds⟩) hok hstep hI

theorem log_afterBatch (hok : processBatch D ambient s.history.db cmds = .ok (db, result)) :
    ∃ new, (s.afterBatch D ambient cmds db result).log = s.log ++ new ∧
      ∀ it ∈ new, it.cmd ∈ cmds :=
  History.processBatch_applied (h := s.history) (b := ⟨ambient, cmds⟩) hok

end Batches

/-! ### A store to evaluate runs on -/

/-- A configuration with the defaults of the source. -/
def sampleConfig : Config where
  store := "main"
  capacity := 1000
  timeoutMs := 2000

end System

end Ixmati
