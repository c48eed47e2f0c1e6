import Ixmati.Cache.ReadModes
import Ixmati.Lib.Interaction
import Ixmati.System.Step

/-!
# `submit_write` as a program

What the handlers of the API do outside of the process is asked of a world: the throttle and the
record of the backlogs, the broker, the databases, the cache, the clock.  `submit_write` checks the
configuration and both limits, publishes the command and polls the idempotency row until it is there
or the time is up.

* `submitting` : the order that `submit_write` keeps, as a protocol: a command is published at most
  once, and after both limits let it pass;
* `follows_submitWrite` : it keeps this order whatever is answered, and acknowledges a commit only if
  the row of the published command was found.
-/

namespace Ixmati

open Ixmati.System

namespace Api

/-! ### The world of the handlers -/

/-- What a handler asks. -/
inductive Ask where
  /-- `outbox_backlog.check(store)`. -/
  | backlog (store : String)
  /-- `throttle.allow(store)`. -/
  | allow (store : String)
  /-- `Uuid::new_v4()`. -/
  | uuid
  /-- `client.publish` of the command on its topic. -/
  | publish (cmd : WriteEnvelope)
  /-- `StatusQuery::query`. -/
  | status (dbPath store idempotencyKey : String)
  /-- `Instant::now() >= deadline`. -/
  | deadline
  /-- The lookup in the cache. -/
  | cached (target : ReadTarget)
  /-- `SELECT payload FROM payload_<store>`. -/
  | select (dbPath store entity key : String)
  /-- The cache is filled with a payload row. -/
  | fill (store entity key : String) (bytes : Bytes)
  /-- `oldest_available_cursor`. -/
  | cursor (dbPath store : String) (after : ℕ)

/-- What becomes of a publish. -/
inductive Published where
  | sent
  /-- There is no client. -/
  | unavailable
  | failed (detail : String)

/-- The answers. -/
@[reducible] def Answer : Ask → Type
  | .backlog _ => Option ℤ
  | .allow _ => Bool
  | .uuid => String
  | .publish _ => Published
  | .status .. => Except String WriteStatus
  | .deadline => Bool
  | .cached _ => Option Bytes
  | .select .. => Except String (Option Bytes)
  | .fill .. => Unit
  | .cursor .. => Except String (Option String)

/-- The handlers run in the API process. -/
abbrev Handler (α : Type) := Prog Answer α

/-- The configuration of the process, as far as the handlers look at it. -/
structure AppState where
  /-- `db_path`. -/
  dbPath : Option String
  /-- `db_paths`. -/
  dbPaths : Dict String String
  /-- `OUTBOX_BACKPRESSURE_THRESHOLD`. -/
  threshold : ℤ
  /-- `WRITE_COMMITTED_TIMEOUT_MS`. -/
  timeoutMs : ℕ
  /-- How often a call can poll before its time is up. -/
  polls : ℕ
  cacheReadMode : Cache.ReadMode
  /-- `THROTTLE_WINDOW_SECS`. -/
  throttleWindowSecs : ℕ

/-- `AppState::db_path_for`. -/
def AppState.dbPathFor (S : AppState) (store : String) : Option String :=
  (S.dbPaths.get store).or S.dbPath

/-! ### The handler -/

/-- `CommitOutcome`. -/
inductive CommitOutcome where
  | applied (entity key : String) (version : UInt64) (appliedAt : String)
  | timedOut

/-- `wait_for_commit`: a query that fails counts as "not applied yet". -/
def waitForCommit (dbPath store idempotencyKey : String) : ℕ → Handler CommitOutcome
  | 0 => .ret .timedOut
  | polls + 1 =>
    .ask (.status dbPath store idempotencyKey) fun
      | .ok (.applied _ _ entity key version appliedAt) => .ret (.applied entity key version appliedAt)
      | _ => .ask .deadline fun late =>
        if late then .ret .timedOut else waitForCommit dbPath store idempotencyKey polls

/-- The last part of `submit_write`. -/
def committedOrPending (S : AppState) (cmd : WriteEnvelope) : CommitOutcome → SubmitResult
  | .applied entity key version appliedAt => committedAck cmd entity key version appliedAt
  | .timedOut => pendingAck ⟨cmd.store, 0, S.timeoutMs⟩ cmd

/-- The command of an envelope is published and waited for. -/
def publishAndWait (S : AppState) (dbPath : String) (envelope cmd : WriteEnvelope) :
    Handler SubmitResult :=
  .ask (.publish cmd) fun
    | .unavailable => .ret (Refusal.mqttUnavailable.toResult envelope)
    | .failed detail => .ret ((Refusal.mqttPublish detail).toResult envelope)
    | .sent =>
      committedOrPending S cmd <$> waitForCommit dbPath cmd.store cmd.idempotencyKey S.polls

/-- A key is drawn for a write that brings none. -/
def publishWithKey (S : AppState) (dbPath : String) (envelope : WriteEnvelope) : Handler SubmitResult :=
  if envelope.idempotencyKey = "" then
    .ask .uuid fun uuid => publishAndWait S dbPath envelope (commandOf envelope uuid)
  else publishAndWait S dbPath envelope (commandOf envelope "")

/-- `submit_write`. -/
def submitWrite (S : AppState) (envelope : WriteEnvelope) : Handler SubmitResult :=
  match S.dbPathFor envelope.store with
  | none => .ret (Refusal.unsupported.toResult envelope)
  | some dbPath =>
    .ask (.backlog envelope.store) fun
      | some depth =>
        .ret ((Refusal.outboxBacklog (Int64.ofInt depth) (Int64.ofInt S.threshold)).toResult envelope)
      | none => .ask (.allow envelope.store) fun allowed =>
        if allowed then publishWithKey S dbPath envelope
        else .ret (Refusal.queueFull.toResult envelope)

/-! ### The order of its questions -/

/-- Where a call of `submit_write` is. -/
inductive Progress where
  | checking
  /-- The backlog let the write pass. -/
  | unloaded
  /-- The throttle let it pass too; the key that was drawn, if one was. -/
  | admitted (uuid : String)
  /-- The command is published. -/
  | waiting (cmd : WriteEnvelope)
  /-- Its row was found. -/
  | committed (cmd : WriteEnvelope) (entity key : String) (version : UInt64) (appliedAt : String)
  | refused

/-- What `submit_write` of an envelope may ask where. -/
inductive Asks (S : AppState) (envelope : WriteEnvelope) : Progress → Ask → Prop
  | backlog : Asks S envelope .checking (.backlog envelope.store)
  | allow : Asks S envelope .unloaded (.allow envelope.store)
  | uuid (uuid : String) (h : envelope.idempotencyKey = "") : Asks S envelope (.admitted uuid) .uuid
  | publish (uuid : String) : Asks S envelope (.admitted uuid) (.publish (commandOf envelope uuid))
  | status {dbPath : String} (cmd : WriteEnvelope) (h : S.dbPathFor envelope.store = some dbPath) :
    Asks S envelope (.waiting cmd) (.status dbPath cmd.store cmd.idempotencyKey)
  | deadline (cmd : WriteEnvelope) : Asks S envelope (.waiting cmd) .deadline

/-- The order that `submit_write` keeps. -/
def submitting (S : AppState) (envelope : WriteEnvelope) : Protocol Answer Progress where
  allowed := Asks S envelope
  next
    | .checking, .backlog _, none => .unloaded
    | .unloaded, .allow _, true => .admitted ""
    | .admitted _, .uuid, uuid => .admitted uuid
    | .admitted _, .publish cmd, .sent => .waiting cmd
    | .waiting cmd, .status .., .ok (.applied _ _ entity key version appliedAt) =>
      .committed cmd entity key version appliedAt
    | .waiting cmd, _, _ => .waiting cmd
    | _, _, _ => .refused

/-- The result that fits the end of a call. -/
def Fits (S : AppState) (envelope : WriteEnvelope) (result : SubmitResult) : Progress → Prop
  | .checking => S.dbPathFor envelope.store = none ∧ result = Refusal.unsupported.toResult envelope
  | .refused => ∃ why, result = Refusal.toResult envelope why
  | .waiting cmd => result = committedOrPending S cmd .timedOut
  | .committed cmd entity key version appliedAt => result = committedAck cmd entity key version appliedAt
  | _ => False

theorem follows_waitForCommit {S : AppState} {envelope cmd : WriteEnvelope} {dbPath : String}
    (hpath : S.dbPathFor envelope.store = some dbPath) (polls : ℕ) :
    (waitForCommit dbPath cmd.store cmd.idempotencyKey polls).Follows (submitting S envelope)
      (fun s outcome => Fits S envelope (committedOrPending S cmd outcome) s)
      (.waiting cmd) := by
  induction polls with
  | zero => exact rfl
  | succ polls ih =>
    refine ⟨.status cmd hpath, fun answer => ?_⟩
    have hagain : ((Prog.ask .deadline fun late : Bool =>
        if late then .ret .timedOut else waitForCommit dbPath cmd.store cmd.idempotencyKey polls :
          Handler CommitOutcome)).Follows (submitting S envelope)
        (fun s outcome => Fits S envelope (committedOrPending S cmd outcome) s)
        (.waiting cmd) := by
      refine ⟨.deadline cmd, fun late => ?_⟩
      cases late with
      | true => exact rfl
      | false => exact ih
    rcases answer with _ | _ | _
    · exact hagain
    · exact hagain
    · exact rfl

theorem follows_publishAndWait {S : AppState} {envelope : WriteEnvelope} {dbPath : String}
    (hpath : S.dbPathFor envelope.store = some dbPath) (uuid : String) :
    (publishAndWait S dbPath envelope (commandOf envelope uuid)).Follows (submitting S envelope)
      (fun s result => Fits S envelope result s) (.admitted uuid) := by
  refine ⟨.publish uuid, fun published => ?_⟩
  cases published with
  | sent => exact (follows_waitForCommit hpath S.polls).map fun _ _ h => h
  | unavailable => exact ⟨.mqttUnavailable, rfl⟩
  | failed detail => exact ⟨.mqttPublish detail, rfl⟩

/-- **The order of `submit_write`**, whatever it is answered. -/
theorem follows_submitWrite (S : AppState) (envelope : WriteEnvelope) :
    (submitWrite S envelope).Follows (submitting S envelope)
      (fun s result => Fits S envelope result s) .checking := by
  unfold submitWrite
  split
  · rename_i hpath
    exact ⟨hpath, rfl⟩
  · rename_i dbPath hpath
    refine ⟨.backlog, fun depth => ?_⟩
    cases depth with
    | some depth => exact ⟨.outboxBacklog _ _, rfl⟩
    | none =>
      refine ⟨.allow, fun allowed => ?_⟩
      cases allowed with
      | false => exact ⟨.queueFull, rfl⟩
      | true =>
        show (publishWithKey S dbPath envelope).Follows _ _ (Progress.admitted "")
        unfold publishWithKey
        split_ifs with hkey
        · exact ⟨.uuid "" hkey, fun uuid => follows_publishAndWait hpath uuid⟩
        · exact follows_publishAndWait hpath ""

end Api

end Ixmati
