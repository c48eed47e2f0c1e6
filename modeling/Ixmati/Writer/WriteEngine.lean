import Ixmati.Lib.Exec
import Ixmati.Lib.Sql
import Ixmati.Writer.Tables
import Ixmati.Writer.Outbox
import Mathlib.Logic.Function.Basic

/-!
# The write engine

`WriteEngine::process_batch` of `write_engine.rs`: one transaction that goes through the commands
of a batch.  Each command leaves the loop at one of five exits: its idempotency key is already
recorded, its version is not above the stored one, it is an upsert or patch, a delete, or an
operation the engine does not know.

* `WriteEngine.processCommand` is the body of the loop;
* `WriteEngine.processBatch` is the loop in its transaction: an error discards every change;
* `WriteEngine.processCommand_cases` says once and for all what each exit asks and does;
  `WriteEngine.Applies` is what it says of a command that is applied.
-/

namespace Ixmati

/-- The values that an iteration of the loop draws from outside: a fresh event id and the
clock, read by `Utc::now()` and by `datetime('now')` in each statement. -/
structure Ambient where
  /-- `Uuid::new_v4()`. -/
  eventId : String
  /-- `Utc::now()` for the event. -/
  occurredAt : String
  /-- `datetime('now')` of the payload row. -/
  updatedAt : String
  /-- `datetime('now')` of the tombstone. -/
  deletedAt : String
  /-- `datetime('now')` of the idempotency row. -/
  appliedAt : String
  deriving DecidableEq

/-- The database of a store. -/
@[ext] structure Database where
  idempotency : IdempotencyTable
  outbox : Outbox
  tombstones : TombstoneTable
  /-- The tables `payload_<store>`, by the name SQLite looks them up under. -/
  payload : String → Option PayloadTable

/-- The outcome of a batch. -/
structure BatchResult where
  store : String
  committed : ℕ
  duplicates : ℕ
  versionConflicts : ℕ
  events : List EventEnvelope

/-- The last part of an event type. -/
def eventSuffix (op : String) : String :=
  if op = "upsert" then "creado"
  else if op = "delete" then "eliminado"
  else if op = "patch" then "actualizado"
  else "modificado"

namespace WriteEngine

/-- The name under which SQLite looks `payload_<store>` up, which is not in quotes in the statements:
white space and comments behind the name are passed over, and names are compared without regard to
ASCII case.  A store that is not read as one name is taken as it is; there the statement is another one
(a syntax error, or what the store string makes of it), and no writer has a table of that name. -/
def tableName (store : String) : String :=
  "payload_" ++
    String.ofList (((Sql.completion store.toList).getD store.toList).map Char.toLower)

/-- The database of a fresh store. -/
def ensureSchema (storeName : String) : Database where
  idempotency := Table.empty
  outbox := Outbox.empty
  tombstones := Table.empty
  payload := Function.update (fun _ => none) (tableName storeName) (some Table.empty)

/-- The payload table that a statement on `payload_<store>` runs on. -/
def payloadTable (tx : Database) (store : String) : Except SqlError PayloadTable :=
  match tx.payload (tableName store) with
  | some t => .ok t
  | none => .error (.noSuchTable (tableName store))

/-- Replace the payload table of a store. -/
def setPayloadTable (tx : Database) (store : String) (t : PayloadTable) : Database :=
  { tx with payload := Function.update tx.payload (tableName store) (some t) }

/-- The payload row that an upsert or patch writes. -/
def payloadRowOf (D : Deps) (a : Ambient) (cmd : WriteEnvelope) : PayloadRow where
  entity := cmd.entity
  key := cmd.key
  version := cmd.version.toInt64
  payload := D.toVec cmd.payload
  updatedAt := a.updatedAt

/-- The event that describes a command. -/
def eventOf (a : Ambient) (cmd : WriteEnvelope) : EventEnvelope where
  eventId := a.eventId
  eventType := cmd.entity ++ "." ++ eventSuffix cmd.op
  store := cmd.store
  entity := cmd.entity
  key := cmd.key
  version := cmd.version
  occurredAt := a.occurredAt
  outboxSeq := 0
  payload := cmd.payload

/-- How a command leaves the loop. -/
inductive Outcome where
  | duplicate
  | versionConflict
  | unknownOperation
  | committed (event : EventEnvelope)

/-- The counters and events that the exit of a command adds to. -/
def BatchResult.add (result : BatchResult) : Outcome → BatchResult
  | .duplicate => { result with duplicates := result.duplicates + 1 }
  | .versionConflict => { result with versionConflicts := result.versionConflicts + 1 }
  | .unknownOperation => result
  | .committed event =>
    { result with committed := result.committed + 1, events := result.events ++ [event] }

/-- The statements on the payload table and its tombstone; `none` for an unknown operation. -/
def writePayload (D : Deps) (a : Ambient) (tx : Database) (cmd : WriteEnvelope) :
    Except SqlError (Option Database) :=
  if cmd.op = "upsert" ∨ cmd.op = "patch" then do
    let t ← payloadTable tx cmd.store
    let tx := setPayloadTable tx cmd.store (t.upsert (payloadRowOf D a cmd))
    return some { tx with
      tombstones := Tombstones.clearIfOlder tx.tombstones cmd.entity cmd.key cmd.version }
  else if cmd.op = "delete" then do
    let t ← payloadTable tx cmd.store
    return some (setPayloadTable tx cmd.store (PayloadTable.delete t cmd.entity cmd.key))
  else return none

/-- The version guard: the stored version is not below the command's. -/
def isStale (tx : Database) (cmd : WriteEnvelope) : Bool :=
  match IdempotencyTracker.currentVersion tx.idempotency cmd.store cmd.entity cmd.key with
  | some stored => decide (cmd.version ≤ stored)
  | none => false

/-- The body of the loop. -/
def processCommand (D : Deps) (a : Ambient) (tx : Database) (cmd : WriteEnvelope) :
    Except SqlError (Database × Outcome) :=
  match IdempotencyTracker.check tx.idempotency cmd with
  | .alreadyApplied _ => return (tx, .duplicate)
  | .new =>
    if isStale tx cmd then return (tx, .versionConflict)
    else do
      match ← writePayload D a tx cmd with
      | none => return (tx, .unknownOperation)
      | some tx =>
        let event := eventOf a cmd
        let tx := if cmd.op = "delete" then
            { tx with
              tombstones := Tombstones.record a.deletedAt tx.tombstones cmd.entity cmd.key
                cmd.version event.eventId }
          else tx
        let (outbox, _) ← Outbox.insert D tx.outbox event
        let tx := { tx with
          outbox := outbox
          idempotency := IdempotencyTracker.record D a.appliedAt tx.idempotency cmd }
        return (tx, .committed event)

/-- The loop; `amb i` is what its `i`-th iteration draws from outside. -/
def processLoop (D : Deps) : (ℕ → Ambient) → Database → BatchResult → List WriteEnvelope →
    Except SqlError (Database × BatchResult)
  | _, tx, result, [] => .ok (tx, result)
  | amb, tx, result, cmd :: cmds => do
    let (tx, outcome) ← processCommand D (amb 0) tx cmd
    processLoop D (fun i => amb (i + 1)) tx (BatchResult.add result outcome) cmds

/-- `WriteEngine::process_batch`: the new state is returned only by the commit. -/
def processBatch (D : Deps) (amb : ℕ → Ambient) (conn : Database) (commands : List WriteEnvelope) :
    Except SqlError (Database × BatchResult) :=
  processLoop D amb conn
    { store := (commands.head?.map (·.store)).getD "", committed := 0, duplicates := 0,
      versionConflicts := 0, events := [] } commands

/-! ### What an iteration does -/

/-- The operations the engine knows. -/
def KnownOp (op : String) : Prop := op = "upsert" ∨ op = "patch" ∨ op = "delete"

instance (op : String) : Decidable (KnownOp op) := inferInstanceAs (Decidable (_ ∨ _))

/-- `cmd` is applied in `tx` and leads to `tx'`. -/
structure Applies (D : Deps) (a : Ambient) (tx : Database) (cmd : WriteEnvelope)
    (tx' : Database) : Prop where
  new : IdempotencyTracker.check tx.idempotency cmd = .new
  fresh : isStale tx cmd = false
  known : KnownOp cmd.op
  idempotency : tx'.idempotency.rows =
    tx.idempotency.rows ++ [IdempotencyTracker.rowOf D a.appliedAt cmd]
  outbox : tx'.outbox.rows =
    tx.outbox.rows ++ [Outbox.stored D (tx.outbox.seq + 1) (eventOf a cmd)]
  seq : tx'.outbox.seq = tx.outbox.seq + 1
  payload : ∃ t, tx.payload (tableName cmd.store) = some t ∧
    tx'.payload = Function.update tx.payload (tableName cmd.store)
      (some (if cmd.op = "delete" then PayloadTable.delete t cmd.entity cmd.key
        else t.upsert (payloadRowOf D a cmd)))
  tombstones : tx'.tombstones =
    if cmd.op = "delete" then
      Tombstones.record a.deletedAt tx.tombstones cmd.entity cmd.key cmd.version a.eventId
    else Tombstones.clearIfOlder tx.tombstones cmd.entity cmd.key cmd.version

variable {D : Deps} {a : Ambient} {tx tx' : Database} {cmd : WriteEnvelope}

theorem writePayload_eq_none (h : writePayload D a tx cmd = .ok none) : ¬ KnownOp cmd.op := by
  unfold writePayload payloadTable at h
  rintro (hop | hop | hop) <;> cases ht : tx.payload (tableName cmd.store) <;>
    simp [hop, ht, bind, Except.bind, pure, Except.pure] at h

theorem writePayload_eq_some (h : writePayload D a tx cmd = .ok (some tx')) :
    KnownOp cmd.op ∧ ∃ t, tx.payload (tableName cmd.store) = some t ∧
      tx' = { tx with
        payload := Function.update tx.payload (tableName cmd.store)
          (some (if cmd.op = "delete" then PayloadTable.delete t cmd.entity cmd.key
            else t.upsert (payloadRowOf D a cmd)))
        tombstones := if cmd.op = "delete" then tx.tombstones
          else Tombstones.clearIfOlder tx.tombstones cmd.entity cmd.key cmd.version } := by
  unfold writePayload payloadTable at h
  cases ht : tx.payload (tableName cmd.store) with
  | none =>
    split_ifs at h <;> simp [ht, bind, Except.bind, pure, Except.pure] at h
  | some t =>
    split_ifs at h with hup hdel
    · have hnd : cmd.op ≠ "delete" := by rcases hup with hop | hop <;> simp [hop]
      simp only [ht, bind, Except.bind, pure, Except.pure, Except.ok.injEq,
        Option.some.injEq] at h
      exact ⟨hup.imp_right Or.inl, t, rfl, by simp [← h, hnd, setPayloadTable]⟩
    · simp only [ht, bind, Except.bind, pure, Except.pure, Except.ok.injEq,
        Option.some.injEq] at h
      exact ⟨Or.inr (Or.inr hdel), t, rfl, by simp [← h, hdel, setPayloadTable]⟩
    · simp [pure, Except.pure] at h

/-- **The exits of the loop.**  Only an applied command changes the state. -/
theorem processCommand_cases {o : Outcome} (h : processCommand D a tx cmd = .ok (tx', o)) :
    (o = .duplicate ∧ tx' = tx ∧ IdempotencyTracker.check tx.idempotency cmd ≠ .new) ∨
    (o = .versionConflict ∧ tx' = tx ∧ IdempotencyTracker.check tx.idempotency cmd = .new ∧
      isStale tx cmd = true) ∨
    (o = .unknownOperation ∧ tx' = tx ∧ IdempotencyTracker.check tx.idempotency cmd = .new ∧
      isStale tx cmd = false ∧ ¬ KnownOp cmd.op) ∨
    (o = .committed (eventOf a cmd) ∧ Applies D a tx cmd tx') := by
  unfold processCommand at h
  cases hc : IdempotencyTracker.check tx.idempotency cmd with
  | alreadyApplied v =>
    simp only [hc, pure, Except.pure, Except.ok.injEq, Prod.mk.injEq] at h
    exact Or.inl ⟨h.2.symm, h.1.symm, by simp⟩
  | new =>
    simp only [hc] at h
    cases hs : isStale tx cmd with
    | true =>
      simp only [hs, ↓reduceIte, pure, Except.pure, Except.ok.injEq, Prod.mk.injEq] at h
      exact Or.inr (Or.inl ⟨h.2.symm, h.1.symm, rfl, rfl⟩)
    | false =>
      simp only [hs, Bool.false_eq_true, ↓reduceIte, bind, Except.bind] at h
      split at h
      · cases h
      · rename_i o' hw
        cases o' with
        | none =>
          simp only [pure, Except.pure, Except.ok.injEq, Prod.mk.injEq] at h
          exact Or.inr (Or.inr (Or.inl ⟨h.2.symm, h.1.symm, rfl, rfl, writePayload_eq_none hw⟩))
        | some tx₁ =>
          refine Or.inr (Or.inr (Or.inr ?_))
          obtain ⟨hop, t, ht, rfl⟩ := writePayload_eq_some hw
          simp only at h
          split at h
          · cases h
          · rename_i p hins
            obtain ⟨outbox, id⟩ := p
            simp only [pure, Except.pure, Except.ok.injEq, Prod.mk.injEq] at h
            obtain ⟨rfl, rfl⟩ := h
            refine ⟨rfl, ?_⟩
            by_cases hdel : cmd.op = "delete"
            · simp only [hdel, ↓reduceIte] at hins
              obtain ⟨-, hseq, hrows⟩ := Outbox.rows_insert hins
              exact ⟨hc, hs, hop, by simp [hdel, IdempotencyTracker.rows_record hc], hrows, hseq,
                ⟨t, ht, by simp [hdel]⟩, by simp [hdel, eventOf]⟩
            · simp only [hdel, ↓reduceIte] at hins
              obtain ⟨-, hseq, hrows⟩ := Outbox.rows_insert hins
              exact ⟨hc, hs, hop, by simp [hdel, IdempotencyTracker.rows_record hc], hrows, hseq,
                ⟨t, ht, by simp [hdel]⟩, by simp [hdel]⟩

/-- The command gets to its statements: it is new, not stale and of a known operation. -/
def GetsThrough (tx : Database) (cmd : WriteEnvelope) : Prop :=
  IdempotencyTracker.check tx.idempotency cmd = .new ∧ isStale tx cmd = false ∧ KnownOp cmd.op

instance (tx : Database) (cmd : WriteEnvelope) : Decidable (GetsThrough tx cmd) :=
  inferInstanceAs (Decidable (_ ∧ _))

theorem writePayload_ok_iff :
    (∃ r, writePayload D a tx cmd = .ok r) ↔
      (KnownOp cmd.op → (tx.payload (tableName cmd.store)).isSome) := by
  unfold writePayload payloadTable KnownOp
  cases ht : tx.payload (tableName cmd.store) with
  | none =>
    split_ifs with hup hdel
    · simp [bind, Except.bind, hup.imp_right Or.inl]
    · simp [bind, Except.bind, hdel]
    · simp only [not_or] at hup
      simp [pure, Except.pure, hup, hdel]
  | some t =>
    split_ifs <;> simp [bind, Except.bind, pure, Except.pure]

/-- A command fails only when it gets to its statements, for want of a payload table or of an outbox
id. -/
theorem processCommand_ok_iff :
    (∃ r, processCommand D a tx cmd = .ok r) ↔
      (GetsThrough tx cmd →
        (tx.payload (tableName cmd.store)).isSome ∧ tx.outbox.seq < maxRowid) := by
  unfold processCommand GetsThrough
  cases hc : IdempotencyTracker.check tx.idempotency cmd with
  | alreadyApplied v => simp [pure, Except.pure]
  | new =>
    cases hs : isStale tx cmd with
    | true => simp [pure, Except.pure]
    | false =>
      simp only [Bool.false_eq_true, if_false, bind, Except.bind, true_and]
      cases hw : writePayload D a tx cmd with
      | error e =>
        -- only a missing table makes the statement fail
        have hno : ¬ (KnownOp cmd.op → (tx.payload (tableName cmd.store)).isSome) := by
          rw [← writePayload_ok_iff (D := D) (a := a), hw]
          simp
        rw [Classical.not_imp] at hno
        simp [hno.1, hno.2]
      | ok r =>
        cases r with
        | none => simp [pure, Except.pure, writePayload_eq_none hw]
        | some tx₁ =>
          obtain ⟨hop, t, ht, rfl⟩ := writePayload_eq_some hw
          simp only [hop, ht, Option.isSome_some, true_and, true_imp_iff]
          have hins : ∀ outbox : Outbox, (∃ r, Outbox.insert D outbox (eventOf a cmd) = .ok r) ↔
              outbox.seq < maxRowid := by
            intro outbox
            unfold Outbox.insert
            split_ifs with hlt <;> simp [hlt]
          rw [← hins]
          split_ifs
          all_goals
            cases Outbox.insert D tx.outbox (eventOf a cmd) <;> simp [pure, Except.pure]

theorem processCommand_of_recorded (h : IdempotencyTracker.check tx.idempotency cmd ≠ .new) :
    processCommand D a tx cmd = .ok (tx, .duplicate) := by
  unfold processCommand
  cases hc : IdempotencyTracker.check tx.idempotency cmd with
  | new => exact absurd hc h
  | alreadyApplied v => rfl

theorem processCommand_of_stale (hnew : IdempotencyTracker.check tx.idempotency cmd = .new)
    (hst : isStale tx cmd = true) : processCommand D a tx cmd = .ok (tx, .versionConflict) := by
  unfold processCommand
  simp only [hnew, hst, if_true]
  rfl

theorem processCommand_of_unknown (hnew : IdempotencyTracker.check tx.idempotency cmd = .new)
    (hst : isStale tx cmd = false) (hop : ¬ KnownOp cmd.op) :
    processCommand D a tx cmd = .ok (tx, .unknownOperation) := by
  have hw : writePayload D a tx cmd = .ok none := by
    simp only [KnownOp, not_or] at hop
    simp [writePayload, hop, pure, Except.pure]
  unfold processCommand
  simp only [hnew, hst, Bool.false_eq_true, if_false, hw]
  rfl

/-- A command that gets to its statements is applied if it does not fail. -/
theorem GetsThrough.applies (hg : GetsThrough tx cmd) {o : Outcome}
    (h : processCommand D a tx cmd = .ok (tx', o)) :
    o = .committed (eventOf a cmd) ∧ Applies D a tx cmd tx' := by
  obtain ⟨hnew, hst, hop⟩ := hg
  rcases processCommand_cases h with ⟨-, -, hdup⟩ | ⟨-, -, -, hst'⟩ | ⟨-, -, -, -, hop'⟩ | happ
  · exact absurd hnew hdup
  · simp [hst] at hst'
  · exact absurd hop hop'
  · exact happ

/-- The loop succeeds if the first iteration and the rest do. -/
theorem processLoop_cons_ok {amb : ℕ → Ambient} {result : BatchResult} {cmds : List WriteEnvelope}
    {r : Database × BatchResult} :
    processLoop D amb tx result (cmd :: cmds) = .ok r ↔
      ∃ tx₁ o, processCommand D (amb 0) tx cmd = .ok (tx₁, o) ∧
        processLoop D (fun i => amb (i + 1)) tx₁ (BatchResult.add result o) cmds = .ok r := by
  rw [processLoop, except_bind_ok, Prod.exists]

theorem processLoop_of_recorded {amb : ℕ → Ambient} {cmds : List WriteEnvelope}
    (h : ∀ cmd ∈ cmds, IdempotencyTracker.check tx.idempotency cmd ≠ .new) (result : BatchResult) :
    processLoop D amb tx result cmds =
      .ok (tx, { result with duplicates := result.duplicates + cmds.length }) := by
  induction cmds generalizing amb result with
  | nil => rfl
  | cons cmd cmds ih =>
    have hcmd := processCommand_of_recorded (D := D) (a := amb 0) (h cmd (List.mem_cons_self ..))
    refine processLoop_cons_ok.2 ⟨_, _, hcmd, ?_⟩
    rw [ih (fun c hc => h c (List.mem_cons_of_mem _ hc))]
    simp only [BatchResult.add, List.length_cons]
    congr 3
    omega

/-- A batch of recorded commands changes nothing and reports duplicates only. -/
theorem processBatch_of_recorded {amb : ℕ → Ambient} {cmds : List WriteEnvelope}
    (h : ∀ cmd ∈ cmds, (tx.idempotency.find? (cmd.store, cmd.idempotencyKey)).isSome) :
    processBatch D amb tx cmds =
      .ok (tx,
        { store := (cmds.head?.map (·.store)).getD "", committed := 0, duplicates := cmds.length,
          versionConflicts := 0, events := [] }) := by
  unfold processBatch
  rw [processLoop_of_recorded fun cmd hcmd => IdempotencyTracker.check_ne_new.2 (h cmd hcmd)]
  simp

end WriteEngine

end Ixmati
