import Ixmati.Lib.Collect
import Ixmati.Writer.WriteEngine
import Mathlib.Data.Prod.Lex
import Mathlib.Data.String.Basic

/-!
# Collecting the sources of a migration

The first half of `ixmati-store-migrate`: the rows of all source databases are gathered, table by table.
Of the payload rows and tombstones of one key the newest is kept (`collect_states`), of the idempotency
rows with one idempotency key and of the events with one event id the first, and the others have to
agree with it (`collect_idempotency`, `collect_outbox`).  Each table is then sorted.

The sources are files that an older version may have written, so tables and columns may be missing and
a payload may be text (`SourceDb`).  `toSource` is the view of a database of this version.

* `collectStates_ok`, `collectIdempotency_ok`, `collectOutbox_ok` : what is kept, and that it is sorted;
* `perm_keptStates`, `collectIdempotency_of_nodup`, `collectOutbox_of_nodup` : everything is kept if no
  two rows share a key;
* `states_toSource`, `idempotencyRows_toSource`, `outboxRows_toSource` : the rows of a database of this
  version.
-/

namespace Ixmati

namespace Migrate

open WriteEngine

/-- `MigrationError`. -/
inductive MigrationError where
  | manifest (text : String)
  | precondition (text : String)
  | conflict (text : String)
  | sqlite (text : String)
  | io (text : String)
  deriving DecidableEq

/-! ### Source databases -/

/-- A value of SQLite. -/
inductive SqlValue where
  | null
  | integer (n : Int64)
  | real (x : F64)
  | text (b : Bytes)
  | blob (b : Bytes)
  deriving DecidableEq

/-- A row of `payload_<store>` as it is found. -/
structure PayloadCells where
  entity : String
  key : String
  version : Int64
  payload : SqlValue
  updatedAt : String
  deriving DecidableEq

/-- The table `_idempotency` as it is found; two of its columns may be missing. -/
structure IdempotencyCells where
  hasOperation : Bool
  hasDigest : Bool
  rows : List Ixmati.IdempotencyRow
  deriving DecidableEq

/-- A row of `_outbox` as it is found, without the columns that are not read. -/
structure OutboxCells where
  eventId : String
  eventType : String
  entity : String
  key : String
  version : Int64
  occurredAt : String
  payload : SqlValue
  publishedAt : Option String
  deriving DecidableEq

/-- A source database; a table that does not exist is `none`. -/
structure SourceDb where
  /-- The other tables, by the name they were created under. -/
  payload : String → Option (List PayloadCells)
  tombstones : Option (List TombstoneRow)
  idempotency : Option IdempotencyCells
  outbox : Option (List OutboxCells)

/-- A source of the manifest, opened. -/
structure Source where
  name : String
  db : SourceDb

/-- A payload row of this version. -/
def payloadCells (r : PayloadRow) : PayloadCells :=
  ⟨r.entity, r.key, r.version, .blob r.payload, r.updatedAt⟩

/-- An event of this version. -/
def outboxCells (r : OutboxEntry) : OutboxCells :=
  ⟨r.eventId, r.eventType, r.entity, r.key, r.version, r.occurredAt, .blob r.payload, r.publishedAt⟩

/-- The database of the store `name`, as a source. -/
def toSource (name : String) (db : Database) : Source where
  name := name
  db := {
    payload := fun table =>
      if table = "payload_" ++ name then
        (db.payload (tableName name)).map fun t => t.rows.map payloadCells
      else none
    tombstones := some db.tombstones.rows
    idempotency := some ⟨true, true, db.idempotency.rows⟩
    outbox := some (db.outbox.rows.map outboxCells) }

/-- `Value::data_type` of a number, as it is printed. -/
def SqlValue.typeName : SqlValue → String
  | .null => "Null"
  | .integer _ => "Integer"
  | .real _ => "Real"
  | .text _ => "Text"
  | .blob _ => "Blob"

/-- `read_blob`. -/
def readBlob (index : ℕ) : SqlValue → Except MigrationError Bytes
  | .blob bytes => .ok bytes
  | .text bytes => .ok bytes
  | .null => .ok []
  | value =>
    .error (.sqlite ("Conversion error from type " ++ value.typeName ++ " at index: " ++
      toString index ++ ", payload must be BLOB, TEXT or NULL"))

/-! ### The newest state of each key -/

/-- `StateRow`: a payload row, or a tombstone if there is no payload. -/
structure StateRow where
  entity : String
  key : String
  version : UInt64
  timestamp : String
  source : String
  payload : Option Bytes
  eventId : Option String
  deriving DecidableEq

/-- The key that states are merged by. -/
def StateRow.pk (s : StateRow) : String × String := (s.entity, s.key)

/-- The payload rows of a source. -/
def Source.payloadStates (s : Source) : Except MigrationError (List StateRow) :=
  ((s.db.payload ("payload_" ++ s.name)).getD []).mapM fun r => do
    return {
      entity := r.entity
      key := r.key
      version := r.version.toUInt64
      timestamp := r.updatedAt
      source := s.name
      payload := some (← readBlob 3 r.payload)
      eventId := none }

/-- The tombstones of a source. -/
def Source.tombstoneStates (s : Source) : List StateRow :=
  (s.db.tombstones.getD []).map fun r =>
    { entity := r.entity
      key := r.key
      version := r.version.toUInt64
      timestamp := r.deletedAt
      source := s.name
      payload := none
      eventId := r.eventId }

/-- The rows of a source, in the order in which they are merged. -/
def Source.states (s : Source) : Except MigrationError (List StateRow) := do
  return (← s.payloadStates) ++ s.tombstoneStates

/-- `compare_state`: the smaller source wins. -/
def compareState (a b : StateRow) : Ordering :=
  (compare a.version b.version).then ((compare a.timestamp b.timestamp).then (compare b.source a.source))

/-- `merge_state`, with the number of conflicts so far. -/
def mergeState (acc : Dict (String × String) StateRow × ℕ) (candidate : StateRow) :
    Dict (String × String) StateRow × ℕ :=
  match acc.1.get candidate.pk with
  | none => (acc.1.insert candidate.pk candidate, acc.2)
  | some current =>
    let conflict := decide (current.version ≠ candidate.version ∨
      current.payload ≠ candidate.payload ∨ current.timestamp ≠ candidate.timestamp)
    (if compareState candidate current = .gt then acc.1.insert candidate.pk candidate else acc.1,
      if conflict then acc.2 + 1 else acc.2)

/-- What `collect_states` sorts by. -/
def StateRow.sortKey (s : StateRow) : String ×ₗ String ×ₗ ℕ ×ₗ String ×ₗ String :=
  toLex (s.entity, toLex (s.key, toLex (s.version.toNat, toLex (s.timestamp, s.source))))

/-- `collect_states`, and the number of conflicts. -/
def collectStates (sources : List Source) : Except MigrationError (List StateRow × ℕ) := do
  let (states, conflicts) ←
    collectM Source.states (fun acc rows => .ok (rows.foldl mergeState acc)) (Table.empty, 0) sources
  return (sortOn StateRow.sortKey states.values, conflicts)

/-! ### The first row of each idempotency key -/

/-- `IdempotencyRow` of the migration. -/
structure IdempotencyRow where
  idempotencyKey : String
  entity : String
  key : String
  version : UInt64
  operation : Option String
  digest : Option String
  appliedAt : String
  source : String
  deriving DecidableEq

/-- The idempotency rows of a source. -/
def Source.idempotencyRows (s : Source) : List IdempotencyRow :=
  match s.db.idempotency with
  | none => []
  | some table => table.rows.map fun r =>
    { idempotencyKey := r.idempotencyKey
      entity := r.entity
      key := r.key
      version := r.version.toUInt64
      operation := if table.hasOperation then r.operation else none
      digest := if table.hasDigest then r.commandDigest else none
      appliedAt := r.appliedAt
      source := s.name }

/-- `same_idempotency`. -/
def sameIdempotency (a b : IdempotencyRow) : Bool :=
  decide (a.entity = b.entity ∧ a.key = b.key ∧ a.version = b.version ∧ a.operation = b.operation ∧
    a.digest = b.digest)

/-- The error for two commands with one idempotency key. -/
def divergingIdempotency (existing row : IdempotencyRow) : MigrationError :=
  .conflict ("idempotency_key " ++ row.idempotencyKey ++ " diverge entre " ++ existing.source ++
    " y " ++ row.source)

/-- What `collect_idempotency` sorts by. -/
def IdempotencyRow.sortKey (r : IdempotencyRow) : String ×ₗ String := toLex (r.idempotencyKey, r.source)

/-- `collect_idempotency`, and the number of rows that were there twice. -/
def collectIdempotency (sources : List Source) : Except MigrationError (List IdempotencyRow × ℕ) := do
  let (rows, deduplicated) ←
    collectM (fun s => .ok (Source.idempotencyRows s))
      (fun acc rows =>
        collectFirst IdempotencyRow.idempotencyKey sameIdempotency divergingIdempotency acc.1 acc.2 rows)
      (Table.empty, 0) sources
  return (sortOn IdempotencyRow.sortKey rows.values, deduplicated)

/-! ### The first row of each event -/

/-- `OutboxRow` of the migration. -/
structure OutboxRow where
  eventId : String
  eventType : String
  entity : String
  key : String
  version : UInt64
  occurredAt : String
  payload : Bytes
  publishedAt : Option String
  deriving DecidableEq

/-- The events of a source. -/
def Source.outboxRows (s : Source) : Except MigrationError (List OutboxRow) :=
  (s.db.outbox.getD []).mapM fun r => do
    return {
      eventId := r.eventId
      eventType := r.eventType
      entity := r.entity
      key := r.key
      version := r.version.toUInt64
      occurredAt := r.occurredAt
      payload := ← readBlob 6 r.payload
      publishedAt := r.publishedAt }

/-- The comparison of two rows of one event. -/
def sameEvent (existing row : OutboxRow) : Bool :=
  decide (existing.eventType = row.eventType ∧ existing.payload = row.payload)

/-- The error for two events with one id. -/
def divergingEvent (_existing row : OutboxRow) : MigrationError :=
  .conflict ("event_id " ++ row.eventId ++ " tiene payload divergente")

/-- What `collect_outbox` sorts by. -/
def OutboxRow.sortKey (r : OutboxRow) : String ×ₗ String ×ₗ String ×ₗ ℕ :=
  toLex (r.eventId, toLex (r.entity, toLex (r.key, r.version.toNat)))

/-- `collect_outbox`. -/
def collectOutbox (sources : List Source) : Except MigrationError (List OutboxRow) := do
  let (rows, _) ←
    collectM Source.outboxRows
      (fun acc rows => collectFirst OutboxRow.eventId sameEvent divergingEvent acc.1 acc.2 rows)
      (Table.empty, 0) sources
  return sortOn OutboxRow.sortKey rows.values

/-! ### What is collected -/

section Spec

variable {sources : List Source}

/-- The order of the collected states. -/
def StateRow.name (s : StateRow) : String ×ₗ String := toLex s.pk

/-- A candidate that takes the place of the current state. -/
def newer (a b : StateRow) : Bool := decide (compareState a b = .gt)

theorem fst_foldl_mergeState (rows : List StateRow) (acc : Dict (String × String) StateRow × ℕ) :
    (rows.foldl mergeState acc).1 = rows.foldl (mergeBest StateRow.pk newer) acc.1 := by
  induction rows generalizing acc with
  | nil => rfl
  | cons r rows ih =>
    rw [List.foldl_cons, List.foldl_cons, ih]
    congr 1
    unfold mergeState mergeBest newer
    cases acc.1.get r.pk with
    | none => rfl
    | some current => simp

/-- The states kept of some rows. -/
def keptStates (rows : List StateRow) : List StateRow :=
  sortOn StateRow.sortKey (rows.foldl (mergeBest StateRow.pk newer) Table.empty).values

theorem collectStates_ok {states : List StateRow} {conflicts : ℕ}
    (h : collectStates sources = .ok (states, conflicts)) :
    ∃ rows, readAll Source.states sources = .ok rows ∧ states = keptStates rows := by
  unfold collectStates at h
  cases hcollect : collectM Source.states (fun acc rows => .ok (rows.foldl mergeState acc))
      (Table.empty, 0) sources with
  | error e =>
    rw [hcollect] at h
    cases h
  | ok p =>
    rw [hcollect] at h
    obtain ⟨rows, hread, hfold⟩ := (collectM_ok (fun _ => rfl) fun acc xs ys => by
      rw [List.foldl_append]; rfl).1 hcollect
    refine ⟨rows, hread, ?_⟩
    obtain ⟨rfl, -⟩ := Prod.mk.inj (Except.ok.inj h)
    rw [keptStates, ← fst_foldl_mergeState rows (Table.empty, 0), ← Except.ok.inj hfold]

theorem collectStates_of_readAll {rows : List StateRow} (h : readAll Source.states sources = .ok rows) :
    ∃ conflicts, collectStates sources = .ok (keptStates rows, conflicts) := by
  have hcollect : collectM Source.states (fun acc rows => .ok (rows.foldl mergeState acc))
      (Table.empty, 0) sources =
        (.ok (rows.foldl mergeState (Table.empty, 0)) : Except MigrationError _) :=
    (collectM_ok (fun _ => rfl) fun acc xs ys => by rw [List.foldl_append]; rfl).2 ⟨rows, h, rfl⟩
  refine ⟨(rows.foldl mergeState (Table.empty, 0)).2, ?_⟩
  rw [collectStates, hcollect, keptStates, ← fst_foldl_mergeState rows (Table.empty, 0)]
  rfl

theorem name_le_of_sortKey_le {a b : StateRow} (h : a.sortKey ≤ b.sortKey) : a.name ≤ b.name := by
  unfold StateRow.sortKey at h
  rw [Prod.Lex.toLex_le_toLex] at h
  unfold StateRow.name StateRow.pk
  rw [Prod.Lex.toLex_le_toLex]
  refine h.imp_right fun h => ⟨h.1, ?_⟩
  rcases Prod.Lex.toLex_le_toLex.1 h.2 with h | h
  · exact le_of_lt h
  · exact le_of_eq h.1

/-- The states are in key order. -/
theorem sorted_keptStates (rows : List StateRow) :
    (keptStates rows).Pairwise fun a b => a.name < b.name := by
  refine pairwise_sortOn (fun a b => name_le_of_sortKey_le) ?_
  have hkeyed : (rows.foldl (mergeBest StateRow.pk newer) Table.empty).KeyedBy StateRow.pk :=
    keyedBy_foldl_mergeBest rows
  rw [show StateRow.name = toLex ∘ StateRow.pk from rfl, ← List.map_map]
  exact hkeyed.nodup.map toLex.injective

/-- No two states have one key. -/
theorem nodup_of_sorted_states {states : List StateRow}
    (h : states.Pairwise fun a b => a.name < b.name) : (states.map StateRow.pk).Nodup := by
  refine List.pairwise_map.2 (h.imp fun {a b} hlt hpk => ?_)
  exact absurd hlt (not_lt_of_ge (le_of_eq (congrArg toLex hpk.symm)))

/-- The state kept of a key is the newest of its rows. -/
theorem mem_keptStates {rows : List StateRow} {s : StateRow} :
    s ∈ keptStates rows ↔ best newer (rows.filter fun r => decide (r.pk = s.pk)) = some s := by
  rw [keptStates, mem_sortOn, (keyedBy_foldl_mergeBest rows).mem_values, get_foldl_mergeBest]

theorem mem_of_mem_keptStates {rows : List StateRow} {s : StateRow} (hs : s ∈ keptStates rows) :
    s ∈ rows := by
  obtain ⟨hmem, -⟩ := best_spec (f := fun _ => 0) (fun _ _ _ => le_rfl) (fun _ _ _ => le_rfl)
    (mem_keptStates.1 hs)
  exact (List.mem_filter.1 hmem).1

/-- States with distinct keys are all kept. -/
theorem perm_keptStates {rows : List StateRow} (hnodup : (rows.map StateRow.pk).Nodup) :
    (keptStates rows).Perm rows := by
  unfold keptStates
  rw [values_foldl_mergeBest hnodup fun _ _ => rfl]
  exact perm_sortOn _ _

theorem compare_version_of_lt {a b : UInt64} (h : a < b) : compare a b = .lt := by
  show compareOfLessAndEq a b = .lt
  rw [compareOfLessAndEq, if_pos h]

theorem version_le_of_newer {a b : StateRow} (h : newer a b = true) : b.version ≤ a.version := by
  by_contra hlt
  have hcmp := of_decide_eq_true h
  rw [compareState, compare_version_of_lt (UInt64.not_le.1 hlt)] at hcmp
  cases hcmp

theorem version_le_of_not_newer {a b : StateRow} (h : newer a b = false) : a.version ≤ b.version := by
  by_contra hlt
  have hcmp : compare a.version b.version = .gt := by
    have hgt := UInt64.not_le.1 hlt
    show compareOfLessAndEq a.version b.version = .gt
    rw [compareOfLessAndEq, if_neg fun h => hlt (UInt64.le_of_lt h),
      if_neg fun h => UInt64.lt_irrefl _ (h ▸ hgt)]
  refine of_decide_eq_false h ?_
  rw [compareState, hcmp]
  rfl

theorem collectIdempotency_ok {kept : List IdempotencyRow} {deduplicated : ℕ}
    (h : collectIdempotency sources = .ok (kept, deduplicated)) :
    FirstOfEach IdempotencyRow.idempotencyKey sameIdempotency
      (sources.flatMap Source.idempotencyRows) kept ∧
    kept.Pairwise fun a b => a.idempotencyKey < b.idempotencyKey := by
  unfold collectIdempotency at h
  cases hcollect : collectM (fun s => .ok (Source.idempotencyRows s))
      (fun acc rows =>
        collectFirst IdempotencyRow.idempotencyKey sameIdempotency divergingIdempotency acc.1 acc.2 rows)
      (Table.empty, 0) sources with
  | error e =>
    rw [hcollect] at h
    cases h
  | ok p =>
    rw [hcollect] at h
    obtain ⟨rfl, -⟩ := Prod.mk.inj (Except.ok.inj h)
    obtain ⟨rows, hread, hkept, hnodup⟩ := collectM_collectFirst hcollect
    rw [readAll_pure] at hread
    obtain rfl := Except.ok.inj hread
    refine ⟨hkept.of_mem_iff fun x => mem_sortOn, pairwise_sortOn (fun a b hle => ?_) hnodup⟩
    rcases Prod.Lex.toLex_le_toLex.1 hle with hlt | ⟨heq, -⟩
    · exact le_of_lt hlt
    · exact le_of_eq heq

theorem collectOutbox_ok {kept : List OutboxRow} (h : collectOutbox sources = .ok kept) :
    ∃ rows, readAll Source.outboxRows sources = .ok rows ∧
      FirstOfEach OutboxRow.eventId sameEvent rows kept ∧
      kept.Pairwise fun a b => a.eventId < b.eventId := by
  unfold collectOutbox at h
  cases hcollect : collectM Source.outboxRows
      (fun acc rows => collectFirst OutboxRow.eventId sameEvent divergingEvent acc.1 acc.2 rows)
      (Table.empty, 0) sources with
  | error e =>
    rw [hcollect] at h
    cases h
  | ok p =>
    rw [hcollect] at h
    obtain rfl := Except.ok.inj h
    obtain ⟨rows, hread, hkept, hnodup⟩ := collectM_collectFirst hcollect
    refine ⟨rows, hread, hkept.of_mem_iff fun x => mem_sortOn,
      pairwise_sortOn (fun a b hle => ?_) hnodup⟩
    rcases Prod.Lex.toLex_le_toLex.1 hle with hlt | ⟨heq, -⟩
    · exact le_of_lt hlt
    · exact le_of_eq heq

/-- Commands with distinct idempotency keys are all kept. -/
theorem collectIdempotency_of_nodup
    (hnodup : ((sources.flatMap Source.idempotencyRows).map IdempotencyRow.idempotencyKey).Nodup) :
    ∃ kept, collectIdempotency sources = .ok (kept, 0) ∧
      kept.Perm (sources.flatMap Source.idempotencyRows) := by
  obtain ⟨d, hcollect, hvalues⟩ := exists_collectM_collectFirst sameIdempotency divergingIdempotency
    (readAll_pure Source.idempotencyRows sources) hnodup
  refine ⟨sortOn IdempotencyRow.sortKey d.values, ?_, ?_⟩
  · unfold collectIdempotency
    rw [hcollect]
    rfl
  · rw [hvalues]
    exact perm_sortOn _ _

/-- Events with distinct ids are all kept. -/
theorem collectOutbox_of_nodup {rows : List OutboxRow}
    (hread : readAll Source.outboxRows sources = .ok rows) (hnodup : (rows.map OutboxRow.eventId).Nodup) :
    ∃ kept, collectOutbox sources = .ok kept ∧ kept.Perm rows := by
  obtain ⟨d, hcollect, hvalues⟩ := exists_collectM_collectFirst sameEvent divergingEvent hread hnodup
  refine ⟨sortOn OutboxRow.sortKey d.values, ?_, ?_⟩
  · unfold collectOutbox
    rw [hcollect]
    rfl
  · rw [hvalues]
    exact perm_sortOn _ _

/-! ### The rows of a database of this version -/

/-- The state of a payload row. -/
def stateOfPayload (source : String) (r : PayloadRow) : StateRow :=
  ⟨r.entity, r.key, r.version.toUInt64, r.updatedAt, source, some r.payload, none⟩

/-- The state of a tombstone. -/
def stateOfTombstone (source : String) (r : TombstoneRow) : StateRow :=
  ⟨r.entity, r.key, r.version.toUInt64, r.deletedAt, source, none, r.eventId⟩

/-- The rows of `payload_<name>`. -/
def payloadRows (db : Database) (name : String) : List PayloadRow :=
  ((db.payload (tableName name)).map fun t => t.rows).getD []

theorem states_toSource (name : String) (db : Database) :
    (toSource name db).states = .ok ((payloadRows db name).map (stateOfPayload name) ++
      db.tombstones.rows.map (stateOfTombstone name)) := by
  have hcells : ((toSource name db).db.payload ("payload_" ++ (toSource name db).name)).getD [] =
      (payloadRows db name).map payloadCells := by
    unfold toSource payloadRows
    simp only [if_true]
    cases db.payload (tableName name) <;> rfl
  have hpayload : (toSource name db).payloadStates =
      .ok ((payloadRows db name).map (stateOfPayload name)) := by
    unfold Source.payloadStates
    rw [hcells, List.mapM_map]
    exact List.mapM_pure
  unfold Source.states
  rw [hpayload]
  rfl

/-- The migration row of a recorded command. -/
def commandOfRow (source : String) (r : Ixmati.IdempotencyRow) : IdempotencyRow :=
  ⟨r.idempotencyKey, r.entity, r.key, r.version.toUInt64, r.operation, r.commandDigest, r.appliedAt,
    source⟩

theorem idempotencyRows_toSource (name : String) (db : Database) :
    (toSource name db).idempotencyRows = db.idempotency.rows.map (commandOfRow name) := rfl

/-- The migration row of an event. -/
def eventOfEntry (r : OutboxEntry) : OutboxRow :=
  ⟨r.eventId, r.eventType, r.entity, r.key, r.version.toUInt64, r.occurredAt, r.payload, r.publishedAt⟩

theorem outboxRows_toSource (name : String) (db : Database) :
    (toSource name db).outboxRows = .ok (db.outbox.rows.map eventOfEntry) := by
  unfold Source.outboxRows
  show (db.outbox.rows.map outboxCells).mapM _ = _
  rw [List.mapM_map]
  exact List.mapM_pure

end Spec

end Migrate

end Ixmati
