import Ixmati.Core.Envelope
import Ixmati.Lib.Table

/-!
# The tables of a store

The SQLite tables that the writer keeps for a store and the statements it runs on them:
`_idempotency` (`dedup.rs`), `_tombstones` (`tombstones.rs`) and `payload_<store>`
(`write_engine.rs`).  Each statement is one function on tables; a `version` column is the
signed `INTEGER` that `version as i64` puts there, and comparisons and `MAX` are signed.

Every statement gets one lemma that says what it does to the lookups (`Table.find?`), and the
rest of the development uses these lemmas only.
-/

namespace Ixmati

/-! ### `_idempotency` -/

/-- A row of `_idempotency`. -/
structure IdempotencyRow where
  idempotencyKey : String
  store : String
  entity : String
  key : String
  version : Int64
  /-- `NULL` in rows written before the migration metadata existed. -/
  operation : Option String
  commandDigest : Option String
  appliedAt : String
  deriving DecidableEq

/-- `PRIMARY KEY (store, idempotency_key)`. -/
def IdempotencyRow.pk (r : IdempotencyRow) : String × String := (r.store, r.idempotencyKey)

/-- The row is about `key` of `entity` in `store`. -/
def IdempotencyRow.names (r : IdempotencyRow) (store entity key : String) : Prop :=
  r.store = store ∧ r.entity = entity ∧ r.key = key

instance (r : IdempotencyRow) (store entity key : String) : Decidable (r.names store entity key) :=
  inferInstanceAs (Decidable (_ ∧ _))

/-- The table `_idempotency`. -/
abbrev IdempotencyTable := Table IdempotencyRow.pk

/-- The answer of `IdempotencyTracker.check`. -/
inductive IdempotencyStatus where
  | new
  | alreadyApplied (storedVersion : UInt64)
  deriving DecidableEq

/-- `json!({..})` of the fields that identify a command, in the key order of `serde_json`. -/
def canonicalCommand (envelope : WriteEnvelope) : Json :=
  .object [
    ("entity", .string envelope.entity),
    ("key", .string envelope.key),
    ("op", .string envelope.op),
    ("payload", envelope.payload),
    ("store", .string envelope.store),
    ("ts", .string envelope.ts),
    ("version", .number (.posInt envelope.version))]

/-- The digest recorded with a command. -/
def commandDigest (D : Deps) (envelope : WriteEnvelope) : String :=
  D.sha256Hex (D.toVec (canonicalCommand envelope))

namespace IdempotencyTracker

/-- Has the idempotency key been recorded for the store? -/
def check (t : IdempotencyTable) (envelope : WriteEnvelope) : IdempotencyStatus :=
  match t.find? (envelope.store, envelope.idempotencyKey) with
  | some row => .alreadyApplied row.version.toUInt64
  | none => .new

/-- The row that `record` inserts. -/
def rowOf (D : Deps) (appliedAt : String) (envelope : WriteEnvelope) : IdempotencyRow where
  idempotencyKey := envelope.idempotencyKey
  store := envelope.store
  entity := envelope.entity
  key := envelope.key
  version := envelope.version.toInt64
  operation := some envelope.op
  commandDigest := some (commandDigest D envelope)
  appliedAt := appliedAt

/-- `INSERT OR IGNORE INTO _idempotency`. -/
def record (D : Deps) (appliedAt : String) (t : IdempotencyTable) (envelope : WriteEnvelope) :
    IdempotencyTable :=
  t.insertOrIgnore (rowOf D appliedAt envelope)

/-- `SELECT MAX(version) … WHERE store = .. AND entity = .. AND key = ..`, read back as `u64`. -/
def currentVersion (t : IdempotencyTable) (store entity key : String) : Option UInt64 :=
  ((t.rows.filter fun r => decide (r.names store entity key)).map (·.version)).max?.map
    Int64.toUInt64

instance lawfulOrderMaxInt64 : Std.LawfulOrderMax Int64 where
  max_eq_or a b := by
    change (if a ≤ b then b else a) = a ∨ (if a ≤ b then b else a) = b
    split_ifs <;> simp
  max_le_iff a b c := by
    change (if a ≤ b then b else a) ≤ c ↔ _
    simp only [Int64.le_iff_toInt_le]
    split_ifs <;> omega

variable {t : IdempotencyTable} {envelope : WriteEnvelope}

theorem check_eq_new :
    check t envelope = .new ↔ t.find? (envelope.store, envelope.idempotencyKey) = none := by
  unfold check
  cases t.find? (envelope.store, envelope.idempotencyKey) <;> simp

theorem check_ne_new :
    check t envelope ≠ .new ↔
      (t.find? (envelope.store, envelope.idempotencyKey)).isSome = true := by
  rw [Ne, check_eq_new, Option.isSome_iff_ne_none]

/-- `MAX` over no row is `NULL`. -/
theorem currentVersion_eq_none {store entity key : String} :
    currentVersion t store entity key = none ↔ ∀ r ∈ t.rows, ¬ r.names store entity key := by
  simp [currentVersion, List.max?_eq_none_iff, List.filter_eq_nil_iff]

/-- The stored version is the one of a row of the key, and no row of the key is above it in the
order of the column. -/
theorem currentVersion_eq_some {store entity key : String} {v : UInt64} :
    currentVersion t store entity key = some v ↔
      (∃ r ∈ t.rows, r.names store entity key ∧ r.version = v.toInt64) ∧
        ∀ r ∈ t.rows, r.names store entity key → r.version ≤ v.toInt64 := by
  have hmax : currentVersion t store entity key = some v ↔
      ((t.rows.filter fun r => decide (r.names store entity key)).map (·.version)).max? =
        some v.toInt64 := by
    rw [currentVersion, Option.map_eq_some_iff]
    constructor
    · rintro ⟨w, hw, rfl⟩; rw [Int64.toInt64_toUInt64, hw]
    · intro h; exact ⟨_, h, v.toUInt64_toInt64⟩
  rw [hmax, List.max?_eq_some_iff]
  simp only [List.mem_map, List.mem_filter, decide_eq_true_eq, and_assoc]
  constructor
  · rintro ⟨h, hall⟩
    exact ⟨h, fun r hr hn => hall _ ⟨r, hr, hn, rfl⟩⟩
  · rintro ⟨h, hall⟩
    refine ⟨h, ?_⟩
    rintro _ ⟨r, hr, hn, rfl⟩
    exact hall r hr hn

theorem rows_record {D : Deps} {appliedAt : String} (h : check t envelope = .new) :
    (record D appliedAt t envelope).rows = t.rows ++ [rowOf D appliedAt envelope] :=
  t.rows_insertOrIgnore (check_eq_new.1 h)

end IdempotencyTracker

/-! ### `_tombstones` -/

/-- A row of `_tombstones`. -/
structure TombstoneRow where
  entity : String
  key : String
  version : Int64
  deletedAt : String
  eventId : Option String
  deriving DecidableEq

/-- `PRIMARY KEY (entity, key)`. -/
def TombstoneRow.pk (r : TombstoneRow) : String × String := (r.entity, r.key)

/-- The table `_tombstones`. -/
abbrev TombstoneTable := Table TombstoneRow.pk

namespace Tombstones

/-- The row that `record` inserts. -/
def rowOf (deletedAt entity key : String) (version : UInt64) (eventId : String) :
    TombstoneRow where
  entity := entity
  key := key
  version := version.toInt64
  deletedAt := deletedAt
  eventId := some eventId

/-- Insert a tombstone, or replace one that is not newer. -/
def record (deletedAt : String) (t : TombstoneTable) (entity key : String) (version : UInt64)
    (eventId : String) : TombstoneTable :=
  t.upsertWhere (fun old => decide (old.version ≤ version.toInt64))
    (rowOf deletedAt entity key version eventId)

/-- `DELETE FROM _tombstones WHERE entity = ?1 AND key = ?2 AND version <= ?3`. -/
def clearIfOlder (t : TombstoneTable) (entity key : String) (version : UInt64) : TombstoneTable :=
  t.deleteWhere fun r => decide (r.entity = entity ∧ r.key = key ∧ r.version ≤ version.toInt64)

variable {t : TombstoneTable} {entity key : String} {version : UInt64}

theorem pk_rowOf (deletedAt eventId : String) :
    (rowOf deletedAt entity key version eventId).pk = (entity, key) := rfl

theorem find?_record_of_le {deletedAt eventId : String}
    (h : ∀ r, t.find? (entity, key) = some r → r.version ≤ version.toInt64) (k : String × String) :
    (record deletedAt t entity key version eventId).find? k =
      if k = (entity, key) then some (rowOf deletedAt entity key version eventId)
      else t.find? k := by
  rw [record, Table.find?_upsertWhere, pk_rowOf]
  by_cases hk : k = (entity, key)
  · subst hk
    rw [if_pos rfl, if_pos rfl]
    cases hf : t.find? (entity, key) with
    | none => rfl
    | some r => simp [Option.filter, h r hf]
  · rw [if_neg hk, if_neg hk]

theorem find?_clearIfOlder_of_le
    (h : ∀ r, t.find? (entity, key) = some r → r.version ≤ version.toInt64) (k : String × String) :
    (clearIfOlder t entity key version).find? k = if k = (entity, key) then none else t.find? k := by
  rw [clearIfOlder, Table.find?_deleteWhere]
  cases hf : t.find? k with
  | none => simp
  | some r =>
    have hk : (r.entity, r.key) = k := (t.find?_eq_some.1 hf).2
    by_cases hke : k = (entity, key)
    · rw [hke] at hf hk
      obtain ⟨he, hk'⟩ := Prod.mk.inj hk
      simp [Option.filter, hke, he, hk', h r hf]
    · have : ¬ (r.entity = entity ∧ r.key = key ∧ r.version ≤ version.toInt64) := by
        rintro ⟨rfl, rfl, -⟩; exact hke hk.symm
      simp [Option.filter, hke, this]

end Tombstones

/-! ### `payload_<store>` -/

/-- A row of `payload_<store>`. -/
structure PayloadRow where
  entity : String
  key : String
  version : Int64
  payload : Bytes
  updatedAt : String
  deriving DecidableEq

/-- `PRIMARY KEY (entity, key)`. -/
def PayloadRow.pk (r : PayloadRow) : String × String := (r.entity, r.key)

/-- A table `payload_<store>`. -/
abbrev PayloadTable := Table PayloadRow.pk

namespace PayloadTable

/-- `DELETE FROM payload_<store> WHERE entity = ?1 AND key = ?2`. -/
def delete (t : PayloadTable) (entity key : String) : PayloadTable :=
  t.deleteWhere fun r => decide (r.entity = entity ∧ r.key = key)

@[simp] theorem find?_delete (t : PayloadTable) (entity key : String) (k : String × String) :
    (PayloadTable.delete t entity key).find? k = if k = (entity, key) then none else t.find? k := by
  rw [PayloadTable.delete, Table.find?_deleteWhere]
  cases hf : t.find? k with
  | none => simp
  | some r =>
    have hk : (r.entity, r.key) = k := (t.find?_eq_some.1 hf).2
    by_cases hke : k = (entity, key)
    · obtain ⟨he, hk'⟩ := Prod.mk.inj (hk.trans hke)
      simp [Option.filter, hke, he, hk']
    · have : ¬ (r.entity = entity ∧ r.key = key) := by
        rintro ⟨rfl, rfl⟩; exact hke hk.symm
      simp [Option.filter, hke, this]

end PayloadTable

end Ixmati
