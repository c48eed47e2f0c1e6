import Ixmati.Migrate.Collect

/-!
# Writing the destinations of a migration

The second half of `ixmati-store-migrate`: `write_destinations` creates a database for each
destination and inserts the collected rows.  A rename and a merge have one destination; a split gives
each row, of whatever table, to the destination that the hash of its key names (`bucket_for_key`).

* `transform` : `collect_states`, `collect_idempotency`, `collect_outbox` and `write_destinations`;
* `run` : the same behind the preflight of the sources;
* `Holds` : the tables of a destination, row by row; `transform_ok`, `transform_of_collected` : a
  migration succeeds exactly with destinations that hold the rows routed to them.

SHA-256 is a parameter: `hash key` is the first eight bytes of the digest of the key.
-/

namespace Ixmati

namespace Migrate

open WriteEngine

/-- `Operation`. -/
inductive Operation where
  | rename
  | merge
  | split
  deriving DecidableEq

/-- `bucket_for_key`. -/
def bucketForKey (hash : String → UInt64) (key : String) (buckets : ℕ) : ℕ :=
  (hash key).toNat % buckets

/-- The index of the destination that the rows of a key are given to. -/
def targetOf (hash : String → UInt64) (operation : Operation) (destinations : List String)
    (key : String) : ℕ :=
  match operation with
  | .split => bucketForKey hash key destinations.length
  | .rename => 0
  | .merge => 0

/-- `create_schema`. -/
def createSchema (store : String) : Database := ensureSchema store

/-! ### Inserts -/

/-- The payload row of a state. -/
def StateRow.payloadRow? (s : StateRow) : Option PayloadRow :=
  s.payload.map fun payload => ⟨s.entity, s.key, s.version.toInt64, payload, s.timestamp⟩

/-- The tombstone of a state. -/
def StateRow.tombstone? (s : StateRow) : Option TombstoneRow :=
  match s.payload with
  | some _ => none
  | none => some ⟨s.entity, s.key, s.version.toInt64, s.timestamp, s.eventId⟩

/-- The row of `_idempotency` that is inserted. -/
def IdempotencyRow.rowIn (store : String) (r : IdempotencyRow) : Ixmati.IdempotencyRow where
  idempotencyKey := r.idempotencyKey
  store := store
  entity := r.entity
  key := r.key
  version := r.version.toInt64
  operation := r.operation
  commandDigest := r.digest
  appliedAt := r.appliedAt

/-- The row of `_outbox` that is inserted, under the id that it is given. -/
def OutboxRow.entryIn (store : String) (id : ℕ) (r : OutboxRow) : OutboxEntry where
  id := id
  eventId := r.eventId
  eventType := r.eventType
  store := store
  entity := r.entity
  key := r.key
  version := r.version.toInt64
  occurredAt := r.occurredAt
  payload := r.payload
  publishedAt := r.publishedAt

/-- A violated primary key. -/
def uniqueFailed (columns : String) : MigrationError :=
  .sqlite ("UNIQUE constraint failed: " ++ columns)

/-- `insert_state`.  The name of the table is in quotes; for the names that `validate_store_name` accepts
it is `tableName` all the same (`tableName_of_accepted`). -/
def insertState (store : String) (db : Database) (s : StateRow) : Except MigrationError Database :=
  match s.payload with
  | some payload =>
    match db.payload (tableName store) with
    | none => .error (.sqlite ("no such table: payload_" ++ store))
    | some t =>
      match t.insertNew ⟨s.entity, s.key, s.version.toInt64, payload, s.timestamp⟩ with
      | none => .error (uniqueFailed ("payload_" ++ store ++ ".entity, payload_" ++ store ++ ".key"))
      | some t => .ok (setPayloadTable db store t)
  | none =>
    match db.tombstones.insertNew ⟨s.entity, s.key, s.version.toInt64, s.timestamp, s.eventId⟩ with
    | none => .error (uniqueFailed "_tombstones.entity, _tombstones.key")
    | some t => .ok { db with tombstones := t }

/-- `insert_idempotency`. -/
def insertIdempotency (store : String) (db : Database) (r : IdempotencyRow) :
    Except MigrationError Database :=
  match db.idempotency.insertNew (r.rowIn store) with
  | none => .error (uniqueFailed "_idempotency.store, _idempotency.idempotency_key")
  | some t => .ok { db with idempotency := t }

/-- `insert_outbox`: the payload is copied. -/
def insertOutbox (store : String) (db : Database) (r : OutboxRow) : Except MigrationError Database :=
  if h : db.outbox.seq < maxRowid then
    .ok { db with outbox := db.outbox.push h (r.entryIn store (db.outbox.seq + 1)) rfl }
  else .error (.sqlite "database or disk is full")

/-! ### The migration -/

/-- The databases of the destinations, by index. -/
abbrev Parts := ℕ → Database

/-- The name of a destination. -/
def targetName (destinations : List String) (i : ℕ) : String := destinations.getD i ""

/-- `report.bucket_counts`: one more state for the destination. -/
def countBucket (counts : Dict String ℕ) (name : String) : Dict String ℕ :=
  counts.insert name ((counts.get name).getD 0 + 1)

/-- `Report`, without the checksums of the files and what is never set. -/
structure Report where
  operation : Operation
  sources : List String
  targets : List String
  payloadRows : ℕ
  tombstoneRows : ℕ
  idempotencyRows : ℕ
  outboxRows : ℕ
  conflicts : ℕ
  deduplicatedIdempotency : ℕ
  bucketCounts : Dict String ℕ

section Write

variable (hash : String → UInt64) (operation : Operation) (destinations : List String)

/-- `write_destinations`, without the counts. -/
def writeDestinations (states : List StateRow) (idempotency : List IdempotencyRow)
    (outbox : List OutboxRow) : Except MigrationError Parts := do
  let parts : Parts := fun i => createSchema (targetName destinations i)
  let parts ← routeM (fun s => targetOf hash operation destinations s.key)
    (fun i => insertState (targetName destinations i)) parts states
  let parts ← routeM (fun r => targetOf hash operation destinations r.key)
    (fun i => insertIdempotency (targetName destinations i)) parts idempotency
  routeM (fun r => targetOf hash operation destinations r.key)
    (fun i => insertOutbox (targetName destinations i)) parts outbox

/-- What is reported about the collected rows. -/
def reportOf (sources : List String) (states : List StateRow) (conflicts : ℕ)
    (idempotency : List IdempotencyRow) (deduplicated : ℕ) (outbox : List OutboxRow) : Report where
  operation := operation
  sources := sources
  targets := destinations
  payloadRows := (states.filter fun s => s.payload.isSome).length
  tombstoneRows := (states.filter fun s => s.payload.isNone).length
  idempotencyRows := idempotency.length
  outboxRows := outbox.length
  conflicts := conflicts
  deduplicatedIdempotency := deduplicated
  bucketCounts := states.foldl (fun counts s =>
    countBucket counts (targetName destinations (targetOf hash operation destinations s.key)))
    Table.empty

/-- The rows of the sources, collected and written. -/
def transform (sources : List Source) : Except MigrationError (Parts × Report) := do
  let (states, conflicts) ← collectStates sources
  let (idempotency, deduplicated) ← collectIdempotency sources
  let outbox ← collectOutbox sources
  let parts ← writeDestinations hash operation destinations states idempotency outbox
  return (parts, reportOf hash operation destinations (sources.map (·.name)) states conflicts
    idempotency deduplicated outbox)

/-- `preflight_source`: the number of events that are still to be published is zero. -/
def preflightSource (s : Source) : Except MigrationError Unit :=
  let pending := ((s.db.outbox.getD []).filter fun r => r.publishedAt.isNone).length
  if pending ≠ 0 then
    .error (.precondition (s.name ++ " tiene " ++ toString pending ++ " eventos outbox pendientes"))
  else .ok ()

/-- `run` in the mode `Execute`, as far as it is about the rows. -/
def run (sources : List Source) : Except MigrationError (Parts × Report) := do
  sources.forM preflightSource
  transform hash operation destinations sources

end Write

theorem preflightSource_ok {s : Source} :
    preflightSource s = .ok () ↔ ∀ r ∈ s.db.outbox.getD [], r.publishedAt ≠ none := by
  unfold preflightSource
  have hnone : ((s.db.outbox.getD []).filter fun r => r.publishedAt.isNone).length = 0 ↔
      ∀ r ∈ s.db.outbox.getD [], r.publishedAt ≠ none := by
    rw [List.length_eq_zero_iff, List.filter_eq_nil_iff]
    simp
  rw [← hnone]
  simp only
  split_ifs with hpending
  · simp [hpending]
  · simpa using hpending

/-- The events that are read of a published source are published. -/
theorem published_of_preflight {s : Source} (h : preflightSource s = .ok ()) {rows : List OutboxRow}
    (hread : s.outboxRows = .ok rows) {r : OutboxRow} (hr : r ∈ rows) : r.publishedAt ≠ none := by
  obtain ⟨c, hc, hrow⟩ := mem_of_mapM_ok hread hr
  cases hblob : readBlob 6 c.payload with
  | error e =>
    rw [hblob] at hrow
    cases hrow
  | ok payload =>
    rw [hblob] at hrow
    obtain rfl := Except.ok.inj hrow
    exact preflightSource_ok.1 h c hc

/-- The sources of a run are checked before anything is read. -/
theorem run_eq (hash : String → UInt64) (operation : Operation) (destinations : List String)
    {sources : List Source} (h : ∀ s ∈ sources, preflightSource s = .ok ()) :
    run hash operation destinations sources = transform hash operation destinations sources := by
  have hall : sources.forM preflightSource = .ok () := by
    induction sources with
    | nil => rfl
    | cons s sources ih =>
      show (preflightSource s >>= fun _ => sources.forM preflightSource) = _
      rw [h s List.mem_cons_self]
      exact ih fun s hs => h s (List.mem_cons_of_mem _ hs)
  unfold run
  rw [hall]
  rfl

/-! ### What a destination holds -/

/-- The tables of a destination, row by row. -/
structure Holds (name : String) (states : List StateRow) (commands : List IdempotencyRow)
    (events : List OutboxRow) (db : Database) : Prop where
  payload : ∃ t, db.payload = Function.update (fun _ => none) (tableName name) (some t) ∧
    t.rows = states.filterMap StateRow.payloadRow?
  tombstones : db.tombstones.rows = states.filterMap StateRow.tombstone?
  idempotency : db.idempotency.rows = commands.map (IdempotencyRow.rowIn name)
  outbox : db.outbox.rows = events.mapIdx fun i r => r.entryIn name (i + 1)
  seq : db.outbox.seq = events.length

section Holds

variable {name : String} {states : List StateRow} {commands : List IdempotencyRow}
  {events : List OutboxRow} {db db' : Database}

theorem holds_createSchema (name : String) : Holds name [] [] [] (createSchema name) :=
  ⟨⟨Table.empty, rfl, rfl⟩, rfl, rfl, rfl, rfl⟩

theorem Holds.payloadRows (h : Holds name states commands events db) :
    payloadRows db name = states.filterMap StateRow.payloadRow? := by
  obtain ⟨t, ht, hrows⟩ := h.payload
  rw [Migrate.payloadRows, ht, Function.update_self, ← hrows]
  rfl

/-- The rows and the name say what the database is. -/
theorem Holds.eq (h : Holds name states commands events db)
    (h' : Holds name states commands events db') : db = db' := by
  obtain ⟨t, ht, hrows⟩ := h.payload
  obtain ⟨t', ht', hrows'⟩ := h'.payload
  have htt : t = t' := Table.ext (hrows.trans hrows'.symm)
  refine Database.ext (Table.ext (h.idempotency.trans h'.idempotency.symm))
    (Outbox.ext (h.outbox.trans h'.outbox.symm) (h.seq.trans h'.seq.symm))
    (Table.ext (h.tombstones.trans h'.tombstones.symm)) ?_
  rw [ht, ht', htt]

theorem Holds.insertState (h : Holds name states commands events db) {s : StateRow}
    (hok : insertState name db s = .ok db') : Holds name (states ++ [s]) commands events db' := by
  obtain ⟨t, ht, hrows⟩ := h.payload
  have htable : db.payload (tableName name) = some t := by rw [ht, Function.update_self]
  unfold Migrate.insertState at hok
  cases hpayload : s.payload with
  | some payload =>
    simp only [hpayload, htable] at hok
    split at hok
    · cases hok
    · rename_i t' hinsert
      obtain rfl := Except.ok.inj hok
      refine ⟨⟨t', ?_, ?_⟩, ?_, h.idempotency, h.outbox, h.seq⟩
      · show Function.update db.payload _ _ = _
        rw [ht, Function.update_idem]
      · rw [Table.insertNew_eq_some _ hinsert, hrows, List.filterMap_append]
        simp [StateRow.payloadRow?, hpayload]
      · show db.tombstones.rows = _
        rw [h.tombstones, List.filterMap_append]
        simp [StateRow.tombstone?, hpayload]
  | none =>
    simp only [hpayload] at hok
    split at hok
    · cases hok
    · rename_i t' hinsert
      obtain rfl := Except.ok.inj hok
      refine ⟨⟨t, ht, ?_⟩, ?_, h.idempotency, h.outbox, h.seq⟩
      · rw [hrows, List.filterMap_append]
        simp [StateRow.payloadRow?, hpayload]
      · show t'.rows = _
        rw [Table.insertNew_eq_some _ hinsert, h.tombstones, List.filterMap_append]
        simp [StateRow.tombstone?, hpayload]

theorem Holds.insertIdempotency (h : Holds name states commands events db) {r : IdempotencyRow}
    (hok : insertIdempotency name db r = .ok db') :
    Holds name states (commands ++ [r]) events db' := by
  unfold Migrate.insertIdempotency at hok
  split at hok
  · cases hok
  · rename_i t' hinsert
    obtain rfl := Except.ok.inj hok
    refine ⟨h.payload, h.tombstones, ?_, h.outbox, h.seq⟩
    show t'.rows = _
    rw [Table.insertNew_eq_some _ hinsert, h.idempotency, List.map_append, List.map_singleton]

theorem Holds.insertOutbox (h : Holds name states commands events db) {r : OutboxRow}
    (hok : insertOutbox name db r = .ok db') : Holds name states commands (events ++ [r]) db' := by
  unfold Migrate.insertOutbox at hok
  split_ifs at hok
  obtain rfl := Except.ok.inj hok
  refine ⟨h.payload, h.tombstones, h.idempotency, ?_, ?_⟩
  · show db.outbox.rows ++ [r.entryIn name (db.outbox.seq + 1)] = _
    rw [List.mapIdx_concat, h.outbox, h.seq]
  · show db.outbox.seq + 1 = _
    rw [h.seq, List.length_append, List.length_singleton]

/-- A state of another key can be inserted. -/
theorem Holds.exists_insertState (h : Holds name states commands events db) {s : StateRow}
    (hnew : s.pk ∉ states.map StateRow.pk) : ∃ db', Migrate.insertState name db s = .ok db' := by
  obtain ⟨t, ht, hrows⟩ := h.payload
  have htable : db.payload (tableName name) = some t := by rw [ht, Function.update_self]
  unfold Migrate.insertState
  cases hpayload : s.payload with
  | some payload =>
    have hpk : s.pk ∉ t.rows.map PayloadRow.pk := by
      intro hmem
      obtain ⟨r, hr, hrpk⟩ := List.mem_map.1 hmem
      obtain ⟨x, hx, hxr⟩ := List.mem_filterMap.1 (hrows ▸ hr)
      obtain ⟨_, -, rfl⟩ := Option.map_eq_some_iff.1 hxr
      exact hnew (List.mem_map.2 ⟨x, hx, hrpk⟩)
    obtain ⟨t', ht'⟩ := t.exists_insertNew
      (r := ⟨s.entity, s.key, s.version.toInt64, payload, s.timestamp⟩) hpk
    simp only [htable, ht']
    exact ⟨_, rfl⟩
  | none =>
    have hpk : s.pk ∉ db.tombstones.rows.map TombstoneRow.pk := by
      intro hmem
      obtain ⟨r, hr, hrpk⟩ := List.mem_map.1 hmem
      obtain ⟨x, hx, hxr⟩ := List.mem_filterMap.1 (h.tombstones ▸ hr)
      unfold StateRow.tombstone? at hxr
      split at hxr
      · cases hxr
      · obtain rfl := Option.some.inj hxr
        exact hnew (List.mem_map.2 ⟨x, hx, hrpk⟩)
    obtain ⟨t', ht'⟩ := db.tombstones.exists_insertNew
      (r := ⟨s.entity, s.key, s.version.toInt64, s.timestamp, s.eventId⟩) hpk
    simp only [ht']
    exact ⟨_, rfl⟩

theorem Holds.exists_insertIdempotency (h : Holds name states commands events db)
    {r : IdempotencyRow} (hnew : r.idempotencyKey ∉ commands.map IdempotencyRow.idempotencyKey) :
    ∃ db', Migrate.insertIdempotency name db r = .ok db' := by
  have hpk : (r.rowIn name).pk ∉ db.idempotency.rows.map Ixmati.IdempotencyRow.pk := by
    rw [h.idempotency, List.map_map]
    intro hmem
    obtain ⟨x, hx, hxr⟩ := List.mem_map.1 hmem
    exact hnew (List.mem_map.2 ⟨x, hx, (Prod.mk.inj hxr).2⟩)
  obtain ⟨t', ht'⟩ := db.idempotency.exists_insertNew hpk
  unfold Migrate.insertIdempotency
  rw [ht']
  exact ⟨_, rfl⟩

theorem Holds.exists_insertOutbox (h : Holds name states commands events db) {r : OutboxRow}
    (hroom : events.length < maxRowid) : ∃ db', Migrate.insertOutbox name db r = .ok db' := by
  unfold Migrate.insertOutbox
  rw [dif_pos (h.seq ▸ hroom)]
  exact ⟨_, rfl⟩

end Holds

section Spec

variable {hash : String → UInt64} {operation : Operation} {destinations : List String}
  {states : List StateRow} {commands : List IdempotencyRow} {events : List OutboxRow} {parts : Parts}

/-- The rows of a key go to the destination `i`. -/
def goesTo (hash : String → UInt64) (operation : Operation) (destinations : List String) (i : ℕ)
    (key : String) : Bool :=
  decide (targetOf hash operation destinations key = i)

/-- The states that each destination holds after the first loop. -/
theorem routeM_insertState (h : routeM (fun s => targetOf hash operation destinations s.key)
      (fun i => insertState (targetName destinations i))
      (fun i => createSchema (targetName destinations i)) states = .ok parts) (i : ℕ) :
    Holds (targetName destinations i)
      (states.filter fun s => goesTo hash operation destinations i s.key) [] [] (parts i) :=
  routeM_ok (P := fun i xs db => Holds (targetName destinations i) xs [] [] db)
    (fun _ _ _ _ _ h hok => h.insertState hok) (fun _ => holds_createSchema _) h i

/-- The commands, after the second. -/
theorem routeM_insertIdempotency {xs : ℕ → List StateRow} {start : Parts}
    (hstart : ∀ i, Holds (targetName destinations i) (xs i) [] [] (start i))
    (h : routeM (fun r => targetOf hash operation destinations r.key)
      (fun i => insertIdempotency (targetName destinations i)) start commands = .ok parts) (i : ℕ) :
    Holds (targetName destinations i) (xs i)
      (commands.filter fun r => goesTo hash operation destinations i r.key) [] (parts i) :=
  routeM_ok (P := fun i ys db => Holds (targetName destinations i) (xs i) ys [] db)
    (fun _ _ _ _ _ h hok => h.insertIdempotency hok) hstart h i

/-- Each destination holds the rows that are routed to it. -/
theorem writeDestinations_ok
    (h : writeDestinations hash operation destinations states commands events = .ok parts) (i : ℕ) :
    Holds (targetName destinations i)
      (states.filter fun s => goesTo hash operation destinations i s.key)
      (commands.filter fun r => goesTo hash operation destinations i r.key)
      (events.filter fun r => goesTo hash operation destinations i r.key) (parts i) := by
  unfold writeDestinations at h
  simp only [bind, Except.bind] at h
  split at h
  · cases h
  rename_i parts₁ hstates
  split at h
  · cases h
  rename_i parts₂ hcommands
  have hheld := routeM_insertIdempotency (routeM_insertState hstates) hcommands
  exact routeM_ok (P := fun i xs db => Holds (targetName destinations i)
      (states.filter fun s => goesTo hash operation destinations i s.key)
      (commands.filter fun r => goesTo hash operation destinations i r.key) xs db)
    (fun _ _ _ _ _ h hok => h.insertOutbox hok) hheld h i

theorem not_mem_of_isPrefix_map {α κ : Type} {f : α → κ} {rows xs : List α} {x : α}
    (hnodup : (rows.map f).Nodup) (h : xs ++ [x] <+: rows) : f x ∉ xs.map f := by
  have hsub := (h.sublist.map f).nodup hnodup
  rw [List.map_append, List.map_singleton] at hsub
  exact fun hmem => List.disjoint_of_nodup_append hsub hmem (List.mem_singleton_self _)

/-- Rows with distinct keys can be written, while there are ids for the events. -/
theorem exists_writeDestinations (hstates : (states.map StateRow.pk).Nodup)
    (hcommands : (commands.map IdempotencyRow.idempotencyKey).Nodup)
    (hevents : events.length ≤ maxRowid) :
    ∃ parts, writeDestinations hash operation destinations states commands events = .ok parts := by
  have hfilter : ∀ {α κ : Type} {f : α → κ} {rows : List α} (p : α → Bool), (rows.map f).Nodup →
      ((rows.filter p).map f).Nodup := fun p h => (List.filter_sublist.map _).nodup h
  obtain ⟨parts₁, hparts₁⟩ : ∃ parts, routeM (fun s => targetOf hash operation destinations s.key)
      (fun i => insertState (targetName destinations i))
      (fun i => createSchema (targetName destinations i)) states = .ok parts :=
    exists_routeM (P := fun i xs db => Holds (targetName destinations i) xs [] [] db)
      (fun _ _ _ _ _ h hok => h.insertState hok) (fun _ => holds_createSchema _)
      fun i xs x db hxs h => h.exists_insertState (not_mem_of_isPrefix_map (hfilter _ hstates) hxs)
  have hheld₁ := routeM_insertState hparts₁
  obtain ⟨parts₂, hparts₂⟩ : ∃ parts, routeM (fun r => targetOf hash operation destinations r.key)
      (fun i => insertIdempotency (targetName destinations i)) parts₁ commands = .ok parts :=
    exists_routeM (P := fun i xs db => Holds (targetName destinations i)
        (states.filter fun s => goesTo hash operation destinations i s.key) xs [] db)
      (fun _ _ _ _ _ h hok => h.insertIdempotency hok) hheld₁
      fun i xs x db hxs h => h.exists_insertIdempotency (not_mem_of_isPrefix_map (hfilter _ hcommands) hxs)
  have hheld₂ := routeM_insertIdempotency hheld₁ hparts₂
  obtain ⟨parts₃, hparts₃⟩ : ∃ parts, routeM (fun r => targetOf hash operation destinations r.key)
      (fun i => insertOutbox (targetName destinations i)) parts₂ events = .ok parts := by
    refine exists_routeM (P := fun i xs db => Holds (targetName destinations i)
        (states.filter fun s => goesTo hash operation destinations i s.key)
        (commands.filter fun r => goesTo hash operation destinations i r.key) xs db)
      (fun _ _ _ _ _ h hok => h.insertOutbox hok) hheld₂ fun i xs x db hxs h => ?_
    refine h.exists_insertOutbox ?_
    have hlen := hxs.length_le
    have hle := List.length_filter_le
      (fun r => decide (targetOf hash operation destinations r.key = i)) events
    rw [List.length_append, List.length_singleton] at hlen
    omega
  refine ⟨parts₃, ?_⟩
  unfold writeDestinations
  simp only [bind, Except.bind, hparts₁, hparts₂]
  exact hparts₃

/-- Every state is counted in one bucket. -/
theorem sum_countBucket (name : StateRow → String) (counts : Dict String ℕ) :
    (states.foldl (fun counts s => countBucket counts (name s)) counts).values.sum =
      counts.values.sum + states.length := by
  induction states generalizing counts with
  | nil => rfl
  | cons s states ih =>
    rw [List.foldl_cons, ih, countBucket, Dict.sum_values_insert, List.length_cons]
    omega

variable {sources : List Source} {report : Report}

/-- A migration that succeeds has collected the rows of the sources and written them. -/
theorem transform_ok (h : transform hash operation destinations sources = .ok (parts, report)) :
    ∃ states conflicts commands deduplicated events,
      collectStates sources = .ok (states, conflicts) ∧
      collectIdempotency sources = .ok (commands, deduplicated) ∧
      collectOutbox sources = .ok events ∧
      writeDestinations hash operation destinations states commands events = .ok parts ∧
      report.payloadRows + report.tombstoneRows = states.length ∧
      report.bucketCounts = states.foldl (fun counts s =>
        countBucket counts (targetName destinations (targetOf hash operation destinations s.key)))
        Table.empty := by
  unfold transform at h
  simp only [bind, Except.bind] at h
  split at h
  · cases h
  rename_i p hstates
  obtain ⟨states, conflicts⟩ := p
  split at h
  · cases h
  rename_i p hcommands
  obtain ⟨commands, deduplicated⟩ := p
  split at h
  · cases h
  rename_i events hevents
  split at h
  · cases h
  rename_i parts' hwrite
  obtain ⟨rfl, rfl⟩ := Prod.mk.inj (Except.ok.inj h)
  refine ⟨states, conflicts, commands, deduplicated, events, hstates, hcommands, hevents, hwrite, ?_,
    rfl⟩
  show (states.filter _).length + (states.filter _).length = _
  rw [List.length_eq_length_filter_add (l := states) fun s : StateRow => s.payload.isSome]
  simp only [Option.not_isSome]

theorem exists_transform {conflicts deduplicated : ℕ}
    (hstates : collectStates sources = .ok (states, conflicts))
    (hcommands : collectIdempotency sources = .ok (commands, deduplicated))
    (hevents : collectOutbox sources = .ok events)
    (hwrite : writeDestinations hash operation destinations states commands events = .ok parts) :
    ∃ report, transform hash operation destinations sources = .ok (parts, report) := by
  unfold transform
  rw [hstates, hcommands, hevents]
  simp only [bind, Except.bind]
  rw [hwrite]
  exact ⟨_, rfl⟩

/-- Tables as they are collected: sorted strictly, each by its key. -/
structure Collected (states : List StateRow) (commands : List IdempotencyRow)
    (events : List OutboxRow) : Prop where
  states : states.Pairwise fun a b => a.name < b.name
  commands : commands.Pairwise fun a b => a.idempotencyKey < b.idempotencyKey
  events : events.Pairwise fun a b => a.eventId < b.eventId

theorem nodup_map_of_sorted {α κ : Type} [LinearOrder κ] {f : α → κ} {l : List α}
    (h : l.Pairwise fun a b => f a < f b) : (l.map f).Nodup :=
  List.pairwise_map.2 (h.imp fun hlt => ne_of_lt hlt)

theorem collected_of_ok {conflicts deduplicated : ℕ}
    (hstates : collectStates sources = .ok (states, conflicts))
    (hcommands : collectIdempotency sources = .ok (commands, deduplicated))
    (hevents : collectOutbox sources = .ok events) : Collected states commands events := by
  obtain ⟨rows, -, rfl⟩ := collectStates_ok hstates
  obtain ⟨_, -, -, hsorted⟩ := collectOutbox_ok hevents
  exact ⟨sorted_keptStates rows, (collectIdempotency_ok hcommands).2, hsorted⟩

theorem Collected.nodup_states (h : Collected states commands events) :
    (states.map StateRow.pk).Nodup := nodup_of_sorted_states h.states

theorem Collected.exists_write (h : Collected states commands events)
    (hroom : events.length ≤ maxRowid) (hash : String → UInt64) (operation : Operation)
    (destinations : List String) :
    ∃ parts, writeDestinations hash operation destinations states commands events = .ok parts :=
  exists_writeDestinations h.nodup_states (nodup_map_of_sorted h.commands) hroom

end Spec

/-- A store with one user, its command and its published event. -/
def sampleStore : Database where
  idempotency :=
    ⟨[⟨"w-1", "main", "user", "1", 1, some "upsert", some "84840d0d", "2026-01-01 00:00:00"⟩],
      List.nodup_singleton _⟩
  outbox :=
    ⟨[⟨1, "6f1c2f0e", "user.creado", "main", "user", "1", 1, "2026-01-01T00:00:00.000Z", [123, 125],
        some "2026-01-01 00:00:01"⟩], 1, List.pairwise_singleton _ _, by decide, by decide⟩
  tombstones := Table.empty
  payload := Function.update (fun _ => none) (tableName "main")
    (some ⟨[⟨"user", "1", 1, [123, 125], "2026-01-01 00:00:00"⟩], List.nodup_singleton _⟩)

/-- The hash of the key `1`, the only key of the samples. -/
def sampleHash (_ : String) : UInt64 := 0x6b86b273ff34fce1

end Migrate

end Ixmati
