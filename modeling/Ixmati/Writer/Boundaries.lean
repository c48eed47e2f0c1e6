import Ixmati.Writer.History
import Mathlib.Data.List.Forall2

/-!
# Batch boundaries

The `Batcher` cuts the stream of commands by size and by time, so where a batch ends is an accident.
The checks of `process_batch` read what earlier commands of the same transaction wrote, so a cut does
not show: `process_batch` on two batches, one after the other, decides every command as it does on
the batch of both.

Two runs of the engine draw different event ids and clock readings.  `Database.Similar` compares
databases up to these; `processCommand_similar` says that the engine does not see them.
-/

namespace Ixmati

open WriteEngine

/-! ### Up to what is drawn from outside -/

/-- The row without its clock reading. -/
def IdempotencyRow.core (r : IdempotencyRow) : IdempotencyRow := { r with appliedAt := "" }

/-- The row without its clock reading and event id. -/
def TombstoneRow.core (r : TombstoneRow) : TombstoneRow := { r with deletedAt := "", eventId := none }

/-- The row without its clock reading. -/
def PayloadRow.core (r : PayloadRow) : PayloadRow := { r with updatedAt := "" }

/-- The event without its id and its clock reading. -/
def EventEnvelope.core (e : EventEnvelope) : EventEnvelope := { e with eventId := "", occurredAt := "" }

/-- The rows are equal, or they store events that are equal up to event id and clock reading, under
the same outbox id. -/
def OutboxEntry.Similar (D : Deps) (o o' : OutboxEntry) : Prop :=
  o = o' ∨ ∃ id e e', e.core = e'.core ∧ o = Outbox.stored D id e ∧ o' = Outbox.stored D id e'

/-- The databases are equal up to event ids and clock readings. -/
structure Database.Similar (D : Deps) (db db' : Database) : Prop where
  idempotency : db.idempotency.rows.map IdempotencyRow.core =
    db'.idempotency.rows.map IdempotencyRow.core
  outbox : List.Forall₂ (OutboxEntry.Similar D) db.outbox.rows db'.outbox.rows
  seq : db.outbox.seq = db'.outbox.seq
  tombstones : db.tombstones.rows.map TombstoneRow.core = db'.tombstones.rows.map TombstoneRow.core
  payload : ∀ name, (db.payload name).map (·.rows.map PayloadRow.core) =
    (db'.payload name).map (·.rows.map PayloadRow.core)

theorem Database.Similar.refl (D : Deps) (db : Database) : db.Similar D db where
  idempotency := rfl
  outbox := List.forall₂_same.2 fun _ _ => Or.inl rfl
  seq := rfl
  tombstones := rfl
  payload _ := rfl

/-! ### What the checks read -/

namespace IdempotencyTracker

variable {t t' : IdempotencyTable} {cmd : WriteEnvelope}

/-- The rows of one store. -/
def ofStore (t : IdempotencyTable) (store : String) : List IdempotencyRow :=
  t.rows.filter fun r => decide (r.store = store)

/-- The checks on a command read the rows of its store only, and no clock reading. -/
theorem check_congr (h : (ofStore t cmd.store).map IdempotencyRow.core =
    (ofStore t' cmd.store).map IdempotencyRow.core) :
    check t cmd = .new ↔ check t' cmd = .new := by
  have hkeys : ∀ t : IdempotencyTable, check t cmd = .new ↔
      ∀ r ∈ (ofStore t cmd.store).map IdempotencyRow.core, r.idempotencyKey ≠ cmd.idempotencyKey := by
    intro t
    rw [check_eq_new, Table.find?_eq_none]
    simp only [ofStore, List.mem_map, List.mem_filter, decide_eq_true_eq, IdempotencyRow.pk, ne_eq,
      Prod.mk.injEq, not_and]
    constructor
    · rintro hall _ ⟨r, ⟨hr, hstore⟩, rfl⟩
      exact hall r hr hstore
    · exact fun hall r hr hstore => hall r.core ⟨r, ⟨hr, hstore⟩, rfl⟩
  rw [hkeys, hkeys, h]

theorem currentVersion_congr {store entity key : String}
    (h : (ofStore t store).map IdempotencyRow.core = (ofStore t' store).map IdempotencyRow.core) :
    currentVersion t store entity key = currentVersion t' store entity key := by
  have hrows : ∀ t : IdempotencyTable,
      (t.rows.filter fun r => decide (r.names store entity key)).map (·.version) =
        (((ofStore t store).map IdempotencyRow.core).filter fun r =>
          decide (r.names store entity key)).map (·.version) := by
    intro t
    rw [List.filter_map, List.map_map, ofStore, List.filter_filter]
    have hnames : ∀ r : IdempotencyRow,
        (((fun r => decide (r.names store entity key)) ∘ IdempotencyRow.core) r &&
          decide (r.store = store)) = decide (r.names store entity key) := by
      intro r
      by_cases hstore : r.store = store <;>
        simp [IdempotencyRow.core, IdempotencyRow.names, hstore]
    simp only [hnames]
    rfl
  rw [currentVersion, currentVersion, hrows, hrows, h]

end IdempotencyTracker

theorem isStale_congr {tx tx' : Database} {cmd : WriteEnvelope}
    (h : (IdempotencyTracker.ofStore tx.idempotency cmd.store).map IdempotencyRow.core =
      (IdempotencyTracker.ofStore tx'.idempotency cmd.store).map IdempotencyRow.core) :
    isStale tx cmd = isStale tx' cmd := by
  unfold isStale
  rw [IdempotencyTracker.currentVersion_congr h]

theorem getsThrough_congr {tx tx' : Database} {cmd : WriteEnvelope}
    (h : (IdempotencyTracker.ofStore tx.idempotency cmd.store).map IdempotencyRow.core =
      (IdempotencyTracker.ofStore tx'.idempotency cmd.store).map IdempotencyRow.core) :
    GetsThrough tx cmd ↔ GetsThrough tx' cmd := by
  unfold GetsThrough
  rw [IdempotencyTracker.check_congr h, isStale_congr h]

/-! ### The engine does not see what is drawn from outside -/

variable {D : Deps} {a a' : Ambient} {tx tx' tx₁ tx₁' : Database} {cmd : WriteEnvelope}

theorem Database.Similar.ofStore (h : tx.Similar D tx') (store : String) :
    (IdempotencyTracker.ofStore tx.idempotency store).map IdempotencyRow.core =
      (IdempotencyTracker.ofStore tx'.idempotency store).map IdempotencyRow.core := by
  have hfilter : ∀ t : IdempotencyTable,
      (IdempotencyTracker.ofStore t store).map IdempotencyRow.core =
        (t.rows.map IdempotencyRow.core).filter fun r => decide (r.store = store) := by
    intro t
    rw [List.filter_map]
    rfl
  rw [hfilter, hfilter, h.idempotency]

/-- Applying a command to similar databases leaves similar databases. -/
theorem Database.Similar.applies (h : tx.Similar D tx') (happ : Applies D a tx cmd tx₁)
    (happ' : Applies D a' tx' cmd tx₁') : tx₁.Similar D tx₁' where
  idempotency := by
    rw [happ.idempotency, happ'.idempotency, List.map_append, List.map_append, h.idempotency]
    rfl
  outbox := by
    rw [happ.outbox, happ'.outbox, ← h.seq]
    exact List.rel_append h.outbox 
      (.cons (Or.inr ⟨_, eventOf a cmd, eventOf a' cmd, rfl, rfl, rfl⟩) .nil)
  seq := by rw [happ.seq, happ'.seq, h.seq]
  tombstones := by
    rw [happ.tombstones, happ'.tombstones]
    split_ifs
    · refine Table.map_rows_upsertWhere (fun _ => ?_) h.tombstones ?_ fun _ => ?_ <;> rfl
    · exact Table.map_rows_deleteWhere h.tombstones fun _ => rfl
  payload := by
    obtain ⟨t, ht, hpay⟩ := happ.payload
    obtain ⟨t', ht', hpay'⟩ := happ'.payload
    have hrows : t.rows.map PayloadRow.core = t'.rows.map PayloadRow.core := by
      simpa [ht, ht'] using h.payload (tableName cmd.store)
    intro name
    rw [hpay, hpay']
    by_cases hname : name = tableName cmd.store
    · subst hname
      rw [Function.update_self, Function.update_self, Option.map_some, Option.map_some]
      congr 1
      split_ifs
      · exact Table.map_rows_deleteWhere hrows fun _ => rfl
      · refine Table.map_rows_upsertWhere (fun _ => ?_) hrows ?_ fun _ => ?_ <;> rfl
    · rw [Function.update_of_ne hname, Function.update_of_ne hname]
      exact h.payload name

/-- The outcomes are equal up to the event id and clock reading of the event. -/
def WriteEngine.Outcome.core : Outcome → Outcome
  | .committed event => .committed event.core
  | o => o

/-- **The engine decides alike on similar databases**, whatever it draws from outside. -/
theorem processCommand_similar (a' : Ambient) (h : tx.Similar D tx') {o : Outcome}
    (hok : processCommand D a tx cmd = .ok (tx₁, o)) :
    ∃ tx₁' o', processCommand D a' tx' cmd = .ok (tx₁', o') ∧ tx₁.Similar D tx₁' ∧
      o.core = o'.core := by
  have hstore := h.ofStore cmd.store
  have htable : (tx.payload (tableName cmd.store)).isSome =
      (tx'.payload (tableName cmd.store)).isSome := by
    simpa using congrArg Option.isSome (h.payload (tableName cmd.store))
  have hgets := getsThrough_congr hstore
  have hcheck := IdempotencyTracker.check_congr hstore
  have hstale := isStale_congr hstore
  -- whatever made the command leave the loop on one side makes it leave the loop on the other
  rcases processCommand_cases hok with ⟨rfl, rfl, hdup⟩ | ⟨rfl, rfl, hnew, hst⟩ |
    ⟨rfl, rfl, hnew, hst, hop⟩ | ⟨rfl, happ⟩
  · exact ⟨tx', _, processCommand_of_recorded fun h' => hdup (hcheck.2 h'), h, rfl⟩
  · exact ⟨tx', _, processCommand_of_stale (hcheck.1 hnew) (hstale ▸ hst), h, rfl⟩
  · exact ⟨tx', _, processCommand_of_unknown (hcheck.1 hnew) (hstale ▸ hst) hop, h, rfl⟩
  · have hcond := processCommand_ok_iff.1 ⟨_, hok⟩
    rw [hgets, htable, h.seq] at hcond
    obtain ⟨⟨tx₁', o'⟩, hok'⟩ := processCommand_ok_iff (D := D) (a := a').2 hcond
    obtain ⟨rfl, happ'⟩ := (hgets.1 ⟨happ.new, happ.fresh, happ.known⟩).applies hok'
    exact ⟨tx₁', _, hok', h.applies happ happ', rfl⟩

/-! ### The loop -/

/-- `r'` brings `r` to `sum`, up to event ids and clock readings. -/
structure Adds (r r' sum : BatchResult) : Prop where
  committed : sum.committed = r.committed + r'.committed
  duplicates : sum.duplicates = r.duplicates + r'.duplicates
  versionConflicts : sum.versionConflicts = r.versionConflicts + r'.versionConflicts
  events : sum.events.map EventEnvelope.core = (r.events ++ r'.events).map EventEnvelope.core

theorem Adds.add {r r' sum : BatchResult} (h : Adds r r' sum) {o o' : Outcome}
    (ho : o.core = o'.core) : Adds r (BatchResult.add r' o) (BatchResult.add sum o') := by
  obtain ⟨hc, hd, hv, he⟩ := h
  cases o <;> cases o' <;> simp only [Outcome.core, reduceCtorEq, Outcome.committed.injEq] at ho
  case duplicate.duplicate => exact ⟨hc, by simp only [BatchResult.add]; omega, hv, he⟩
  case versionConflict.versionConflict => exact ⟨hc, hd, by simp only [BatchResult.add]; omega, he⟩
  case unknownOperation.unknownOperation => exact ⟨hc, hd, hv, he⟩
  case committed.committed e e' =>
    refine ⟨by simp only [BatchResult.add]; omega, hd, hv, ?_⟩
    simp only [BatchResult.add, List.map_append, List.map_cons, List.map_nil] at he ⊢
    rw [he, ho, List.append_assoc]

/-- Two loops over the same commands, on similar databases, succeed together and add the same. -/
theorem processLoop_similar {amb : ℕ → Ambient} (amb' : ℕ → Ambient) {cmds : List WriteEnvelope}
    {r r' sum r₁' : BatchResult} (h : tx.Similar D tx') (hadd : Adds r r' sum)
    (hok : processLoop D amb tx r' cmds = .ok (tx₁, r₁')) :
    ∃ tx₁' sum₁, processLoop D amb' tx' sum cmds = .ok (tx₁', sum₁) ∧ tx₁.Similar D tx₁' ∧
      Adds r r₁' sum₁ := by
  induction cmds generalizing amb amb' tx tx' r' sum with
  | nil =>
    simp only [processLoop, Except.ok.injEq, Prod.mk.injEq] at hok
    obtain ⟨rfl, rfl⟩ := hok
    exact ⟨tx', sum, rfl, h, hadd⟩
  | cons cmd cmds ih =>
    obtain ⟨tx₂, o, hc, hrest⟩ := processLoop_cons_ok.1 hok
    obtain ⟨tx₂', o', hc', hsim, ho⟩ := processCommand_similar (amb' 0) h hc
    obtain ⟨tx₁', sum₁, hloop, hdone⟩ := ih (fun i => amb' (i + 1)) hsim (hadd.add ho) hrest
    exact ⟨tx₁', sum₁, processLoop_cons_ok.2 ⟨tx₂', o', hc', hloop⟩, hdone⟩

theorem processLoop_append (D : Deps) (amb : ℕ → Ambient) (tx : Database) (r : BatchResult)
    (cmds cmds' : List WriteEnvelope) :
    processLoop D amb tx r (cmds ++ cmds') =
      (processLoop D amb tx r cmds).bind fun p =>
        processLoop D (fun i => amb (i + cmds.length)) p.1 p.2 cmds' := by
  induction cmds generalizing amb tx r with
  | nil => rfl
  | cons cmd cmds ih =>
    simp only [List.cons_append, processLoop, bind, Except.bind]
    cases processCommand D (amb 0) tx cmd with
    | error e => rfl
    | ok p =>
      simp only [ih, List.length_cons, Nat.add_assoc]
      rfl

/-- **Batch boundaries are invisible.**  Whatever the database, if `process_batch` succeeds on two
batches, one after the other, then it succeeds on the batch of both, leaves the same tables up to
event ids and clock readings, with the same outbox ids, and its counts and events are those of the
two calls taken together. -/
theorem batch_boundaries_invisible (D : Deps) (db db₁ db₂ : Database) (r₁ r₂ : BatchResult)
    (cmds₁ cmds₂ : List WriteEnvelope) (amb amb₁ amb₂ : ℕ → Ambient)
    (h₁ : processBatch D amb₁ db cmds₁ = .ok (db₁, r₁))
    (h₂ : processBatch D amb₂ db₁ cmds₂ = .ok (db₂, r₂)) :
    ∃ db' r, processBatch D amb db (cmds₁ ++ cmds₂) = .ok (db', r) ∧ db₂.Similar D db' ∧
      Adds r₁ r₂ r := by
  have hzero : ∀ store store', Adds ⟨store, 0, 0, 0, []⟩ ⟨store', 0, 0, 0, []⟩
      ⟨((cmds₁ ++ cmds₂).head?.map (·.store)).getD "", 0, 0, 0, []⟩ := fun _ _ => ⟨rfl, rfl, rfl, rfl⟩
  obtain ⟨tx, r, hok, hsim, hadd⟩ :=
    processLoop_similar amb (Database.Similar.refl D db) (hzero "" _) h₁
  -- the second loop starts from where the first one got to, with its counts
  have hsecond : Adds r₁ ⟨(cmds₂.head?.map (·.store)).getD "", 0, 0, 0, []⟩ r := by
    obtain ⟨hc, hd, hv, he⟩ := hadd
    exact ⟨by simpa using hc, by simpa using hd, by simpa using hv, by simpa using he⟩
  obtain ⟨tx', r', hok', hsim', hadd'⟩ :=
    processLoop_similar (fun i => amb (i + cmds₁.length)) hsim hsecond h₂
  refine ⟨tx', r', ?_, hsim', hadd'⟩
  rw [processBatch, processLoop_append, hok]
  exact hok'

/-- An upsert, then the same upsert again and a newer one. -/
theorem batch_boundaries_invisible_of_three_upserts :
    ∃ db₁ r₁ db₂ r₂,
      processBatch History.sampleDeps (fun _ => History.sampleAmbient) (ensureSchema "main")
        [History.sampleUpsert "a" 1] = .ok (db₁, r₁) ∧
      processBatch History.sampleDeps (fun _ => History.sampleAmbient) db₁
        [History.sampleUpsert "a" 1, History.sampleUpsert "b" 2] = .ok (db₂, r₂) ∧
      ∃ db' r, processBatch History.sampleDeps (fun _ => History.sampleAmbient) (ensureSchema "main")
        ([History.sampleUpsert "a" 1] ++ [History.sampleUpsert "a" 1, History.sampleUpsert "b" 2]) =
          .ok (db', r) ∧ db₂.Similar History.sampleDeps db' ∧ Adds r₁ r₂ r := by
  obtain ⟨⟨db₁, r₁⟩, h₁⟩ : ∃ p, processBatch History.sampleDeps (fun _ => History.sampleAmbient)
      (ensureSchema "main") [History.sampleUpsert "a" 1] = .ok p := ⟨_, rfl⟩
  have hsecond : ∀ p, processBatch History.sampleDeps (fun _ => History.sampleAmbient)
      (ensureSchema "main") [History.sampleUpsert "a" 1] = .ok p →
      ∃ q, processBatch History.sampleDeps (fun _ => History.sampleAmbient) p.1
        [History.sampleUpsert "a" 1, History.sampleUpsert "b" 2] = .ok q := by
    rintro p hp
    cases hp
    exact ⟨_, rfl⟩
  obtain ⟨⟨db₂, r₂⟩, h₂⟩ := hsecond _ h₁
  exact ⟨db₁, r₁, db₂, r₂, h₁, h₂,
    batch_boundaries_invisible _ _ _ _ _ _ _ _ (fun _ => History.sampleAmbient) _ _ h₁ h₂⟩

end Ixmati
