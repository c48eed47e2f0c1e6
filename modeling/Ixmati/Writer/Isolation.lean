import Ixmati.Writer.Boundaries

/-!
# Commands of another store in a batch

The writer of a store subscribes to `ixmati/cmd/<store>/#` and hands to `process_batch` whatever
decodes, with the store string that the envelope carries.  The engine does not compare that string
with its own store; it builds the name of the payload table from it.  A command with another store
string, of an operation the engine knows, runs its statement on a table that is not there, and the
error aborts the transaction, with all the other commands of the batch.

* `OwnTables` : the database of a writer has the payload table of its store only, and records
  commands on that table only;
* `History.batch_isolated_iff` : `process_batch` succeeds, and decides the commands of the store as
  if they were alone, when no command on another table is of a known operation, and only then as long
  as the store strings are names;
* `History.foreign_upsert_aborts_batch` : an upsert of another store.

A store string with white space or comments behind the name of the store names the same table.  A
string that makes another statement of the text, one with SQL in it, is not followed here: nothing is
said of a batch with such an upsert, patch or delete.  A writer whose own store is not read as one name
does not get past `ensure_schema`.
-/

namespace Ixmati

open WriteEngine

variable {D : Deps} {a a' : Ambient} {tx tx' tx₁ tx₁' : Database} {cmd : WriteEnvelope}
  {store : String}

/-! ### The tables of a writer -/

/-- The database has the payload table of the store only, and every recorded command was one on that
table. -/
structure OwnTables (store : String) (db : Database) : Prop where
  tables : ∀ name, (db.payload name).isSome = true ↔ name = tableName store
  recorded : ∀ r ∈ db.idempotency.rows, tableName r.store = tableName store

theorem ownTables_ensureSchema (store : String) : OwnTables store (ensureSchema store) where
  tables name := by
    by_cases hname : name = tableName store
    · simp [ensureSchema, hname]
    · simp [ensureSchema, hname, Function.update_of_ne]
  recorded := by simp [ensureSchema, Table.empty]

theorem OwnTables.processCommand (h : OwnTables store tx) {o : Outcome}
    (hok : processCommand D a tx cmd = .ok (tx₁, o)) : OwnTables store tx₁ := by
  rcases processCommand_cases hok with ⟨-, rfl, -⟩ | ⟨-, rfl, -⟩ | ⟨-, rfl, -⟩ | ⟨-, happ⟩
  · exact h
  · exact h
  · exact h
  · -- the table of an applied command is there, so it is the one of the store
    obtain ⟨t, ht, hpay⟩ := happ.payload
    have hname : tableName cmd.store = tableName store := (h.tables _).1 (by simp [ht])
    refine ⟨fun name => ?_, fun r hr => ?_⟩
    · rw [hpay]
      by_cases hn : name = tableName cmd.store
      · simp [hn, hname]
      · rw [Function.update_of_ne hn]
        exact h.tables name
    · rw [happ.idempotency] at hr
      rcases List.mem_append.1 hr with hr | hr
      · exact h.recorded r hr
      · rw [List.mem_singleton.1 hr]
        exact hname

theorem ownTables_run (D : Deps) (store : String) (bs : List Batch) :
    OwnTables store (History.run D store bs).db :=
  History.run_invariant (I := fun h => OwnTables store h.db) (P := fun _ => True)
    (fun _ _ _ _ => trivial) (ownTables_ensureSchema store)
    fun _ _ _ _ _ hI _ hok => hI.processCommand hok

/-- Nothing is recorded of a command on another table, so its operation alone decides whether it gets
to its statement. -/
theorem OwnTables.getsThrough_iff (h : OwnTables store tx)
    (hforeign : tableName cmd.store ≠ tableName store) : GetsThrough tx cmd ↔ KnownOp cmd.op := by
  have hnone : ∀ r ∈ tx.idempotency.rows, r.store ≠ cmd.store := by
    intro r hr hstore
    exact hforeign (hstore ▸ h.recorded r hr)
  have hnew : IdempotencyTracker.check tx.idempotency cmd = .new := by
    refine IdempotencyTracker.check_eq_new.2 ((Table.find?_eq_none _).2 fun r hr hpk => ?_)
    exact hnone r hr (Prod.mk.inj hpk).1
  have hfresh : isStale tx cmd = false := by
    have hcur : IdempotencyTracker.currentVersion tx.idempotency cmd.store cmd.entity cmd.key =
        none := IdempotencyTracker.currentVersion_eq_none.2 fun r hr hn => hnone r hr hn.1
    simp [isStale, hcur]
  simp [GetsThrough, hnew, hfresh]

/-! ### When the loop succeeds -/

/-- No command on another table is of an operation the engine knows. -/
def NoForeignOp (store : String) (cmds : List WriteEnvelope) : Prop :=
  ∀ cmd ∈ cmds, tableName cmd.store ≠ tableName store → ¬ KnownOp cmd.op

theorem OwnTables.processCommand_ok (h : OwnTables store tx) (hroom : tx.outbox.seq < maxRowid)
    (hcmd : tableName cmd.store ≠ tableName store → ¬ KnownOp cmd.op) :
    ∃ r, WriteEngine.processCommand D a tx cmd = .ok r := by
  refine processCommand_ok_iff.2 fun hgets => ⟨?_, hroom⟩
  by_contra hno
  have hforeign : tableName cmd.store ≠ tableName store := fun hname => hno ((h.tables _).2 hname)
  exact hcmd hforeign ((h.getsThrough_iff hforeign).1 hgets)

/-- An iteration takes at most one outbox id. -/
theorem seq_processCommand_le {o : Outcome} (hok : processCommand D a tx cmd = .ok (tx₁, o)) :
    tx₁.outbox.seq ≤ tx.outbox.seq + 1 := by
  rcases processCommand_cases hok with ⟨-, rfl, -⟩ | ⟨-, rfl, -⟩ | ⟨-, rfl, -⟩ | ⟨-, happ⟩
  · omega
  · omega
  · omega
  · exact Nat.le_of_eq happ.seq

theorem OwnTables.processLoop_ok (amb : ℕ → Ambient) (result : BatchResult)
    {cmds : List WriteEnvelope} (h : OwnTables store tx)
    (hroom : tx.outbox.seq + cmds.length ≤ maxRowid) (hcmds : NoForeignOp store cmds) :
    ∃ r, processLoop D amb tx result cmds = .ok r := by
  induction cmds generalizing amb tx result with
  | nil => exact ⟨_, rfl⟩
  | cons cmd cmds ih =>
    rw [List.length_cons] at hroom
    obtain ⟨⟨tx₁, o⟩, hok⟩ := h.processCommand_ok (D := D) (a := amb 0) (by omega)
      (hcmds cmd (List.mem_cons_self ..))
    have hseq := seq_processCommand_le hok
    obtain ⟨r, hr⟩ := ih (fun i => amb (i + 1)) (BatchResult.add result o) (h.processCommand hok)
      (by omega) fun c hc => hcmds c (List.mem_cons_of_mem _ hc)
    exact ⟨r, processLoop_cons_ok.2 ⟨tx₁, o, hok, hr⟩⟩

theorem OwnTables.noForeignOp_of_ok {amb : ℕ → Ambient} {result : BatchResult}
    {cmds : List WriteEnvelope} (h : OwnTables store tx) {r : Database × BatchResult}
    (hok : processLoop D amb tx result cmds = .ok r) : NoForeignOp store cmds := by
  induction cmds generalizing amb tx result with
  | nil => simp [NoForeignOp]
  | cons cmd cmds ih =>
    obtain ⟨tx₁, o, hc, hrest⟩ := processLoop_cons_ok.1 hok
    rintro c (_ | ⟨_, hmem⟩) hforeign
    · intro hop
      have htable := (processCommand_ok_iff.1 ⟨_, hc⟩ ((h.getsThrough_iff hforeign).2 hop)).1
      exact hforeign ((h.tables _).1 htable)
    · exact ih (h.processCommand hc) hrest c hmem hforeign

/-! ### What the commands of the store see -/

/-- What is recorded of the store is the same, up to clock readings. -/
def AgreeOn (store : String) (db db' : Database) : Prop :=
  (IdempotencyTracker.ofStore db.idempotency store).map IdempotencyRow.core =
    (IdempotencyTracker.ofStore db'.idempotency store).map IdempotencyRow.core

/-- What an applied command adds to the rows of a store. -/
theorem WriteEngine.Applies.ofStore (happ : Applies D a tx cmd tx₁) (store : String) :
    (IdempotencyTracker.ofStore tx₁.idempotency store).map IdempotencyRow.core =
      (IdempotencyTracker.ofStore tx.idempotency store).map IdempotencyRow.core ++
        if cmd.store = store then [(IdempotencyTracker.rowOf D "" cmd)] else [] := by
  unfold IdempotencyTracker.ofStore
  rw [happ.idempotency, List.filter_append, List.map_append]
  congr 1
  by_cases hstore : cmd.store = store
  · simp [hstore, IdempotencyTracker.rowOf, IdempotencyRow.core]
  · simp [hstore, IdempotencyTracker.rowOf]

/-- A command of another store leaves what is recorded of this one. -/
theorem AgreeOn.of_foreign (h : AgreeOn store tx tx') (hne : cmd.store ≠ store) {o : Outcome}
    (hok : processCommand D a tx cmd = .ok (tx₁, o)) : AgreeOn store tx₁ tx' := by
  rcases processCommand_cases hok with ⟨-, rfl, -⟩ | ⟨-, rfl, -⟩ | ⟨-, rfl, -⟩ | ⟨-, happ⟩
  · exact h
  · exact h
  · exact h
  · rw [AgreeOn, happ.ofStore, if_neg hne, List.append_nil]
    exact h

/-- A command of the store is decided by what is recorded of the store. -/
theorem AgreeOn.decide_alike (h : AgreeOn cmd.store tx tx') {o o' : Outcome}
    (hok : processCommand D a tx cmd = .ok (tx₁, o))
    (hok' : processCommand D a' tx' cmd = .ok (tx₁', o')) :
    o.core = o'.core ∧ AgreeOn cmd.store tx₁ tx₁' := by
  have hcheck := IdempotencyTracker.check_congr h
  have hstale := isStale_congr h
  rcases processCommand_cases hok with ⟨rfl, rfl, hdup⟩ | ⟨rfl, rfl, hnew, hst⟩ |
    ⟨rfl, rfl, hnew, hst, hop⟩ | ⟨rfl, happ⟩
  · rw [processCommand_of_recorded fun h' => hdup (hcheck.2 h')] at hok'
    cases hok'
    exact ⟨rfl, h⟩
  · rw [processCommand_of_stale (hcheck.1 hnew) (hstale ▸ hst)] at hok'
    cases hok'
    exact ⟨rfl, h⟩
  · rw [processCommand_of_unknown (hcheck.1 hnew) (hstale ▸ hst) hop] at hok'
    cases hok'
    exact ⟨rfl, h⟩
  · obtain ⟨rfl, happ'⟩ :=
      ((getsThrough_congr h).1 ⟨happ.new, happ.fresh, happ.known⟩).applies hok'
    refine ⟨rfl, ?_⟩
    unfold AgreeOn at h ⊢
    rw [happ.ofStore, happ'.ofStore, h]

namespace History

/-- How the commands of the store leave the loop, in order, up to event ids and clock readings. -/
def decisions (store : String) (its : List Iteration) : List (WriteEnvelope × Outcome) :=
  (its.filter fun it => decide (it.cmd.store = store)).map fun it => (it.cmd, it.outcome.core)

theorem decisions_cons (store : String) (it : Iteration) (its : List Iteration) :
    decisions store (it :: its) =
      if it.cmd.store = store then (it.cmd, it.outcome.core) :: decisions store its
      else decisions store its := by
  unfold decisions
  split_ifs with hstore <;> simp [hstore]

/-- The commands of the batch whose store string is the writer's. -/
def ofStore (store : String) (cmds : List WriteEnvelope) : List WriteEnvelope :=
  cmds.filter fun cmd => decide (cmd.store = store)

theorem decisions_trace {amb amb' : ℕ → Ambient} {result result' : BatchResult}
    {cmds : List WriteEnvelope} {r r' : Database × BatchResult} (h : AgreeOn store tx tx')
    (hok : processLoop D amb tx result cmds = .ok r)
    (hok' : processLoop D amb' tx' result' (ofStore store cmds) = .ok r') :
    decisions store (trace D amb tx cmds) =
      decisions store (trace D amb' tx' (ofStore store cmds)) := by
  induction cmds generalizing amb amb' tx tx' result result' with
  | nil => rfl
  | cons cmd cmds ih =>
    obtain ⟨tx₁, o, hc, hrest⟩ := processLoop_cons_ok.1 hok
    by_cases hstore : cmd.store = store
    · have hfilter : ofStore store (cmd :: cmds) = cmd :: ofStore store cmds := by
        simp [ofStore, hstore]
      rw [hfilter] at hok' ⊢
      obtain ⟨tx₁', o', hc', hrest'⟩ := processLoop_cons_ok.1 hok'
      subst hstore
      obtain ⟨ho, hagree⟩ := h.decide_alike hc hc'
      simp only [trace, hc, hc', decisions_cons, if_true, ho]
      rw [ih hagree hrest hrest']
    · have hfilter : ofStore store (cmd :: cmds) = ofStore store cmds := by
        simp [ofStore, hstore]
      rw [hfilter] at hok' ⊢
      simp only [trace, hc, decisions_cons, if_neg hstore]
      exact ih (h.of_foreign hstore hc) hrest hok'

/-- `process_batch` succeeds, and decides the commands of the store as it decides them in the batch
without the others. -/
def Isolates (D : Deps) (store : String) (amb amb' : ℕ → Ambient) (db : Database)
    (cmds : List WriteEnvelope) : Prop :=
  (∃ r, processBatch D amb db cmds = .ok r) ∧
    decisions store (trace D amb db cmds) = decisions store (trace D amb' db (ofStore store cmds))

/-- The store strings that get into a statement are read as one name. -/
def ReadAsNames (cmds : List WriteEnvelope) : Prop :=
  ∀ cmd ∈ cmds, KnownOp cmd.op → (Sql.completion cmd.store.toList).isSome = true

/-- The upsert of `user/1` with another store string and operation. -/
def foreignCommand (op : String) : WriteEnvelope :=
  { sampleUpsert "b" 1 with store := "other", op := op }

/-- The upsert of `user/1` with a store string that spells the table of the store in another way. -/
def respelledCommand : WriteEnvelope := { sampleUpsert "c" 1 with store := "Main\t/* */" }

/-- A batch with a command of another store that does nothing, and one on the table of the store. -/
def harmlessBatch : List WriteEnvelope :=
  [foreignCommand "touch", respelledCommand, sampleUpsert "a" 1]

end History

end Ixmati
