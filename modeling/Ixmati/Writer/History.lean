import Ixmati.Writer.WriteEngine
import Ixmati.Lib.Log

/-!
# Histories of a store

A `History` is the database of a store after some calls of `process_batch`, together with the
iterations of the loop that led to it: the state each command met and how it left the loop.  The
commands that were applied, in order, are the *log* of the history (`History.applied`), and the
tables are functions of the log:

* `_idempotency` and `_outbox` have one row for each entry of the log, in its order, and the ids of
  the outbox count the entries (`Journaled`);
* a payload row or tombstone shows the last entry on its key (`Current`), provided the versions of
  each key increase along the log (`Increasing`), which below `2 ^ 63` the version guard ensures.

A batch that fails is rolled back, so it leaves no trace in a history.
-/

namespace Ixmati

open WriteEngine

/-- A call of `process_batch`: the commands, and what each iteration draws from outside. -/
structure Batch where
  ambient : ℕ → Ambient
  commands : List WriteEnvelope

/-- An iteration of the loop. -/
structure Iteration where
  /-- The state of the transaction before it. -/
  before : Database
  ambient : Ambient
  cmd : WriteEnvelope
  outcome : Outcome

/-- The command of the iteration was applied. -/
def Iteration.isApplied (it : Iteration) : Bool :=
  match it.outcome with
  | .committed _ => true
  | _ => false

/-- A database and the iterations that led to it. -/
structure History where
  db : Database
  iterations : List Iteration

namespace History

/-- The log: the applied commands. -/
def applied (h : History) : List Iteration := h.iterations.filter Iteration.isApplied

/-- One more iteration. -/
def extend (h : History) (a : Ambient) (cmd : WriteEnvelope) (db : Database) (o : Outcome) :
    History where
  db := db
  iterations := h.iterations ++ [⟨h.db, a, cmd, o⟩]

/-- The iterations of a batch that runs to its end. -/
def trace (D : Deps) : (ℕ → Ambient) → Database → List WriteEnvelope → List Iteration
  | _, _, [] => []
  | amb, tx, cmd :: cmds =>
    match processCommand D (amb 0) tx cmd with
    | .ok (tx', o) => ⟨tx, amb 0, cmd, o⟩ :: trace D (fun i => amb (i + 1)) tx' cmds
    | .error _ => []

/-- A call of `process_batch`. -/
def commit (D : Deps) (h : History) (b : Batch) : History :=
  match processBatch D b.ambient h.db b.commands with
  | .ok (db, _) => ⟨db, h.iterations ++ trace D b.ambient h.db b.commands⟩
  | .error _ => h

/-- Calls of `process_batch` on a database just made by `ensure_schema`. -/
def run (D : Deps) (store : String) (bs : List Batch) : History :=
  bs.foldl (commit D) ⟨ensureSchema store, []⟩

variable {D : Deps} {h : History}

/-! ### Induction along a history -/

theorem processLoop_invariant {I : History → Prop} {cmds : List WriteEnvelope}
    (hstep : ∀ h a cmd db o, I h → cmd ∈ cmds → processCommand D a h.db cmd = .ok (db, o) →
      I (h.extend a cmd db o))
    {amb : ℕ → Ambient} {result result' : BatchResult} {db : Database} (hI : I h)
    (hok : processLoop D amb h.db result cmds = .ok (db, result')) :
    I ⟨db, h.iterations ++ trace D amb h.db cmds⟩ := by
  induction cmds generalizing amb h result with
  | nil =>
    simp only [processLoop, Except.ok.injEq, Prod.mk.injEq] at hok
    obtain ⟨rfl, -⟩ := hok
    simpa [trace] using hI
  | cons cmd cmds ih =>
    obtain ⟨tx, o, hc, hrest⟩ := processLoop_cons_ok.1 hok
    have hext : I (h.extend (amb 0) cmd tx o) :=
      hstep h _ cmd tx o hI (List.mem_cons_self ..) hc
    have := ih (fun h a c db o hI hmem => hstep h a c db o hI (List.mem_cons_of_mem _ hmem))
      (h := h.extend (amb 0) cmd tx o) hext hrest
    simpa [extend, trace, hc] using this

/-- What every iteration keeps, a batch that succeeds keeps. -/
theorem processBatch_invariant {I : History → Prop} {b : Batch} {db : Database}
    {result : BatchResult} (hok : processBatch D b.ambient h.db b.commands = .ok (db, result))
    (hstep : ∀ h a cmd db o, I h → cmd ∈ b.commands → processCommand D a h.db cmd = .ok (db, o) →
      I (h.extend a cmd db o)) (hI : I h) :
    I ⟨db, h.iterations ++ trace D b.ambient h.db b.commands⟩ :=
  processLoop_invariant hstep hI hok

/-- **Induction along a run**: what holds of a fresh store and is kept by every iteration on a
command with `P` holds after every run on such commands. -/
theorem run_invariant {I : History → Prop} {P : WriteEnvelope → Prop} {store : String}
    {bs : List Batch} (hP : ∀ b ∈ bs, ∀ cmd ∈ b.commands, P cmd)
    (h₀ : I ⟨ensureSchema store, []⟩)
    (hstep : ∀ h a cmd db o, I h → P cmd → processCommand D a h.db cmd = .ok (db, o) →
      I (h.extend a cmd db o)) : I (run D store bs) := by
  unfold run
  generalize (⟨ensureSchema store, []⟩ : History) = start at h₀ ⊢
  induction bs generalizing start with
  | nil => exact h₀
  | cons b bs ih =>
    rw [List.foldl_cons]
    refine ih (fun b' hb' => hP b' (List.mem_cons_of_mem _ hb')) (commit D start b) ?_
    unfold commit
    split
    · rename_i db result hok
      exact processBatch_invariant hok
        (fun h a cmd db o hI hmem => hstep h a cmd db o hI (hP b (List.mem_cons_self ..) cmd hmem)) h₀
    · exact h₀

/-- A batch that succeeds has an iteration for each of its commands. -/
theorem mem_trace {amb : ℕ → Ambient} {tx tx' : Database} {result result' : BatchResult}
    {cmds : List WriteEnvelope} (hok : processLoop D amb tx result cmds = .ok (tx', result'))
    {cmd : WriteEnvelope} (hcmd : cmd ∈ cmds) : ∃ it ∈ trace D amb tx cmds, it.cmd = cmd := by
  induction cmds generalizing amb tx result with
  | nil => simp at hcmd
  | cons c cmds ih =>
    obtain ⟨tx₁, o, hc, hrest⟩ := processLoop_cons_ok.1 hok
    simp only [trace, hc, List.mem_cons]
    rcases List.mem_cons.1 hcmd with rfl | hcmd
    · exact ⟨_, Or.inl rfl, rfl⟩
    · obtain ⟨it, hit, heq⟩ := ih hrest hcmd
      exact ⟨it, Or.inr hit, heq⟩

theorem applied_extend (h : History) (a : Ambient) (cmd : WriteEnvelope) (db : Database)
    (o : Outcome) :
    (h.extend a cmd db o).applied =
      if (⟨h.db, a, cmd, o⟩ : Iteration).isApplied then h.applied ++ [⟨h.db, a, cmd, o⟩]
      else h.applied := by
  unfold applied extend
  rw [List.filter_append]
  split_ifs with ho <;> simp [ho]

/-- An iteration either changes neither database nor log, or applies its command. -/
theorem extend_cases {a : Ambient} {cmd : WriteEnvelope} {db : Database} {o : Outcome}
    (hok : processCommand D a h.db cmd = .ok (db, o)) :
    (db = h.db ∧ (h.extend a cmd db o).applied = h.applied) ∨
    (Applies D a h.db cmd db ∧
      (h.extend a cmd db o).applied = h.applied ++ [⟨h.db, a, cmd, o⟩]) := by
  rcases processCommand_cases hok with ⟨rfl, rfl, -⟩ | ⟨rfl, rfl, -⟩ | ⟨rfl, rfl, -⟩ | ⟨rfl, happ⟩
  · exact Or.inl ⟨rfl, applied_extend ..⟩
  · exact Or.inl ⟨rfl, applied_extend ..⟩
  · exact Or.inl ⟨rfl, applied_extend ..⟩
  · exact Or.inr ⟨happ, applied_extend ..⟩

/-- A batch only appends to the log, and what it appends are commands of its own. -/
theorem processBatch_applied {b : Batch} {db : Database} {result : BatchResult}
    (hok : processBatch D b.ambient h.db b.commands = .ok (db, result)) :
    ∃ new, (⟨db, h.iterations ++ trace D b.ambient h.db b.commands⟩ : History).applied =
      h.applied ++ new ∧ ∀ it ∈ new, it.cmd ∈ b.commands := by
  refine processBatch_invariant
    (I := fun h' => ∃ new, h'.applied = h.applied ++ new ∧ ∀ it ∈ new, it.cmd ∈ b.commands) hok ?_
    ⟨[], by simp, by simp⟩
  intro h' a cmd tx o ⟨new, hnew, hcmds⟩ hmem hcmd
  rcases extend_cases hcmd with ⟨-, hlog⟩ | ⟨-, hlog⟩
  · exact ⟨new, hlog.trans hnew, hcmds⟩
  · refine ⟨new ++ [⟨h'.db, a, cmd, o⟩], by rw [hlog, hnew, List.append_assoc], fun it hit => ?_⟩
    rcases List.mem_append.1 hit with hit | hit
    · exact hcmds it hit
    · rw [List.mem_singleton.1 hit]
      exact hmem

/-- A batch only appends to the outbox, and what it appends is unpublished. -/
theorem processBatch_outbox {amb : ℕ → Ambient} {db db' : Database} {cmds : List WriteEnvelope}
    {result : BatchResult} (hok : processBatch D amb db cmds = .ok (db', result)) :
    ∃ new, db'.outbox.rows = db.outbox.rows ++ new ∧ ∀ o ∈ new, o.publishedAt = none := by
  refine processBatch_invariant (h := ⟨db, []⟩) (b := ⟨amb, cmds⟩)
    (I := fun h => ∃ new, h.db.outbox.rows = db.outbox.rows ++ new ∧
      ∀ o ∈ new, o.publishedAt = none) hok ?_ ⟨[], by simp, by simp⟩
  intro h a cmd tx o ⟨new, hrows, hnew⟩ _ hcmd
  rcases extend_cases hcmd with ⟨rfl, -⟩ | ⟨happ, -⟩
  · exact ⟨new, hrows, hnew⟩
  · refine ⟨new ++ [Outbox.stored D (h.db.outbox.seq + 1) (eventOf a cmd)], ?_, fun o ho => ?_⟩
    · rw [← List.append_assoc, ← hrows]
      exact happ.outbox
    · rcases List.mem_append.1 ho with ho | ho
      · exact hnew o ho
      · rw [List.mem_singleton.1 ho]
        rfl

/-! ### The tables that grow with the log -/

/-- The idempotency row of an entry of the log. -/
def idempotencyRow (D : Deps) (it : Iteration) : IdempotencyRow :=
  IdempotencyTracker.rowOf D it.ambient.appliedAt it.cmd

/-- The outbox row of the `i`-th entry of the log. -/
def outboxRow (D : Deps) (i : ℕ) (it : Iteration) : OutboxEntry :=
  Outbox.stored D (i + 1) (eventOf it.ambient it.cmd)

/-- `_idempotency` and `_outbox` list the log. -/
structure Journaled (D : Deps) (h : History) : Prop where
  idempotency : h.db.idempotency.rows = h.applied.map (idempotencyRow D)
  outbox : h.db.outbox.rows = h.applied.mapIdx (outboxRow D)
  seq : h.db.outbox.seq = h.applied.length

theorem Journaled.extend (hj : Journaled D h) {a : Ambient} {cmd : WriteEnvelope} {db : Database}
    {o : Outcome} (hok : processCommand D a h.db cmd = .ok (db, o)) :
    Journaled D (h.extend a cmd db o) := by
  rcases extend_cases hok with ⟨rfl, hlog⟩ | ⟨happ, hlog⟩
  · exact ⟨by rw [hlog]; exact hj.idempotency, by rw [hlog]; exact hj.outbox,
      by rw [hlog]; exact hj.seq⟩
  · refine ⟨?_, ?_, ?_⟩
    · rw [hlog, List.map_append, ← hj.idempotency]
      exact happ.idempotency
    · rw [hlog, List.mapIdx_concat, ← hj.outbox, ← hj.seq]
      exact happ.outbox
    · rw [hlog, List.length_append, ← hj.seq]
      exact happ.seq

theorem journaled_run (D : Deps) (store : String) (bs : List Batch) :
    Journaled D (run D store bs) :=
  run_invariant (P := fun _ => True) (fun _ _ _ _ => trivial) ⟨rfl, rfl, rfl⟩
    fun _ _ _ _ _ hj _ hok => hj.extend hok

/-! ### A store to evaluate runs on -/

/-- What iterations draw from outside in the runs that are evaluated. -/
def sampleAmbient : Ambient where
  eventId := "6f1c2f0e-0d8f-4a51-9b0e-3f5d1f0a7c11"
  occurredAt := "2026-01-01T00:00:00.000Z"
  updatedAt := "2026-01-01 00:00:00"
  deletedAt := "2026-01-01 00:00:00"
  appliedAt := "2026-01-01 00:00:00"

/-- An upsert of `user/1` in the store `main`. -/
def sampleUpsert (idempotencyKey : String) (version : UInt64) : WriteEnvelope where
  op := "upsert"
  store := "main"
  entity := "user"
  key := "1"
  version := version
  ts := "2026-01-01T00:00:00Z"
  idempotencyKey := idempotencyKey
  ackMode := "committed"
  payload := .object [("name", .string "Ana")]

/-- Crates for the runs that are evaluated. -/
def sampleDeps : Deps :=
  .compact [.object [("name", .string "Ana")]]
    "84840d0ded213b09c5fa24a25f31bb67bf860fee34b32199e9efd90ebd7fe999"

end History

end Ixmati
