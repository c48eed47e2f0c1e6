import Ixmati.System.Step
import Ixmati.Writer.Ingest

/-!
# The status of a consumed command

A client polls `GET /writes/{store}/{idempotency_key}` until the write is no longer pending, and the
answer is read off `_idempotency` alone.  The main loop of the writer acknowledges a whole batch once
it is committed, whichever exit each command took, but only an applied command gets a row: one that
the version guard rejects, or of an operation the engine does not know, is acknowledged and stays
pending for good.

* `Iteration.Records` : the exit of the iteration leaves the command recorded;
* `Ingest.acked_is_not_pending` : in every run whose batches record the commands of the store, a
  command that was acknowledged is not pending from then on;
* `Ingest.stale_command_stays_pending` : a command below the stored version.
-/

namespace Ixmati

open WriteEngine

/-- The idempotency key of the command is recorded for its store. -/
def IsRecorded (cmd : WriteEnvelope) (db : Database) : Prop :=
  (db.idempotency.find? (cmd.store, cmd.idempotencyKey)).isSome = true

theorem isRecorded_iff {cmd : WriteEnvelope} {db : Database} :
    IsRecorded cmd db ↔ ∃ r ∈ db.idempotency.rows, r.pk = (cmd.store, cmd.idempotencyKey) := by
  unfold IsRecorded
  rw [Option.isSome_iff_exists]
  simp only [Table.find?_eq_some]

theorem IsRecorded.mono {cmd : WriteEnvelope} {db db' : Database} (h : IsRecorded cmd db)
    (hsub : db.idempotency.rows ⊆ db'.idempotency.rows) : IsRecorded cmd db' := by
  obtain ⟨r, hr, hpk⟩ := isRecorded_iff.1 h
  exact isRecorded_iff.2 ⟨r, hsub hr, hpk⟩

/-- The iteration finds its command recorded, or gets past the version guard with an operation that
the engine knows. -/
def Iteration.Records (it : Iteration) : Prop :=
  IdempotencyTracker.check it.before.idempotency it.cmd = .new →
    isStale it.before it.cmd = false ∧ KnownOp it.cmd.op

instance (it : Iteration) : Decidable it.Records := inferInstanceAs (Decidable (_ → _))

variable {D : Deps}

theorem processCommand_records {a : Ambient} {tx tx' : Database} {cmd : WriteEnvelope} {o : Outcome}
    (h : processCommand D a tx cmd = .ok (tx', o)) (hrec : (⟨tx, a, cmd, o⟩ : Iteration).Records) :
    IsRecorded cmd tx' := by
  rcases processCommand_cases h with ⟨-, rfl, hdup⟩ | ⟨-, rfl, hnew, hst⟩ |
    ⟨-, rfl, hnew, -, hop⟩ | ⟨-, happ⟩
  · exact IdempotencyTracker.check_ne_new.1 hdup
  · have hfresh := (hrec hnew).1
    simp [hst] at hfresh
  · exact absurd (hrec hnew).2 hop
  · refine isRecorded_iff.2 ⟨IdempotencyTracker.rowOf D a.appliedAt cmd, ?_, rfl⟩
    rw [happ.idempotency]
    exact List.mem_append_right _ (List.mem_singleton_self _)

/-- A command is recorded after a batch that has an iteration on its idempotency key that records. -/
theorem processBatch_records {amb : ℕ → Ambient} {db db' : Database} {cmds : List WriteEnvelope}
    {result : BatchResult} (h : processBatch D amb db cmds = .ok (db', result)) :
    ∀ it ∈ History.trace D amb db cmds, it.Records → IsRecorded it.cmd db' := by
  refine History.processBatch_invariant (h := ⟨db, []⟩) (b := ⟨amb, cmds⟩)
    (I := fun h => ∀ it ∈ h.iterations, it.Records → IsRecorded it.cmd h.db) h ?_ (by simp)
  intro h a cmd tx o hall _ hok it hit hrec
  rcases List.mem_append.1 hit with hit | hit
  · exact (hall it hit hrec).mono (processCommand_settles hok).1
  · rw [List.mem_singleton] at hit
    subst hit
    exact processCommand_records hok hrec

namespace Ingest

open Ixmati.System (queryStatement)

/-- Every command of the store in the batch has an iteration on its idempotency key that records. -/
def BatchRecords (D : Deps) (cfg : Config) (amb : ℕ → Ambient) (db : Database)
    (cmds : List WriteEnvelope) : Prop :=
  ∀ cmd ∈ cmds, cmd.store = cfg.storeName → ∃ it ∈ History.trace D amb db cmds,
    it.cmd.store = cmd.store ∧ it.cmd.idempotencyKey = cmd.idempotencyKey ∧ it.Records

instance (D : Deps) (cfg : Config) (amb : ℕ → Ambient) (db : Database) (cmds : List WriteEnvelope) :
    Decidable (BatchRecords D cfg amb db cmds) :=
  inferInstanceAs (Decidable (∀ cmd ∈ cmds, _ → ∃ it ∈ _, _ ∧ _ ∧ _))

/-- A batch that commits records the commands of the store. -/
def CommitsRecord (D : Deps) (cfg : Config) (s : State) : Action → Prop
  | .commit amb =>
    match s.phase with
    | .writing batch =>
      (processBatch D amb s.db (batch.map (·.envelope))).isOk = true →
        BatchRecords D cfg amb s.db (batch.map (·.envelope))
    | _ => True
  | _ => True

instance (D : Deps) (cfg : Config) (s : State) : DecidablePred (CommitsRecord D cfg s)
  | .commit amb => by
    unfold CommitsRecord
    cases s.phase <;> exact inferInstance
  | .publish .. | .deliver .. | .recv .. | .timeout .. | .fail | .ack .. | .sendAck |
    .reconnect .. | .crash => isTrue trivial

/-- The message is acknowledged: the acknowledgement is with the MQTT client, or the broker has it. -/
def State.Acked (s : State) (id : ℕ) : Prop := id ∈ s.acks ∨ id ∉ s.unacked

variable {cfg : Config} {s s' : State}

/-- What is kept about acknowledged commands. -/
def Answerable (cfg : Config) (cmd : WriteEnvelope) (db : Database) : Prop :=
  cmd.store = cfg.storeName → IsRecorded cmd db

theorem answerable_step {a : Action} (hs : Guarded (Answerable cfg) cfg s)
    (ha : CommitsRecord D cfg s a) (h : step D cfg s a = some s') :
    Guarded (Answerable cfg) cfg s' := by
  refine guarded_step (fun hans hsub hstore => (hans hstore).mono hsub) ?_ hs h
  rintro amb batch db result rfl hph hok cmd hcmd hstore
  simp only [CommitsRecord, hph, hok] at ha
  obtain ⟨it, hit, hst, hkey, hrec⟩ := ha rfl cmd hcmd hstore
  have hdone := processBatch_records hok it hit hrec
  rwa [IsRecorded, hst, hkey] at hdone

/-- No later step takes a row away. -/
theorem recorded_mono_step {a : Action} (h : step D cfg s a = some s') :
    s.db.idempotency.rows ⊆ s'.db.idempotency.rows := by
  rcases db_of_step h with hdb | ⟨amb, batch, result, -, -, hok⟩
  · rw [hdb]
    exact List.Subset.refl _
  · exact (processBatch_settles hok).1

theorem recorded_mono_run {as : List Action} (h : runFrom (step D cfg) s as = some s') :
    s.db.idempotency.rows ⊆ s'.db.idempotency.rows :=
  Reachable.invariant (I := fun t => s.db.idempotency.rows ⊆ t.db.idempotency.rows) ⟨as, h⟩
    (List.Subset.refl _) fun _ _ _ hsub hstep => List.Subset.trans hsub (recorded_mono_step hstep)

/-- **A command that was acknowledged is not pending from then on**, in every run in which each
batch that commits records the commands of the store.  What the run does after the acknowledgement
does not matter. -/
theorem acked_is_not_pending (D : Deps) (cfg : Config) (as later : List Action) (s s' : State)
    (hmeet : StepsMeet (step D cfg) (CommitsRecord D cfg) (init cfg) as)
    (hrun : runFrom (step D cfg) (init cfg) as = some s)
    (hlater : runFrom (step D cfg) s later = some s') (id : ℕ) (payload : Bytes)
    (cmd : WriteEnvelope) (hpub : s.published[id]? = some payload)
    (hdec : cfg.decode payload = some cmd) (hstore : cmd.store = cfg.storeName)
    (hacked : s.Acked id) :
    queryStatement s'.db.idempotency cmd.store cmd.idempotencyKey ≠
      .pending cmd.store cmd.idempotencyKey := by
  have hinv : Guarded (Answerable cfg) cfg s :=
    invariant_of_stepsMeet (fun _ _ _ hs ha h => answerable_step hs ha h)
      (guarded_init (Answerable cfg) cfg) hmeet hrun
  have hdisp : Disposable (Answerable cfg) cfg s.published s.db id := by
    rcases hacked with hacks | hgone
    · exact hinv.acks id hacks
    · exact (hinv.retained id (List.getElem?_eq_some_iff.1 hpub).1).resolve_left hgone
  obtain ⟨payload', hpub', hans⟩ := hdisp
  rw [hpub, Option.some.injEq] at hpub'
  have hrec : IsRecorded cmd s'.db :=
    (hans cmd (hpub' ▸ hdec) hstore).mono (recorded_mono_run hlater)
  obtain ⟨row, hrow⟩ := Option.isSome_iff_exists.1 hrec
  simp [queryStatement, hrow]

/-- A writer for `main` that is sent an upsert of version 5 and one of version 3. -/
def stalenessConfig : Config :=
  { sampleConfig with
    decode := fun payload =>
      if payload = History.sampleDeps.toVec (History.sampleUpsert "a" 5).toJson then
        some (History.sampleUpsert "a" 5)
      else if payload = History.sampleDeps.toVec (History.sampleUpsert "b" 3).toJson then
        some (History.sampleUpsert "b" 3)
      else none }

/-- A message is published, delivered, committed and acknowledged. -/
def throughTheWriter (cmd : WriteEnvelope) (id : ℕ) : List Action :=
  [.publish (History.sampleDeps.toVec cmd.toJson), .deliver id true, .recv false,
    .commit fun _ => History.sampleAmbient, .ack true, .ack true, .sendAck]

theorem acked_is_not_pending_of_an_upsert :
    ∃ s, runFrom (step History.sampleDeps stalenessConfig) (init stalenessConfig)
        (throughTheWriter (History.sampleUpsert "a" 5) 0) = some s ∧ s.Acked 0 ∧
      queryStatement s.db.idempotency "main" "a" ≠ .pending "main" "a" := by
  have hmeet : StepsMeet (step History.sampleDeps stalenessConfig)
      (CommitsRecord History.sampleDeps stalenessConfig) (init stalenessConfig)
      (throughTheWriter (History.sampleUpsert "a" 5) 0) := by
    decide +kernel
  have hrun : (runFrom (step History.sampleDeps stalenessConfig) (init stalenessConfig)
      (throughTheWriter (History.sampleUpsert "a" 5) 0)).map (fun s => (s.unacked, s.published)) =
      some ([], [History.sampleDeps.toVec (History.sampleUpsert "a" 5).toJson]) := by
    decide +kernel
  obtain ⟨s, hs, hsame⟩ := Option.map_eq_some_iff.1 hrun
  obtain ⟨hun, hpub⟩ := Prod.mk.inj hsame
  have hacked : s.Acked 0 := Or.inr (by simp [hun])
  refine ⟨s, hs, hacked, ?_⟩
  exact acked_is_not_pending History.sampleDeps stalenessConfig _ [] s s hmeet hs rfl 0 _
    (History.sampleUpsert "a" 5) (by rw [hpub]; rfl) (by simp [stalenessConfig]) rfl hacked

/-- Version 3 arrives after version 5 was committed: its batch commits, it is acknowledged and
forgotten by the broker, and its status is still pending. -/
theorem stale_command_stays_pending :
    ∃ s, Reachable (step History.sampleDeps stalenessConfig) (init stalenessConfig) s ∧
      s.published[1]? = some (History.sampleDeps.toVec (History.sampleUpsert "b" 3).toJson) ∧
      stalenessConfig.decode (History.sampleDeps.toVec (History.sampleUpsert "b" 3).toJson) =
        some (History.sampleUpsert "b" 3) ∧
      s.Acked 1 ∧ queryStatement s.db.idempotency "main" "b" = .pending "main" "b" := by
  have hrun : (runFrom (step History.sampleDeps stalenessConfig) (init stalenessConfig)
      (throughTheWriter (History.sampleUpsert "a" 5) 0 ++
        throughTheWriter (History.sampleUpsert "b" 3) 1)).map (fun s => (s.unacked,
          s.published[1]?, s.db.idempotency.find? ("main", "b"))) =
      some ([], some (History.sampleDeps.toVec (History.sampleUpsert "b" 3).toJson), none) := by
    decide +kernel
  obtain ⟨s, hreach, hs⟩ := exists_reachable hrun
  obtain ⟨hun, hpub, hnone⟩ : _ ∧ _ ∧ _ := by simpa only [Prod.mk.injEq] using hs
  have hne : History.sampleDeps.toVec (History.sampleUpsert "b" 3).toJson ≠
      History.sampleDeps.toVec (History.sampleUpsert "a" 5).toJson := by
    decide +kernel
  have hdec : stalenessConfig.decode (History.sampleDeps.toVec (History.sampleUpsert "b" 3).toJson) =
      some (History.sampleUpsert "b" 3) := by
    simp only [stalenessConfig, hne, if_false, if_true]
  refine ⟨s, hreach, hpub, hdec, Or.inr (by simp [hun]), ?_⟩
  simp [queryStatement, hnone]

end Ingest

end Ixmati
