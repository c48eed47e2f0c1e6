import Ixmati.Writer.Pipeline

/-!
# The write thread

`write_thread.rs`: one thread owns the connection and takes jobs from a channel; the main loop
and the publisher thread call it through `WriteHandle`, which sends a job and blocks on the
reply channel made for it.  The other steps of the two sides are those of `Pipeline`, where a batch and
the marking of rows are one step each.

* `WriteThread.refines_pipeline` : what the callers can see, the calls with their jobs and replies do
  not change: with the replies counted as read, the writer is in a state of `Pipeline`;
* `WriteThread.served_by_second` : a caller waits for at most two jobs, its own included;
* `WriteThread.nothing_lost` : the guarantee of `Pipeline.endToEnd` for the writer as it is.
-/

namespace Ixmati

open WriteEngine

namespace WriteThread

/-- `JobKind`.  The reply channel of a job is the one of the thread that calls. -/
inductive Job where
  | process (cmds : List WriteEnvelope)
  | markPublished (outboxIds : List ℕ)

/-- `rusqlite::Error`. -/
inductive WriteError where
  /-- The statement cannot be executed in this database. -/
  | engine (e : SqlError)
  /-- A lock, the disk. -/
  | fault (detail : String)

/-- Where a thread is with its call of the handle. -/
inductive Call (ρ : Type) where
  | idle
  /-- The job is sent, and the thread blocks in `recv`. -/
  | waiting
  /-- The reply is in its channel. -/
  | replied (result : Except WriteError ρ)

instance {ρ : Type} : (call : Call ρ) → Decidable (call = .waiting)
  | .idle => isFalse nofun
  | .waiting => isTrue rfl
  | .replied _ => isFalse nofun

/-- The two sides, the channel of the jobs and the calls. -/
structure State where
  sides : Pipeline.State
  jobs : List Job
  /-- `process_batch` of the main loop. -/
  batchCall : Call BatchResult
  /-- `mark_published_batch` of the publisher thread. -/
  markCall : Call ℕ

/-- The steps of the writer. -/
inductive Action where
  /-- A step of one side that needs no job. -/
  | side (a : Pipeline.Action)
  | sendBatch
  | sendMark
  /-- The write thread does the next job; `fault` is an error of SQLite. -/
  | work (amb : ℕ → Ambient) (now : String) (fault : Option String)
  | recvBatch
  | recvMark
  /-- The process dies and is started again. -/
  | crash

/-- The steps that need no job. -/
def isLocal : Pipeline.Action → Bool
  | .ingest (.commit _) => false
  | .ingest .fail => false
  | .publisher (.markOk _) => false
  | .publisher .markFail => false
  | .crash => false
  | _ => true

/-- The state of a store that was just made. -/
def init (cfg : Pipeline.Config) : State where
  sides := Pipeline.init cfg
  jobs := []
  batchCall := .idle
  markCall := .idle

/-- The write thread has written. -/
def withDb (s : Pipeline.State) (db : Database) : Pipeline.State :=
  ⟨{ s.ingest with db := db }, { s.publisher with db := db }, rfl⟩

@[simp] theorem ingest_withDb (s : Pipeline.State) (db : Database) :
    (withDb s db).ingest = { s.ingest with db := db } := rfl

@[simp] theorem publisher_withDb (s : Pipeline.State) (db : Database) :
    (withDb s db).publisher = { s.publisher with db := db } := rfl

/-- The body of the loop of the write thread, after `rx.recv()`. -/
def doJob (D : Deps) (s : State) (amb : ℕ → Ambient) (now : String) (fault : Option String) :
    Job → State
  | .process cmds =>
    match fault with
    | some detail => { s with batchCall := .replied (.error (.fault detail)) }
    | none =>
      match processBatch D amb s.sides.ingest.db cmds with
      | .ok (db, result) =>
        { s with sides := withDb s.sides db, batchCall := .replied (.ok result) }
      | .error e => { s with batchCall := .replied (.error (.engine e)) }
  | .markPublished outboxIds =>
    match fault with
    | some detail => { s with markCall := .replied (.error (.fault detail)) }
    | none =>
      let db := s.sides.ingest.db
      { s with
        sides := withDb s.sides { db with outbox := db.outbox.markPublishedBatch now outboxIds }
        markCall := .replied (.ok outboxIds.length) }

/-- One step. -/
def step (D : Deps) (cfg : Pipeline.Config) (s : State) : Action → Option State
  | .side a =>
    if isLocal a then (Pipeline.step D cfg s.sides a).map fun sides => { s with sides := sides }
    else none
  | .sendBatch =>
    match s.sides.ingest.phase, s.batchCall with
    | .writing batch, .idle =>
      some { s with
        jobs := s.jobs ++ [.process (batch.map (·.envelope))], batchCall := .waiting }
    | _, _ => none
  | .sendMark =>
    match s.sides.publisher.pc, s.markCall with
    | .marking _ ids, .idle =>
      -- nothing to mark is no job
      if ids = [] then some { s with markCall := .replied (.ok 0) }
      else some { s with jobs := s.jobs ++ [.markPublished ids], markCall := .waiting }
    | _, _ => none
  | .work amb now fault =>
    match s.jobs with
    | job :: jobs => some (doJob D { s with jobs := jobs } amb now fault job)
    | [] => none
  | .recvBatch =>
    match s.sides.ingest.phase, s.batchCall with
    | .writing batch, .replied result =>
      let phase : Ingest.Phase := match result with
        | .ok _ => .acking batch
        | .error _ => .receiving
      some { s with
        sides := ⟨{ s.sides.ingest with phase := phase }, s.sides.publisher, s.sides.shared⟩
        batchCall := .idle }
    | _, _ => none
  | .recvMark =>
    match s.sides.publisher.pc, s.markCall with
    | .marking last ids, .replied result =>
      let publisher := match result with
        | .ok _ =>
          { s.sides.publisher with
            pending := s.sides.publisher.pending.filter fun id => id ∉ ids
            pc := Publisher.afterDrain last }
        | .error _ => { s.sides.publisher with pc := .idle }
      some { s with
        sides := ⟨s.sides.ingest, publisher, by cases result <;> exact s.sides.shared⟩
        markCall := .idle }
    | _, _ => none
  | .crash => (Pipeline.step D cfg s.sides .crash).map fun sides => ⟨sides, [], .idle, .idle⟩

/-- What a step can do, by cases. -/
inductive Moves (D : Deps) (cfg : Pipeline.Config) (s : State) : Action → State → Prop where
  | side {b : Pipeline.Action} {sides : Pipeline.State} (hlocal : isLocal b)
      (h : Pipeline.step D cfg s.sides b = some sides) :
    Moves D cfg s (.side b) { s with sides := sides }
  | sendBatch {batch : List Ingest.PendingCommand} (hphase : s.sides.ingest.phase = .writing batch)
      (hcall : s.batchCall = .idle) :
    Moves D cfg s .sendBatch
      { s with jobs := s.jobs ++ [.process (batch.map (·.envelope))], batchCall := .waiting }
  | sendMark {last : Bool} {ids : List ℕ} (hpc : s.sides.publisher.pc = .marking last ids)
      (hcall : s.markCall = .idle) (hids : ids ≠ []) :
    Moves D cfg s .sendMark
      { s with jobs := s.jobs ++ [.markPublished ids], markCall := .waiting }
  | markNothing {last : Bool} (hpc : s.sides.publisher.pc = .marking last [])
      (hcall : s.markCall = .idle) :
    Moves D cfg s .sendMark { s with markCall := .replied (.ok 0) }
  | batchOk {amb : ℕ → Ambient} (now : String) {cmds : List WriteEnvelope} {jobs : List Job}
      {db : Database} {result : BatchResult} (hjobs : s.jobs = .process cmds :: jobs)
      (hok : processBatch D amb s.sides.ingest.db cmds = .ok (db, result)) :
    Moves D cfg s (.work amb now none)
      { s with sides := withDb s.sides db, jobs := jobs, batchCall := .replied (.ok result) }
  | batchErr (amb : ℕ → Ambient) (now : String) (fault : Option String) {cmds : List WriteEnvelope}
      {jobs : List Job} (hjobs : s.jobs = .process cmds :: jobs) (e : WriteError) :
    Moves D cfg s (.work amb now fault)
      { s with jobs := jobs, batchCall := .replied (.error e) }
  | markOk (amb : ℕ → Ambient) (now : String) {ids : List ℕ} {jobs : List Job}
      (hjobs : s.jobs = .markPublished ids :: jobs) :
    Moves D cfg s (.work amb now none)
      { s with
        sides := withDb s.sides { s.sides.ingest.db with
          outbox := s.sides.ingest.db.outbox.markPublishedBatch now ids }
        jobs := jobs, markCall := .replied (.ok ids.length) }
  | markErr (amb : ℕ → Ambient) (now : String) {ids : List ℕ} {jobs : List Job}
      (hjobs : s.jobs = .markPublished ids :: jobs) (detail : String) :
    Moves D cfg s (.work amb now (some detail))
      { s with jobs := jobs, markCall := .replied (.error (.fault detail)) }
  | recvBatchOk {batch : List Ingest.PendingCommand} {result : BatchResult}
      (hphase : s.sides.ingest.phase = .writing batch)
      (hcall : s.batchCall = .replied (.ok result)) :
    Moves D cfg s .recvBatch
      { s with
        sides := ⟨{ s.sides.ingest with phase := .acking batch }, s.sides.publisher, s.sides.shared⟩
        batchCall := .idle }
  | recvBatchErr {batch : List Ingest.PendingCommand} {e : WriteError}
      (hphase : s.sides.ingest.phase = .writing batch) (hcall : s.batchCall = .replied (.error e)) :
    Moves D cfg s .recvBatch
      { s with
        sides := ⟨{ s.sides.ingest with phase := .receiving }, s.sides.publisher, s.sides.shared⟩
        batchCall := .idle }
  | recvMarkOk {last : Bool} {ids : List ℕ} {n : ℕ}
      (hpc : s.sides.publisher.pc = .marking last ids) (hcall : s.markCall = .replied (.ok n)) :
    Moves D cfg s .recvMark
      { s with
        sides := ⟨s.sides.ingest,
          { s.sides.publisher with
            pending := s.sides.publisher.pending.filter fun id => id ∉ ids
            pc := Publisher.afterDrain last }, s.sides.shared⟩
        markCall := .idle }
  | recvMarkErr {last : Bool} {ids : List ℕ} {e : WriteError}
      (hpc : s.sides.publisher.pc = .marking last ids) (hcall : s.markCall = .replied (.error e)) :
    Moves D cfg s .recvMark
      { s with
        sides := ⟨s.sides.ingest, { s.sides.publisher with pc := .idle }, s.sides.shared⟩
        markCall := .idle }
  | crash {sides : Pipeline.State} (h : Pipeline.step D cfg s.sides .crash = some sides) :
    Moves D cfg s .crash ⟨sides, [], .idle, .idle⟩

variable {D : Deps} {cfg : Pipeline.Config} {s s' : State} {a : Action}

theorem moves_of_doJob {amb : ℕ → Ambient} {now : String} {fault : Option String} {job : Job}
    {jobs : List Job} (hjobs : s.jobs = job :: jobs) :
    Moves D cfg s (.work amb now fault) (doJob D { s with jobs := jobs } amb now fault job) := by
  cases job with
  | process cmds =>
    cases fault with
    | some detail => exact .batchErr amb now _ hjobs (.fault detail)
    | none =>
      simp only [doJob]
      split
      · rename_i db result hok
        exact .batchOk now hjobs hok
      · rename_i e herr
        exact .batchErr amb now _ hjobs (.engine e)
  | markPublished ids =>
    cases fault with
    | some detail => exact .markErr amb now hjobs detail
    | none => exact .markOk amb now hjobs

theorem moves_of_step (h : step D cfg s a = some s') : Moves D cfg s a s' := by
  cases a with
  | side b =>
    simp only [step, Option.ite_none_right_eq_some, Option.map_eq_some_iff] at h
    obtain ⟨hlocal, sides, hsides, rfl⟩ := h
    exact .side hlocal hsides
  | sendBatch =>
    simp only [step] at h
    split at h <;> cases h
    exact .sendBatch ‹_› ‹_›
  | sendMark =>
    simp only [step] at h
    split at h
    · rename_i last ids hpc hcall
      split_ifs at h with hids <;> cases h
      · exact .markNothing (by rw [hpc, hids]) hcall
      · exact .sendMark hpc hcall hids
    · cases h
  | work amb now fault =>
    simp only [step] at h
    split at h <;> cases h
    exact moves_of_doJob ‹_›
  | recvBatch =>
    simp only [step] at h
    split at h
    · rename_i batch result hphase hcall
      cases result <;> cases h
      · exact .recvBatchErr hphase hcall
      · exact .recvBatchOk hphase hcall
    · cases h
  | recvMark =>
    simp only [step] at h
    split at h
    · rename_i last ids result hpc hcall
      cases result <;> cases h
      · exact .recvMarkErr hpc hcall
      · exact .recvMarkOk hpc hcall
    · cases h
  | crash =>
    simp only [step, Option.map_eq_some_iff] at h
    obtain ⟨sides, hsides, rfl⟩ := h
    exact .crash hsides

/-! ### Steps beside a call -/

/-- While the main loop is in its call, a step of the way in leaves the call alone, and goes the same
way after it. -/
theorem ingest_beside {cfg : Ingest.Config} {i i' : Ingest.State} {b : Ingest.Action}
    (h : Ingest.step D cfg i b = some i') (hown : b.isOwn) (hlocal : isLocal (.ingest b))
    {batch : List Ingest.PendingCommand} (hphase : i.phase = .writing batch) :
    i'.phase = .writing batch ∧
      Ingest.step D cfg { i with phase := .acking batch } b =
        some { i' with phase := .acking batch } := by
  cases Ingest.moves_of_step h with
  | publish => exact ⟨hphase, rfl⟩
  | deliver ackOk hpay hid =>
    rename_i id payload
    have hroom : ∀ i : Ingest.State, i.phase = .writing batch →
        Ingest.hasRoom cfg { i with phase := .acking batch } = Ingest.hasRoom cfg i := by
      intro i hi
      simp [Ingest.hasRoom, hi]
    have hconsume : ∀ i : Ingest.State, i.phase = .writing batch →
        (Ingest.consume cfg i id payload ackOk).phase = .writing batch ∧
        Ingest.consume cfg { i with phase := .acking batch } id payload ackOk =
          { Ingest.consume cfg i id payload ackOk with phase := .acking batch } := by
      intro i hi
      unfold Ingest.consume
      rw [hroom i hi]
      split <;> split_ifs <;> exact ⟨hi, rfl⟩
    obtain ⟨hkeep, hsame⟩ := hconsume { i with sent := id :: i.sent } hphase
    refine ⟨hkeep, ?_⟩
    simp only [Ingest.step, hpay]
    rw [if_pos hid, ← hsame]
  | recvFull hph | recv hph | flush hph | wait hph | ack ok hph | acked ok hph =>
    rw [hphase] at hph
    cases hph
  | commit | abort | fail => cases hlocal
  | sendAck hacks =>
    refine ⟨hphase, ?_⟩
    simp only [Ingest.step, hacks]
  | reconnect => exact ⟨hphase, rfl⟩
  | crash => cases hown

/-- While the publisher thread is in its call, a step of the way out leaves the call alone, and goes
the same way after it. -/
theorem publisher_beside {cfg : Publisher.Config} {p p' : Publisher.State} {b : Publisher.Action}
    (h : Publisher.step D cfg p b = some p') (hown : b.isOwn) (hlocal : isLocal (.publisher b))
    {last : Bool} {ids : List ℕ} (hpc : p.pc = .marking last ids) (pending : List ℕ)
    (pc : Publisher.Pc) :
    p'.pc = p.pc ∧ p'.pending = p.pending ∧ p'.db = p.db ∧
      Publisher.step D cfg { p with pending := pending, pc := pc } b =
        some { p' with pending := pending, pc := pc } := by
  cases Publisher.moves_of_step h with
  | commit | abort | crash => cases hown
  | markOk | markFail => cases hlocal
  | start hpc' | recvPuback hpc' | losePuback hpc' | startMark hpc' | skipMark hpc' | fetch _ hpc'
  | skip _ hpc' | queue _ hpc' | publishOk hpc' | publishErr hpc' | countTimeouts _ hpc' =>
    rw [hpc] at hpc'
    cases hpc'
  | first hsend hns | retransmitted hsend hns | pubAck hsend hns =>
    refine ⟨rfl, rfl, rfl, ?_⟩
    simp only [Publisher.step, Publisher.eventloopStep, hsend, hns]
  | trySend hsend hroom =>
    refine ⟨rfl, rfl, rfl, ?_⟩
    simp only [Publisher.step, Publisher.eventloopStep, hsend, hroom, if_true]
  | drop hsend hfull =>
    refine ⟨rfl, rfl, rfl, ?_⟩
    simp only [Publisher.step, Publisher.eventloopStep, hsend, hfull, if_false]
  | send hreq hid hfree =>
    refine ⟨rfl, rfl, rfl, ?_⟩
    simp only [Publisher.step, Publisher.networkStep, hreq]
    rw [if_pos ⟨hid, hfree⟩]
  | retransmit hout | puback hout | strayPuback hout =>
    refine ⟨rfl, rfl, rfl, ?_⟩
    simp only [Publisher.step, Publisher.networkStep, hout]

/-! ### The replies counted as read -/

/-- What the main loop is doing, once it has read a good reply. -/
def phaseSeen : Call BatchResult → Ingest.Phase → Ingest.Phase
  | .replied (.ok _), .writing batch => .acking batch
  | _, phase => phase

/-- What the publisher thread is doing, once it has read a good reply. -/
def pcSeen : Call ℕ → Publisher.Pc → Publisher.Pc
  | .replied (.ok _), .marking last _ => Publisher.afterDrain last
  | _, pc => pc

/-- The rows that it still has to mark then. -/
def pendingSeen : Call ℕ → Publisher.Pc → List ℕ → List ℕ
  | .replied (.ok _), .marking _ ids, pending => pending.filter fun id => id ∉ ids
  | _, _, pending => pending

/-- The writer as it is once the good replies are read. -/
def State.seen (s : State) : Pipeline.State where
  ingest := { s.sides.ingest with phase := phaseSeen s.batchCall s.sides.ingest.phase }
  publisher := { s.sides.publisher with
    pending := pendingSeen s.markCall s.sides.publisher.pc s.sides.publisher.pending
    pc := pcSeen s.markCall s.sides.publisher.pc }
  shared := s.sides.shared

theorem ingest_seen {cfg : Ingest.Config} {i i' : Ingest.State} {b : Ingest.Action}
    (h : Ingest.step D cfg i b = some i') (hown : b.isOwn) (hlocal : isLocal (.ingest b))
    {c : Call BatchResult} (hcall : c ≠ .idle → ∃ batch, i.phase = .writing batch) :
    Ingest.step D cfg { i with phase := phaseSeen c i.phase } b =
      some { i' with phase := phaseSeen c i'.phase } := by
  rcases c with _ | _ | ⟨_ | result⟩
  · exact h
  · exact h
  · exact h
  · obtain ⟨batch, hphase⟩ := hcall (by simp)
    obtain ⟨hphase', hstep⟩ := ingest_beside h hown hlocal hphase
    rw [hphase, hphase']
    exact hstep

theorem publisher_seen {cfg : Publisher.Config} {p p' : Publisher.State} {b : Publisher.Action}
    (h : Publisher.step D cfg p b = some p') (hown : b.isOwn) (hlocal : isLocal (.publisher b))
    {c : Call ℕ} (hcall : c ≠ .idle → ∃ last ids, p.pc = .marking last ids) :
    Publisher.step D cfg { p with pending := pendingSeen c p.pc p.pending, pc := pcSeen c p.pc } b =
      some { p' with pending := pendingSeen c p'.pc p'.pending, pc := pcSeen c p'.pc } := by
  rcases c with _ | _ | ⟨_ | n⟩
  · exact h
  · exact h
  · exact h
  · obtain ⟨last, ids, hpc⟩ := hcall (by simp)
    obtain ⟨hpc', hpending, -, hstep⟩ := publisher_beside h hown hlocal hpc
      (p.pending.filter fun id => id ∉ ids) (Publisher.afterDrain last)
    rw [hpc', hpending, hpc]
    exact hstep

/-- The job that the main loop waits for. -/
def batchJobs (c : Call BatchResult) (phase : Ingest.Phase) : List Job :=
  match c, phase with
  | .waiting, .writing batch => [.process (batch.map (·.envelope))]
  | _, _ => []

/-- The job that the publisher thread waits for. -/
def markJobs (c : Call ℕ) (pc : Publisher.Pc) : List Job :=
  match c, pc with
  | .waiting, .marking _ ids => [.markPublished ids]
  | _, _ => []

/-- What every step keeps: a call is made for the batch, or the rows, in hand, and the jobs in the
channel are those that the callers wait for. -/
structure Inv (s : State) : Prop where
  batch : s.batchCall ≠ .idle → ∃ batch, s.sides.ingest.phase = .writing batch
  mark : s.markCall ≠ .idle → ∃ last ids, s.sides.publisher.pc = .marking last ids
  jobs : s.jobs.Perm (batchJobs s.batchCall s.sides.ingest.phase ++
    markJobs s.markCall s.sides.publisher.pc)

theorem inv_init (cfg : Pipeline.Config) : Inv (init cfg) :=
  ⟨fun h => absurd rfl h, fun h => absurd rfl h, List.Perm.refl _⟩

theorem process_not_mem_markJobs (c : Call ℕ) (pc : Publisher.Pc) (cmds : List WriteEnvelope) :
    Job.process cmds ∉ markJobs c pc := by
  unfold markJobs
  split <;> simp

theorem markPublished_not_mem_batchJobs (c : Call BatchResult) (phase : Ingest.Phase)
    (ids : List ℕ) : Job.markPublished ids ∉ batchJobs c phase := by
  unfold batchJobs
  split <;> simp

/-- The next job is the batch of the main loop. -/
theorem Inv.process (hs : Inv s) {cmds : List WriteEnvelope} {jobs : List Job}
    (hjobs : s.jobs = .process cmds :: jobs) :
    ∃ batch, s.sides.ingest.phase = .writing batch ∧ s.batchCall = .waiting ∧
      cmds = batch.map (·.envelope) ∧
      jobs.Perm (markJobs s.markCall s.sides.publisher.pc) := by
  have hperm := hs.jobs
  have hmem : Job.process cmds ∈ batchJobs s.batchCall s.sides.ingest.phase := by
    have hall := hperm.mem_iff.1 (hjobs ▸ List.mem_cons_self ..)
    exact (List.mem_append.1 hall).resolve_right (process_not_mem_markJobs _ _ _)
  unfold batchJobs at hmem hperm
  split at hmem
  · rename_i batch hcall hphase
    simp only [List.mem_singleton, Job.process.injEq] at hmem
    subst hmem
    rw [hjobs] at hperm
    simp only [hcall, hphase, List.singleton_append] at hperm
    exact ⟨batch, hphase, hcall, rfl, hperm.cons_inv⟩
  · simp at hmem

/-- The next job is the one of the publisher thread. -/
theorem Inv.markPublished (hs : Inv s) {ids : List ℕ} {jobs : List Job}
    (hjobs : s.jobs = .markPublished ids :: jobs) :
    ∃ last, s.sides.publisher.pc = .marking last ids ∧ s.markCall = .waiting ∧
      jobs.Perm (batchJobs s.batchCall s.sides.ingest.phase) := by
  have hperm := hs.jobs
  have hmem : Job.markPublished ids ∈ markJobs s.markCall s.sides.publisher.pc := by
    have hall := hperm.mem_iff.1 (hjobs ▸ List.mem_cons_self ..)
    exact (List.mem_append.1 hall).resolve_left (markPublished_not_mem_batchJobs _ _ _)
  unfold markJobs at hmem hperm
  split at hmem
  · rename_i last ids' hcall hpc
    simp only [List.mem_singleton, Job.markPublished.injEq] at hmem
    subst hmem
    rw [hjobs] at hperm
    simp only [hcall, hpc] at hperm
    exact ⟨last, hpc, hcall, (hperm.trans List.perm_append_comm).cons_inv⟩
  · simp at hmem

/-- A step of a side leaves the calls alone. -/
theorem inv_side (hs : Inv s) {b : Pipeline.Action} (hlocal : isLocal b) {sides : Pipeline.State}
    (h : Pipeline.step D cfg s.sides b = some sides) : Inv { s with sides := sides } := by
  have hkeep : (s.batchCall ≠ .idle → sides.ingest.phase = s.sides.ingest.phase) ∧
      (s.markCall ≠ .idle → sides.publisher.pc = s.sides.publisher.pc) := by
    cases Pipeline.moves_of_step h with
    | ingest hown hi =>
      refine ⟨fun hcall => ?_, fun _ => rfl⟩
      obtain ⟨batch, hphase⟩ := hs.batch hcall
      rw [hphase]
      exact (ingest_beside hi hown hlocal hphase).1
    | publisher hown hp =>
      refine ⟨fun _ => rfl, fun hcall => ?_⟩
      obtain ⟨last, ids, hpc⟩ := hs.mark hcall
      exact (publisher_beside hp hown hlocal hpc [] .idle).1
    | crash => cases hlocal
  have hbatch : batchJobs s.batchCall sides.ingest.phase =
      batchJobs s.batchCall s.sides.ingest.phase := by
    cases hcall : s.batchCall with
    | idle => rfl
    | waiting => rw [hkeep.1 (by simp [hcall])]
    | replied result => rfl
  have hmark : markJobs s.markCall sides.publisher.pc =
      markJobs s.markCall s.sides.publisher.pc := by
    cases hcall : s.markCall with
    | idle => rfl
    | waiting => rw [hkeep.2 (by simp [hcall])]
    | replied result => rfl
  refine ⟨fun hcall => ?_, fun hcall => ?_, ?_⟩
  · rw [hkeep.1 hcall]
    exact hs.batch hcall
  · rw [hkeep.2 hcall]
    exact hs.mark hcall
  · rw [hbatch, hmark]
    exact hs.jobs

theorem inv_step (hs : Inv s) (h : step D cfg s a = some s') : Inv s' := by
  cases moves_of_step h with
  | side hlocal hsides => exact inv_side hs hlocal hsides
  | sendBatch hphase hcall =>
    refine ⟨fun _ => ⟨_, hphase⟩, hs.mark, ?_⟩
    have hjobs := hs.jobs
    simp only [hcall, batchJobs, List.nil_append] at hjobs
    simp only [hphase, batchJobs]
    exact (List.Perm.append_right _ hjobs).trans List.perm_append_comm
  | sendMark hpc hcall hids =>
    refine ⟨hs.batch, fun _ => ⟨_, _, hpc⟩, ?_⟩
    have hjobs := hs.jobs
    simp only [hcall, markJobs, List.append_nil] at hjobs
    simp only [hpc, markJobs]
    exact List.Perm.append_right _ hjobs
  | markNothing hpc hcall =>
    refine ⟨hs.batch, fun _ => ⟨_, _, hpc⟩, ?_⟩
    have hjobs := hs.jobs
    simpa only [hcall, markJobs] using hjobs
  | batchOk now hjobs hok =>
    obtain ⟨batch, hphase, hcall, -, hrest⟩ := hs.process hjobs
    exact ⟨fun _ => ⟨batch, hphase⟩, hs.mark, hrest⟩
  | batchErr amb now fault hjobs e =>
    obtain ⟨batch, hphase, hcall, -, hrest⟩ := hs.process hjobs
    exact ⟨fun _ => ⟨batch, hphase⟩, hs.mark, hrest⟩
  | markOk amb now hjobs =>
    obtain ⟨last, hpc, hcall, hrest⟩ := hs.markPublished hjobs
    refine ⟨hs.batch, fun _ => ⟨last, _, hpc⟩, ?_⟩
    simpa only [ingest_withDb, markJobs, List.append_nil] using hrest
  | markErr amb now hjobs detail =>
    obtain ⟨last, hpc, hcall, hrest⟩ := hs.markPublished hjobs
    refine ⟨hs.batch, fun _ => ⟨last, _, hpc⟩, ?_⟩
    simpa only [markJobs, List.append_nil] using hrest
  | recvBatchOk hphase hcall | recvBatchErr hphase hcall =>
    have hjobs := hs.jobs
    simp only [hcall, batchJobs] at hjobs
    exact ⟨fun hne => absurd rfl hne, hs.mark, hjobs⟩
  | recvMarkOk hpc hcall | recvMarkErr hpc hcall =>
    have hjobs := hs.jobs
    simp only [hcall, markJobs] at hjobs
    exact ⟨hs.batch, fun hne => absurd rfl hne, hjobs⟩
  | crash => exact ⟨fun hne => absurd rfl hne, fun hne => absurd rfl hne, List.Perm.refl _⟩

/-! ### The refinement -/

theorem markPublishedBatch_nil (now : String) (t : Outbox) : t.markPublishedBatch now [] = t := by
  ext1
  · simp [Outbox.markPublishedBatch, Outbox.update]
  · rfl

/-- A step of the writer is a step of `Pipeline`, or is not seen there: sending a job and reading a
good reply are not, and a job has its effect when the write thread does it. -/
theorem seen_of_step (hs : Inv s) (h : step D cfg s a = some s') :
    s'.seen = s.seen ∨ ∃ b, Pipeline.step D cfg s.seen b = some s'.seen := by
  cases moves_of_step h with
  | side hlocal hsides =>
    right
    cases Pipeline.moves_of_step hsides with
    | ingest hown hi =>
      exact ⟨_, Pipeline.step_ingest hown (ingest_seen hi hown hlocal hs.batch)⟩
    | publisher hown hp =>
      have hseen := publisher_seen hp hown hlocal hs.mark
      exact ⟨_, Pipeline.step_publisher (s := s.seen) hown hseen⟩
    | crash => cases hlocal
  | sendBatch hphase hcall =>
    left
    simp only [State.seen, hcall]
    rfl
  | sendMark hpc hcall hids =>
    left
    simp only [State.seen, hcall]
    rfl
  | markNothing hpc hcall =>
    -- the mark of no row changes nothing
    rename_i last
    have hstep : Publisher.step D cfg.publisher s.seen.publisher (.markOk "") =
        some { s.sides.publisher with
          pending := s.sides.publisher.pending.filter fun id => id ∉ []
          pc := Publisher.afterDrain last } := by
      simp only [State.seen, hcall, hpc, pcSeen, pendingSeen, Publisher.step,
        Publisher.publisherStep, markPublishedBatch_nil]
    refine Or.inr ⟨_, (Pipeline.step_publisher rfl hstep).trans (congrArg some ?_)⟩
    ext1
    · simp only [Pipeline.State.withPublisher, State.seen, s.sides.shared]
    · simp only [Pipeline.State.withPublisher, State.seen, hpc, pcSeen, pendingSeen]
  | batchOk now hjobs hok =>
    rename_i amb cmds jobs db result
    obtain ⟨batch, hphase, hcall, rfl, -⟩ := hs.process hjobs
    have hstep : Ingest.step D cfg.ingest s.seen.ingest (.commit amb) =
        some { s.sides.ingest with db := db, phase := .acking batch } := by
      simp only [State.seen, hcall, hphase, phaseSeen, Ingest.step, hok]
    refine Or.inr ⟨_, (Pipeline.step_ingest rfl hstep).trans (congrArg some ?_)⟩
    ext1
    · simp only [Pipeline.State.withIngest, State.seen, ingest_withDb, hphase, phaseSeen]
    · rfl
  | batchErr amb now fault hjobs e =>
    obtain ⟨batch, hphase, hcall, -, -⟩ := hs.process hjobs
    left
    simp only [State.seen, hcall, hphase, phaseSeen]
  | markOk amb now hjobs =>
    rename_i ids jobs
    obtain ⟨last, hpc, hcall, -⟩ := hs.markPublished hjobs
    have hstep : Publisher.step D cfg.publisher s.seen.publisher (.markOk now) =
        some { s.sides.publisher with
          db := { s.sides.ingest.db with
            outbox := s.sides.ingest.db.outbox.markPublishedBatch now ids }
          pending := s.sides.publisher.pending.filter fun id => id ∉ ids
          pc := Publisher.afterDrain last } := by
      simp only [State.seen, hcall, hpc, pcSeen, pendingSeen, Publisher.step,
        Publisher.publisherStep, s.sides.shared]
    refine Or.inr ⟨_, (Pipeline.step_publisher rfl hstep).trans (congrArg some ?_)⟩
    ext1
    · rfl
    · simp only [Pipeline.State.withPublisher, State.seen, publisher_withDb, hpc, pcSeen, pendingSeen]
  | markErr amb now hjobs detail =>
    obtain ⟨last, hpc, hcall, -⟩ := hs.markPublished hjobs
    left
    simp only [State.seen, hcall, hpc, pcSeen, pendingSeen]
  | recvBatchOk hphase hcall =>
    left
    simp only [State.seen, hcall, hphase, phaseSeen]
  | recvBatchErr hphase hcall =>
    have hstep : Ingest.step D cfg.ingest s.seen.ingest .fail =
        some { s.sides.ingest with phase := .receiving } := by
      simp only [State.seen, hcall, hphase, phaseSeen, Ingest.step]
    refine Or.inr ⟨_, (Pipeline.step_ingest rfl hstep).trans (congrArg some ?_)⟩
    ext1
    · rfl
    · simp only [Pipeline.State.withIngest, State.seen, ← s.sides.shared]
  | recvMarkOk hpc hcall =>
    left
    simp only [State.seen, hcall, hpc, pcSeen, pendingSeen]
  | recvMarkErr hpc hcall =>
    have hstep : Publisher.step D cfg.publisher s.seen.publisher .markFail =
        some { s.sides.publisher with pc := .idle } := by
      simp only [State.seen, hcall, hpc, pcSeen, pendingSeen, Publisher.step,
        Publisher.publisherStep]
    refine Or.inr ⟨_, (Pipeline.step_publisher rfl hstep).trans (congrArg some ?_)⟩
    ext1
    · simp only [Pipeline.State.withPublisher, State.seen, s.sides.shared]
    · rfl
  | crash hsides => exact Or.inr ⟨.crash, hsides⟩

/-- **The calls refine the atomic steps.**  In every reachable state the writer, with the good replies
counted as read, is in a reachable state of `Pipeline`. -/
theorem refines_pipeline (hreach : Reachable (step D cfg) (init cfg) s) :
    Reachable (Pipeline.step D cfg) (Pipeline.init cfg) s.seen :=
  reachable_map (f := State.seen) (inv_init cfg) (fun _ _ _ hs h => inv_step hs h)
    (fun _ _ _ hs h => seen_of_step hs h) hreach

/-- A writer for `main` that flushes every command at once. -/
def sampleConfig : Pipeline.Config where
  ingest := Ingest.sampleConfig
  publisher := .default "main" 500
  sameStore := rfl

/-- An upsert comes in, and the main loop calls for its batch. -/
def sampleCall : List Action :=
  [.side (.ingest (.publish Ingest.sampleMessage)), .side (.ingest (.deliver 0 true)),
    .side (.ingest (.recv false)), .sendBatch]

theorem refines_pipeline_before_recvBatch :
    ∃ s, Reachable (step History.sampleDeps sampleConfig) (init sampleConfig) s ∧
      s.sides.ingest.db.outbox.seq = 1 ∧
      Reachable (Pipeline.step History.sampleDeps sampleConfig) (Pipeline.init sampleConfig)
        s.seen := by
  have hrun : (runFrom (step History.sampleDeps sampleConfig) (init sampleConfig)
      (sampleCall ++ [.work (fun _ => History.sampleAmbient) "" none])).map
        (fun s => s.sides.ingest.db.outbox.seq) = some 1 := by
    decide +kernel
  obtain ⟨s, hreach, hseq⟩ := exists_reachable hrun
  exact ⟨s, hreach, hseq, refines_pipeline hreach⟩

/-- **Nothing is lost in the writer.**  Whatever the threads, the broker and SQLite do, and whenever the
process dies: a published command stays at the broker or is decided about in the database; what is
recorded there was commanded and has its event, in the same order; a row that is marked was acknowledged
by the broker, and one of the store that is not is offered by `fetch_unpublished` when its turn comes; and
nothing else was published. -/
theorem nothing_lost (D : Deps) (cfg : Pipeline.Config) (s : State)
    (hreach : Reachable (step D cfg) (init cfg) s) :
    Pipeline.EndToEnd D cfg s.sides.ingest.published s.sides.ingest.unacked
      s.sides.publisher.acknowledged s.sides.ingest.db := by
  have hseen := Pipeline.endToEnd (refines_pipeline hreach)
  exact hseen

/-- The upsert is committed and acknowledged. -/
def sampleCommitted : List Action :=
  sampleCall ++ [.work (fun _ => History.sampleAmbient) "" none, .recvBatch,
    .side (.ingest (.ack true)), .side (.ingest .sendAck)]

/-- Its event is published and acknowledged, and is to be marked. -/
def sampleAcknowledged : List Action :=
  [.side (.publisher .start), .side (.publisher .skipMark), .side (.publisher (.fetch true)),
    .side (.publisher (.track 0)), .side (.publisher (.publishReturns true)),
    .side (.publisher (.send 1)), .side (.publisher .notify), .side (.publisher (.puback 1)),
    .side (.publisher .notify), .side (.publisher .trySend), .side (.publisher (.countTimeouts 10)),
    .side (.publisher .recvPuback), .side (.publisher (.startMark [1]))]

/-- The event is marked. -/
def sampleActions : List Action :=
  sampleCommitted ++ sampleAcknowledged ++
    [.sendMark, .work (fun _ => History.sampleAmbient) "2026-01-01 00:00:01" none, .recvMark]

theorem nothing_lost_of_an_upsert :
    ∃ s, Reachable (step History.sampleDeps sampleConfig) (init sampleConfig) s ∧
      s.sides.ingest.unacked = [] ∧ s.sides.publisher.acknowledged.length = 1 ∧
      Pipeline.EndToEnd History.sampleDeps sampleConfig s.sides.ingest.published
        s.sides.ingest.unacked s.sides.publisher.acknowledged s.sides.ingest.db := by
  have hrun : (runFrom (step History.sampleDeps sampleConfig) (init sampleConfig)
      sampleActions).map (fun s =>
        (s.sides.ingest.unacked, s.sides.publisher.acknowledged.length)) = some ([], 1) := by
    decide +kernel
  obtain ⟨s, hreach, hs⟩ := exists_reachable hrun
  obtain ⟨hun, hack⟩ := Prod.mk.inj hs
  exact ⟨s, hreach, hun, hack, nothing_lost History.sampleDeps sampleConfig s hreach⟩

/-! ### How long a call can take -/

/-- The action is the write thread's. -/
def Action.isWork : Action → Bool
  | .work _ _ _ => true
  | _ => false

/-- The job is a batch. -/
def Job.isProcess : Job → Bool
  | .process _ => true
  | .markPublished _ => false

/-- How many jobs there are up to the first one of the kind, and none if there is no such job. -/
def turns (own : Job → Bool) : List Job → ℕ
  | [] => 0
  | job :: jobs =>
    if own job then 1 else if turns own jobs = 0 then 0 else turns own jobs + 1

section Turns

variable {own : Job → Bool} {job : Job} {jobs : List Job}

theorem turns_le_length (own : Job → Bool) (jobs : List Job) : turns own jobs ≤ jobs.length := by
  induction jobs with
  | nil => exact Nat.le_refl 0
  | cons job jobs ih =>
    unfold turns
    split_ifs <;> simp only [List.length_cons] <;> omega

theorem turns_eq_zero : turns own jobs = 0 ↔ ∀ job ∈ jobs, own job = false := by
  induction jobs with
  | nil => simp [turns]
  | cons job jobs ih =>
    unfold turns
    split_ifs with hown hzero
    · simp [hown]
    · simpa [hown] using ih.1 hzero
    · simpa [hown] using mt ih.2 hzero

theorem turns_append (h : turns own jobs ≠ 0) (more : List Job) :
    turns own (jobs ++ more) = turns own jobs := by
  induction jobs with
  | nil => exact absurd rfl h
  | cons job jobs ih =>
    rw [List.cons_append, turns, turns]
    unfold turns at h
    split_ifs at h with hown hzero
    · rw [if_pos hown, if_pos hown]
    · exact absurd rfl h
    · rw [if_neg hown, if_neg hown, ih hzero]

/-- A job that is done is paid for by one turn. -/
theorem turns_tail (hmem : turns own (job :: jobs) ≠ 0)
    (hlast : own job = true → ∀ job ∈ jobs, own job = false) :
    1 + turns own jobs ≤ turns own (job :: jobs) := by
  rw [turns] at hmem ⊢
  split_ifs at hmem ⊢ with hown hzero
  · rw [turns_eq_zero.2 (hlast hown)]
  · exact absurd rfl hmem
  · omega

end Turns

/-- Apart from the write thread, the threads only add jobs, and a crash drops them all. -/
theorem jobs_of_step (h : step D cfg s a = some s') :
    a.isWork = true ∧ (∃ job, s.jobs = job :: s'.jobs) ∨
    a.isWork = false ∧ ((∃ more, s'.jobs = s.jobs ++ more) ∨ s'.jobs = []) := by
  cases moves_of_step h with
  | batchOk _ hjobs | batchErr _ _ _ hjobs | markOk _ _ hjobs | markErr _ _ hjobs =>
    exact Or.inl ⟨rfl, _, hjobs⟩
  | sendBatch | sendMark => exact Or.inr ⟨rfl, Or.inl ⟨_, rfl⟩⟩
  | crash => exact Or.inr ⟨rfl, Or.inr rfl⟩
  | _ => exact Or.inr ⟨rfl, Or.inl ⟨[], (List.append_nil _).symm⟩⟩

/-- While a job of the kind is in the channel, at most once, the steps of the write thread are paid
for by the turns of that job. -/
theorem turns_pay {own : Job → Bool} (hin : turns own s.jobs ≠ 0)
    (honce : ∀ job jobs, s.jobs = job :: jobs → own job = true → ∀ job ∈ jobs, own job = false)
    (h : step D cfg s a = some s') :
    (if a.isWork then 1 else 0) + turns own s'.jobs ≤ turns own s.jobs := by
  rcases jobs_of_step h with ⟨hwork, job, hjobs⟩ | ⟨hother, ⟨more, hjobs⟩ | hjobs⟩
  · rw [hjobs] at hin
    rw [if_pos hwork, hjobs]
    exact turns_tail hin (honce job s'.jobs hjobs)
  · rw [hother, hjobs, turns_append hin]
    simp
  · rw [hother, hjobs]
    simp [turns]

theorem Inv.length_jobs (hs : Inv s) : s.jobs.length ≤ 2 := by
  have hbatch : (batchJobs s.batchCall s.sides.ingest.phase).length ≤ 1 := by
    unfold batchJobs
    split <;> simp
  have hmark : (markJobs s.markCall s.sides.publisher.pc).length ≤ 1 := by
    unfold markJobs
    split <;> simp
  rw [hs.jobs.length_eq, List.length_append]
  omega

theorem Inv.turns_process (hs : Inv s) (hcall : s.batchCall = .waiting) :
    turns Job.isProcess s.jobs ≠ 0 ∧
      ∀ job jobs, s.jobs = job :: jobs → job.isProcess = true →
        ∀ job ∈ jobs, job.isProcess = false := by
  constructor
  · obtain ⟨batch, hphase⟩ := hs.batch (by simp [hcall])
    intro hzero
    have hjob := turns_eq_zero.1 hzero (.process (batch.map (·.envelope))) (hs.jobs.mem_iff.2 (by
      simp [batchJobs, hcall, hphase]))
    cases hjob
  · intro job jobs hjobs hown j hj
    cases job with
    | markPublished => cases hown
    | process cmds =>
      obtain ⟨-, -, -, -, hperm⟩ := hs.process hjobs
      cases j with
      | process cmds' => exact absurd (hperm.mem_iff.1 hj) (process_not_mem_markJobs _ _ _)
      | markPublished => rfl

theorem Inv.turns_mark (hs : Inv s) (hcall : s.markCall = .waiting) :
    turns (fun job => !job.isProcess) s.jobs ≠ 0 ∧
      ∀ job jobs, s.jobs = job :: jobs → (!job.isProcess) = true →
        ∀ job ∈ jobs, (!job.isProcess) = false := by
  constructor
  · obtain ⟨last, ids, hpc⟩ := hs.mark (by simp [hcall])
    intro hzero
    have hjob := turns_eq_zero.1 hzero (.markPublished ids) (hs.jobs.mem_iff.2 (by
      simp [markJobs, hcall, hpc]))
    cases hjob
  · intro job jobs hjobs hown j hj
    cases job with
    | process => cases hown
    | markPublished ids =>
      obtain ⟨-, -, -, hperm⟩ := hs.markPublished hjobs
      cases j with
      | process => rfl
      | markPublished ids' =>
        exact absurd (hperm.mem_iff.1 hj) (markPublished_not_mem_batchJobs _ _ _)

/-- **A call waits for at most two jobs**, its own included: in a run during which the main loop, or
the publisher thread, is blocked in its call all the time, the write thread takes no more than two
jobs; and it can always take one. -/
theorem served_by_second (D : Deps) (cfg : Pipeline.Config) (s s' : State) (as : List Action)
    (hreach : Reachable (step D cfg) (init cfg) s) (hrun : runFrom (step D cfg) s as = some s') :
    (StepsMeet (step D cfg) (fun s _ => s.batchCall = .waiting) s as →
      as.countP Action.isWork ≤ 2) ∧
    (StepsMeet (step D cfg) (fun s _ => s.markCall = .waiting) s as →
      as.countP Action.isWork ≤ 2) ∧
    (s.batchCall = .waiting ∨ s.markCall = .waiting →
      ∀ amb now fault, (step D cfg s (.work amb now fault)).isSome) := by
  have hinv : Inv s := hreach.invariant (inv_init cfg) fun s a s' hs h => inv_step hs h
  have hlen := hinv.length_jobs
  refine ⟨fun hwait => ?_, fun hwait => ?_, fun hwait amb now fault => ?_⟩
  · have hcount : as.countP Action.isWork ≤ turns Job.isProcess s.jobs := by
      refine countP_actions_le (I := Inv) (f := fun s => turns Job.isProcess s.jobs)
        (fun s a s' hs _ h => inv_step hs h) (fun s a s' hs hcall h => ?_) hinv hwait hrun
      obtain ⟨hin, honce⟩ := hs.turns_process hcall
      exact turns_pay hin honce h
    exact hcount.trans ((turns_le_length _ _).trans hlen)
  · have hcount : as.countP Action.isWork ≤ turns (fun job => !job.isProcess) s.jobs := by
      refine countP_actions_le (I := Inv) (f := fun s => turns (fun job => !job.isProcess) s.jobs)
        (fun s a s' hs _ h => inv_step hs h) (fun s a s' hs hcall h => ?_) hinv hwait hrun
      obtain ⟨hin, honce⟩ := hs.turns_mark hcall
      exact turns_pay hin honce h
    exact hcount.trans ((turns_le_length _ _).trans hlen)
  · have hne : s.jobs ≠ [] := by
      rintro hnil
      rcases hwait with hcall | hcall
      · exact (hinv.turns_process hcall).1 (by rw [hnil]; rfl)
      · exact (hinv.turns_mark hcall).1 (by rw [hnil]; rfl)
    obtain ⟨job, jobs, hjobs⟩ := List.exists_cons_of_ne_nil hne
    simp [step, hjobs]

/-- The write thread does two jobs. -/
def sampleWork : List Action :=
  [.work (fun _ => History.sampleAmbient) "2026-01-01 00:00:01" none,
    .work (fun _ => History.sampleAmbient) "2026-01-01 00:00:01" none]

/-- Both threads wait: the row of the upsert is to be marked, and the upsert has come in again. -/
def sampleWaiting : List Action :=
  sampleCommitted ++ sampleAcknowledged ++
    [.sendMark, .side (.ingest (.ack true)), .side (.ingest (.publish Ingest.sampleMessage)),
      .side (.ingest (.deliver 1 true)), .side (.ingest (.recv false)), .sendBatch]

theorem served_by_second_after_sendBatch :
    ∃ s s' as, Reachable (step History.sampleDeps sampleConfig) (init sampleConfig) s ∧
      s.markCall = .waiting ∧ as.countP Action.isWork = 2 ∧
      runFrom (step History.sampleDeps sampleConfig) s as = some s' ∧
      StepsMeet (step History.sampleDeps sampleConfig) (fun s _ => s.batchCall = .waiting) s as ∧
      as.countP Action.isWork ≤ 2 := by
  have hrun : (runFrom (step History.sampleDeps sampleConfig) (init sampleConfig) sampleWaiting).map
      (fun s => (decide (s.markCall = .waiting),
        decide (StepsMeet (step History.sampleDeps sampleConfig) (fun s _ => s.batchCall = .waiting) s
          sampleWork),
        (runFrom (step History.sampleDeps sampleConfig) s sampleWork).isSome)) =
        some (true, true, true) := by
    decide +kernel
  obtain ⟨s, hreach, hs⟩ := exists_reachable hrun
  obtain ⟨hmark, hs⟩ := Prod.mk.inj hs
  obtain ⟨hmeet, hsome⟩ := Prod.mk.inj hs
  obtain ⟨s', hrun'⟩ := Option.isSome_iff_exists.1 hsome
  exact ⟨s, s', sampleWork, hreach, of_decide_eq_true hmark, rfl, hrun', of_decide_eq_true hmeet,
    (served_by_second History.sampleDeps sampleConfig s s' _ hreach hrun').1 (of_decide_eq_true hmeet)⟩

end WriteThread

end Ixmati
