import Ixmati.Writer.Ingest

/-!
# The watchdog

`Progress` of `watchdog.rs` beside the main loop: a word that is set to the time of the first command
received, and cleared by `batch_committed` when a batch has committed and its commands are acknowledged.
The watchdog thread ends the process when the word has been set for too long.

A batch that fails leaves the word as it is, but the next one that commits clears it.  So the word tells
about progress and not about each command:

* `disarmed_after_commit` : while the word is 0, each command received is in a batch that committed, or
  in one that failed before another committed, and nothing received is on its way;
* `failed_batch_is_forgotten` : such a command need not be in a batch that committed.

The broker may send one message several times, so a command received is known by its position among all
that were received: the batches processed, the current one and the batcher hold them in this order.

A clock that reads 0, at or before the epoch, does not set the word.
-/

namespace Ixmati

namespace Watchdog

open Ingest (PendingCommand)

/-! ### The word -/

/-- `Progress::command_received`. -/
def commandReceived (pendingSinceMs now : UInt64) : UInt64 :=
  if pendingSinceMs = 0 then now else pendingSinceMs

/-- `should_exit`, with the timeout in milliseconds. -/
def shouldExit (pendingSinceMs now : UInt64) (timeoutMs : ℕ) : Bool :=
  pendingSinceMs ≠ 0 && decide (timeoutMs ≤ now.toNat - pendingSinceMs.toNat)

/-! ### The main loop with its watchdog -/

/-- The configuration of the writer; the watchdog is off if the timeout is 0. -/
structure Config extends Ingest.Config where
  watchdogTimeoutMs : ℕ

/-- The writer, the word, and for the proofs what has happened since the process was started. -/
structure State where
  ingest : Ingest.State
  /-- `Progress::pending_since_ms`. -/
  pendingSinceMs : UInt64
  /-- The commands received, each with the reading of the clock. -/
  received : List (PendingCommand × UInt64)
  /-- The batches processed, each with whether it committed. -/
  finished : List (Bool × List PendingCommand)

/-- The steps of the system. -/
inductive Action where
  /-- A step of the writer, with the reading of the clock. -/
  | ingest (a : Ingest.Action) (now : UInt64)
  /-- The watchdog thread looks at the word. -/
  | watch (now : UInt64)

/-- A process that was just started, with what is outside of it. -/
def start (i : Ingest.State) : State := ⟨i, 0, [], []⟩

/-- What the main loop does to the word in a step of the writer that leads to `i`. -/
def progress (s : State) (now : UInt64) (i : Ingest.State) : Ingest.Action → State
  | .recv _ =>
    match s.ingest.channel with
    | cmd :: _ =>
      { s with
        ingest := i
        pendingSinceMs := commandReceived s.pendingSinceMs now
        received := s.received ++ [(cmd, now)] }
    | [] => { s with ingest := i }
  | .commit _ =>
    match s.ingest.phase, i.phase with
    | .writing batch, .acking _ => { s with ingest := i, finished := s.finished ++ [(true, batch)] }
    | .writing batch, _ => { s with ingest := i, finished := s.finished ++ [(false, batch)] }
    | _, _ => { s with ingest := i }
  | .fail =>
    match s.ingest.phase with
    | .writing batch => { s with ingest := i, finished := s.finished ++ [(false, batch)] }
    | _ => { s with ingest := i }
  | .ack _ =>
    match s.ingest.phase with
    -- the loop over the batch is over: `batch_committed`
    | .acking [] => { s with ingest := i, pendingSinceMs := 0 }
    | _ => { s with ingest := i }
  | .crash => start i
  | _ => { s with ingest := i }

/-- One step. -/
def step (D : Deps) (cfg : Config) (s : State) : Action → Option State
  | .ingest a now => (Ingest.step D cfg.toConfig s.ingest a).map fun i => progress s now i a
  | .watch now =>
    if cfg.watchdogTimeoutMs ≠ 0 ∧ shouldExit s.pendingSinceMs now cfg.watchdogTimeoutMs then
      (Ingest.step D cfg.toConfig s.ingest .crash).map start
    else some s

/-- The state before anything is published. -/
def init (cfg : Config) : State := start (Ingest.init cfg.toConfig)

/-- The command is in a batch that committed. -/
def Committed (s : State) (cmd : PendingCommand) : Prop := ∃ b ∈ s.finished, b.1 = true ∧ cmd ∈ b.2

/-- What was received at this position is in a batch that committed, or in one that was processed before
another committed. -/
def Passed (s : State) (i : ℕ) (cmd : PendingCommand) : Prop :=
  ∃ before b after j, s.finished = before ++ b :: after ∧
    i = (before.flatMap Prod.snd).length + j ∧ b.2[j]? = some cmd ∧
    (b.1 = true ∨ ∃ c ∈ after, c.1 = true)

/-! ### The invariant -/

/-- The batch that the write thread processes. -/
def batchOf : Ingest.Phase → List PendingCommand
  | .writing batch => batch
  | _ => []

/-- What every step keeps. -/
structure Inv (s : State) : Prop where
  /-- What was received is in the batches processed, in the current one or in the batcher, in order. -/
  order : s.received.map Prod.fst =
    s.finished.flatMap Prod.snd ++ (batchOf s.ingest.phase ++ s.ingest.batcher)
  /-- The main loop receives nothing while it processes a batch. -/
  flushed : s.ingest.phase ≠ .receiving → s.ingest.batcher = []
  /-- What is being acknowledged has just committed. -/
  acking : ∀ rest, s.ingest.phase = .acking rest →
    ∃ before batch, s.finished = before ++ [(true, batch)]
  disarmed : s.pendingSinceMs = 0 → ∀ i p, s.received[i]? = some p → p.2 = 0 ∨ Passed s i p.1

variable {D : Deps} {cfg : Config} {s s' : State} {i : Ingest.State}

theorem inv_start (i : Ingest.State) (hbatcher : i.batcher = []) (hphase : i.phase = .receiving) :
    Inv (start i) := by
  refine ⟨?_, fun _ => hbatcher, fun rest hrest => ?_, fun _ j p hp => ?_⟩
  · simp [start, hbatcher, hphase, batchOf]
  · exact absurd (hphase.symm.trans hrest) (by simp)
  · cases hp

/-- The batch in which a position lies. -/
theorem exists_batch {finished : List (Bool × List PendingCommand)} {j : ℕ} {cmd : PendingCommand}
    (h : (finished.flatMap Prod.snd)[j]? = some cmd) :
    ∃ before b after k, finished = before ++ b :: after ∧
      j = (before.flatMap Prod.snd).length + k ∧ b.2[k]? = some cmd := by
  induction finished generalizing j with
  | nil => cases h
  | cons b finished ih =>
    rw [List.flatMap_cons, List.getElem?_append] at h
    split_ifs at h with hlt
    · exact ⟨[], b, finished, j, rfl, by simp, h⟩
    · obtain ⟨before, c, after, k, rfl, hj, hk⟩ := ih h
      refine ⟨b :: before, c, after, k, rfl, ?_, hk⟩
      rw [List.flatMap_cons, List.length_append]
      omega

/-- Once the last batch has committed, all that were processed are passed. -/
theorem passed_of_last {before : List (Bool × List PendingCommand)} {batch : List PendingCommand}
    (hlast : s.finished = before ++ [(true, batch)]) {j : ℕ} {cmd : PendingCommand}
    (h : (s.finished.flatMap Prod.snd)[j]? = some cmd) : Passed s j cmd := by
  obtain ⟨front, b, back, k, heq, hj, hk⟩ := exists_batch h
  refine ⟨front, b, back, k, heq, hj, hk, ?_⟩
  have hend : (b :: back).getLast? = some (true, batch) := by
    have hwhole : (front ++ b :: back).getLast? = (before ++ [(true, batch)]).getLast? :=
      congrArg List.getLast? (heq.symm.trans hlast)
    rwa [List.getLast?_append_of_ne_nil _ (List.cons_ne_nil _ _), List.getLast?_concat] at hwhole
  rcases List.mem_cons.1 (List.mem_of_getLast? hend) with h | h
  · exact Or.inl (h ▸ rfl)
  · exact Or.inr ⟨_, h, rfl⟩

theorem Passed.mono {j : ℕ} {cmd : PendingCommand} (h : Passed s j cmd)
    {more : List (Bool × List PendingCommand)} (hmore : s'.finished = s.finished ++ more) :
    Passed s' j cmd := by
  obtain ⟨before, b, after, k, heq, hj, hk, hor⟩ := h
  refine ⟨before, b, after ++ more, k, ?_, hj, hk, hor.imp_right ?_⟩
  · rw [hmore, heq, List.append_assoc, List.cons_append]
  · rintro ⟨c, hc, hcommitted⟩
    exact ⟨c, List.mem_append_left _ hc, hcommitted⟩

/-- Only what was processed is passed. -/
theorem Passed.lt {j : ℕ} {cmd : PendingCommand} (h : Passed s j cmd) :
    j < (s.finished.flatMap Prod.snd).length := by
  obtain ⟨before, b, after, k, heq, rfl, hk, -⟩ := h
  have hlt := (List.getElem?_eq_some_iff.1 hk).1
  rw [heq, List.flatMap_append, List.flatMap_cons, List.length_append, List.length_append]
  omega

/-- A step that moves no command of the main loop. -/
theorem Inv.with_ingest (hs : Inv s) (hbatcher : i.batcher = s.ingest.batcher)
    (hphase : i.phase = s.ingest.phase) : Inv { s with ingest := i } := by
  refine ⟨?_, fun h => ?_, fun rest hrest => ?_, hs.disarmed⟩
  · rw [hbatcher, hphase]
    exact hs.order
  · rw [hbatcher]
    exact hs.flushed (hphase ▸ h)
  · exact hs.acking rest (hphase.symm.trans hrest)

/-- A command is received, into the batcher or with it into a batch. -/
theorem inv_recv (hs : Inv s) {cmd : PendingCommand} {now : UInt64}
    (hi : i.batcher = s.ingest.batcher ++ [cmd] ∧ i.phase = .receiving ∨
      i.batcher = [] ∧ i.phase = .writing (s.ingest.batcher ++ [cmd]))
    (hphase : s.ingest.phase = .receiving) :
    Inv { s with
      ingest := i
      pendingSinceMs := commandReceived s.pendingSinceMs now
      received := s.received ++ [(cmd, now)] } := by
  have hheld : batchOf i.phase ++ i.batcher = s.ingest.batcher ++ [cmd] := by
    rcases hi with ⟨hbatcher, hrec⟩ | ⟨hbatcher, hwriting⟩
    · rw [hrec, hbatcher]
      rfl
    · rw [hwriting, hbatcher]
      exact List.append_nil _
  refine ⟨?_, fun h => ?_, fun rest hrest => ?_, fun hzero j p hp => ?_⟩
  · have horder := hs.order
    rw [hphase] at horder
    rw [List.map_append, horder, hheld, List.append_assoc]
    rfl
  · rcases hi with ⟨-, hrec⟩ | ⟨hbatcher, -⟩
    · exact absurd hrec h
    · exact hbatcher
  · rcases hi with ⟨-, h⟩ | ⟨-, h⟩
    · exact absurd (h.symm.trans hrest) (by simp)
    · exact absurd (h.symm.trans hrest) (by simp)
  · -- the word is 0 only if it was before and the clock reads 0
    simp only [commandReceived] at hzero
    split_ifs at hzero with hbefore
    · rw [List.getElem?_append] at hp
      split_ifs at hp
      · exact hs.disarmed hbefore j p hp
      · have hlast := List.mem_of_getElem? hp
        rw [List.mem_singleton] at hlast
        rw [hlast]
        exact Or.inl hzero
    · exact absurd hzero hbefore

/-- The interval of the batch is over. -/
theorem inv_flush (hs : Inv s) (hphase : s.ingest.phase = .receiving) :
    Inv { s with ingest := Ingest.flush s.ingest s.ingest.batcher } := by
  refine ⟨?_, fun _ => rfl, fun rest hrest => ?_, hs.disarmed⟩
  · have horder := hs.order
    rw [hphase] at horder
    simpa [Ingest.flush, batchOf] using horder
  · cases hrest

/-- The write thread is done with the batch. -/
theorem inv_finish (hs : Inv s) {batch : List PendingCommand} (hphase : s.ingest.phase = .writing batch)
    (hbatcher : i.batcher = s.ingest.batcher) (ok : Bool)
    (hafter : i.phase = if ok then .acking batch else .receiving) :
    Inv { s with ingest := i, finished := s.finished ++ [(ok, batch)] } := by
  have hempty : s.ingest.batcher = [] := hs.flushed (by rw [hphase]; simp)
  have hnone : batchOf i.phase = [] := by
    rw [hafter]
    cases ok <;> rfl
  refine ⟨?_, fun _ => hbatcher.trans hempty, fun rest hrest => ?_, fun hzero j p hp => ?_⟩
  · have horder := hs.order
    rw [hphase, hempty, List.append_nil] at horder
    rw [horder, hnone, hbatcher, hempty, List.flatMap_append]
    simp [batchOf]
  · cases ok with
    | false => exact absurd (hafter.symm.trans hrest) (by simp)
    | true => exact ⟨s.finished, batch, rfl⟩
  · exact (hs.disarmed hzero j p hp).imp_right fun h => h.mono rfl

/-- The batch is acknowledged, and the word is cleared. -/
theorem inv_batchCommitted (hs : Inv s) (hphase : s.ingest.phase = .acking [])
    (hbatcher : i.batcher = s.ingest.batcher) (hreceiving : i.phase = .receiving) :
    Inv { s with ingest := i, pendingSinceMs := 0 } := by
  have hempty : s.ingest.batcher = [] := hs.flushed (by rw [hphase]; simp)
  have horder : s.received.map Prod.fst = s.finished.flatMap Prod.snd := by
    have horder := hs.order
    rw [hphase, hempty] at horder
    simpa [batchOf] using horder
  obtain ⟨before, batch, hlast⟩ := hs.acking [] hphase
  refine ⟨?_, fun _ => hbatcher.trans hempty, fun rest hrest => ?_, fun _ j p hp => Or.inr ?_⟩
  · rw [hreceiving, hbatcher, hempty]
    exact horder.trans (List.append_nil _).symm
  · exact absurd (hreceiving.symm.trans hrest) (by simp)
  · refine passed_of_last (s := { s with ingest := i, pendingSinceMs := 0 }) hlast ?_
    show (s.finished.flatMap Prod.snd)[j]? = some p.1
    rw [← horder, List.getElem?_map, hp]
    rfl

/-- A command of the committed batch is acknowledged. -/
theorem Inv.with_acking (hs : Inv s) {cmd : PendingCommand} {rest : List PendingCommand}
    (hphase : s.ingest.phase = .acking (cmd :: rest)) (hbatcher : i.batcher = s.ingest.batcher)
    (hafter : i.phase = .acking rest) : Inv { s with ingest := i } := by
  refine ⟨?_, fun _ => ?_, fun _ _ => hs.acking _ hphase, hs.disarmed⟩
  · have horder := hs.order
    rw [hphase] at horder
    rw [hafter, hbatcher]
    exact horder
  · exact hbatcher.trans (hs.flushed (by rw [hphase]; simp))

/-! ### Steps of the writer -/

theorem inv_ingest (hs : Inv s) {a : Ingest.Action} {now : UInt64}
    (h : Ingest.step D cfg.toConfig s.ingest a = some i) : Inv (progress s now i a) := by
  cases Ingest.moves_of_step h with
  | publish payload => exact hs.with_ingest rfl rfl
  | deliver ackOk hpay hid =>
    refine hs.with_ingest ?_ ?_ <;>
      · unfold Ingest.consume
        split <;> split_ifs <;> rfl
  | recvFull hphase hchannel =>
    simp only [progress, hchannel]
    exact inv_recv hs (Or.inr ⟨rfl, rfl⟩) hphase
  | recv hphase hchannel =>
    simp only [progress, hchannel]
    exact inv_recv hs (Or.inl ⟨rfl, hphase⟩) hphase
  | flush hphase => exact inv_flush hs hphase
  | wait => exact hs.with_ingest rfl rfl
  | commit hphase =>
    simp only [progress, hphase]
    refine inv_finish hs hphase ?_ true ?_ <;> rfl
  | abort hphase =>
    simp only [progress, hphase]
    refine inv_finish hs hphase ?_ false ?_ <;> rfl
  | fail hphase =>
    simp only [progress, hphase]
    refine inv_finish hs hphase ?_ false ?_ <;> rfl
  | ack ok hphase =>
    simp only [progress, hphase]
    exact hs.with_acking hphase rfl rfl
  | acked ok hphase =>
    simp only [progress, hphase]
    exact inv_batchCommitted hs hphase rfl rfl
  | sendAck hacks => exact hs.with_ingest rfl rfl
  | reconnect keepAcks => exact hs.with_ingest rfl rfl
  | crash => exact inv_start _ rfl rfl

theorem inv_step {a : Action} (hs : Inv s) (h : step D cfg s a = some s') : Inv s' := by
  cases a with
  | ingest a now =>
    obtain ⟨i, hi, rfl⟩ := Option.map_eq_some_iff.1 h
    exact inv_ingest hs hi
  | watch now =>
    simp only [step] at h
    split_ifs at h
    · cases h
      exact inv_start _ rfl rfl
    · cases h
      exact hs

/-! ### Runs -/

/-- **What a disarmed watchdog tells.**  In every reachable state in which the word is 0, whatever was
received since the start, with a clock past the epoch, is in a batch that committed or in one that
failed before another committed.  The batches processed, the current one and the batcher hold what was
received in this order, so if every clock was past the epoch then the last two are empty. -/
theorem disarmed_after_commit (D : Deps) (cfg : Config) (s : State)
    (hreach : Reachable (step D cfg) (init cfg) s) (hzero : s.pendingSinceMs = 0) :
    (∀ i p, s.received[i]? = some p → p.2 = 0 ∨ Passed s i p.1) ∧
    s.received.map Prod.fst =
      s.finished.flatMap Prod.snd ++ (batchOf s.ingest.phase ++ s.ingest.batcher) ∧
    ((∀ p ∈ s.received, p.2 ≠ 0) → batchOf s.ingest.phase = [] ∧ s.ingest.batcher = []) := by
  have hinv : Inv s :=
    hreach.invariant (inv_start _ rfl rfl) fun s a s' hs h => inv_step hs h
  refine ⟨hinv.disarmed hzero, hinv.order, fun hclock => ?_⟩
  have hlength := congrArg List.length hinv.order
  rw [List.length_map, List.length_append] at hlength
  rw [← List.append_eq_nil_iff, ← List.length_eq_zero_iff]
  by_contra hne
  -- the first of those on their way is passed, but its position is not among the batches processed
  obtain ⟨p, hp⟩ : ∃ p, s.received[(s.finished.flatMap Prod.snd).length]? = some p :=
    ⟨_, List.getElem?_eq_getElem (by omega)⟩
  rcases hinv.disarmed hzero _ p hp with hclock' | hpassed
  · exact hclock p (List.mem_of_getElem? hp) hclock'
  · exact absurd hpassed.lt (Nat.lt_irrefl _)

/-- A writer with a batch for each command, which knows the messages of two upserts. -/
def twoUpserts : Config where
  storeName := "main"
  batchSize := 1
  channelCapacity := 5000
  decode payload :=
    if payload = Ingest.sampleMessage then some (History.sampleUpsert "a" 1)
    else some (History.sampleUpsert "b" 1)
  watchdogTimeoutMs := 30000

/-- The batch of the first command fails, and the one of the second commits. -/
def failThenCommit : List Action :=
  [.ingest (.publish Ingest.sampleMessage) 0, .ingest (.publish []) 0, .ingest (.deliver 0 true) 0,
    .ingest (.deliver 1 true) 0, .ingest (.recv false) 1000, .ingest .fail 0,
    .ingest (.recv false) 2000, .ingest (.commit fun _ => History.sampleAmbient) 0,
    .ingest (.ack true) 0, .ingest (.ack true) 0]

theorem disarmed_after_fail_and_commit :
    ∃ s, Reachable (step History.sampleDeps twoUpserts) (init twoUpserts) s ∧ s.pendingSinceMs = 0 ∧
      s.received.length = 2 ∧ (∀ i p, s.received[i]? = some p → p.2 = 0 ∨ Passed s i p.1) ∧
      batchOf s.ingest.phase = [] ∧ s.ingest.batcher = [] := by
  have hrun : (runFrom (step History.sampleDeps twoUpserts) (init twoUpserts) failThenCommit).map
      (fun s => (s.pendingSinceMs, s.received.length, s.received.all fun p => p.2 ≠ 0)) =
        some (0, 2, true) := by decide +kernel
  obtain ⟨s, hreach, hs⟩ := exists_reachable hrun
  simp only [Prod.mk.injEq] at hs
  obtain ⟨hzero, hlength, hclock⟩ := hs
  obtain ⟨hpassed, -, hempty⟩ := disarmed_after_commit _ _ s hreach hzero
  refine ⟨s, hreach, hzero, hlength, hpassed, hempty fun p hp => ?_⟩
  simpa using List.all_eq_true.1 hclock p hp

/-- The word is 0, and the first command is in no batch that committed. -/
theorem failed_batch_is_forgotten :
    ∃ s, Reachable (step History.sampleDeps twoUpserts) (init twoUpserts) s ∧ s.pendingSinceMs = 0 ∧
      ∃ p ∈ s.received, p.2 ≠ 0 ∧ ¬ Committed s p.1 := by
  have hrun : (runFrom (step History.sampleDeps twoUpserts) (init twoUpserts) failThenCommit).map
      (fun s => (s.pendingSinceMs, s.received.any fun p => p.2 ≠ 0 && s.finished.all fun b =>
        !b.1 || b.2.all fun c => c.ack ≠ p.1.ack)) = some (0, true) := by decide +kernel
  obtain ⟨s, hreach, hs⟩ := exists_reachable hrun
  obtain ⟨hzero, hany⟩ := Prod.mk.inj hs
  obtain ⟨p, hp, hfacts⟩ := List.any_eq_true.1 hany
  rw [Bool.and_eq_true, List.all_eq_true] at hfacts
  refine ⟨s, hreach, hzero, p, hp, by simpa using hfacts.1, ?_⟩
  rintro ⟨b, hb, hok, hmem⟩
  have hother := hfacts.2 b hb
  rw [hok, Bool.not_true, Bool.false_or, List.all_eq_true] at hother
  have hne := hother p.1 hmem
  simp at hne

end Watchdog

end Ixmati
