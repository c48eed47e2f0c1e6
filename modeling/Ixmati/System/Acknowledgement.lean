import Ixmati.System.Step
import Ixmati.Writer.Versions

/-!
# Durable acknowledgements

`submit_write` returns `200` when it finds an idempotency row under the store and idempotency key of
its command.  The row names the command it was recorded for, but nobody compares, and the writer
drops a command whose key is recorded, whatever else it says.  So the `200` is about the command that
was applied first under the key:

* `Recorded` : in every reachable state, a `200` comes with *some* applied command under its key;
* `ack_is_durable` : it is the command of the call, or one that writes the same, in every run in
  which no idempotency key is reused for a different write;
* `reused_key_is_acknowledged` : a run in which one is.
-/

namespace Ixmati

/-- The commands have the same idempotency key in the same store. -/
def WriteEnvelope.SameRequest (c d : WriteEnvelope) : Prop :=
  c.store = d.store ∧ c.idempotencyKey = d.idempotencyKey

/-- The commands write the same version of the same key by the same operation. -/
def WriteEnvelope.SameWrite (c d : WriteEnvelope) : Prop :=
  c.op = d.op ∧ c.entity = d.entity ∧ c.key = d.key ∧ c.version = d.version

instance (c d : WriteEnvelope) : Decidable (c.SameRequest d) := inferInstanceAs (Decidable (_ ∧ _))

instance (c d : WriteEnvelope) : Decidable (c.SameWrite d) := inferInstanceAs (Decidable (_ ∧ _))

open WriteEngine

namespace System

variable {D : Deps} {cfg : Config} {s s' : State} {a : Action}

/-- What a `200` rests on. -/
structure Recorded (D : Deps) (s : State) : Prop where
  journaled : History.Journaled D s.history
  /-- Only published commands are applied. -/
  published : ∀ it ∈ s.log, it.cmd ∈ s.published
  /-- A call that waits or has returned `200` has published its command. -/
  submitted : ∀ c ∈ s.submits, c.result = none ∨ c.acked = true → c.cmd ∈ s.published
  /-- A call that has returned `200` has a recorded request. -/
  acked : ∀ c ∈ s.submits, c.acked = true → ∃ it ∈ s.log, it.cmd.SameRequest c.cmd

theorem recorded_init (D : Deps) (cfg : Config) : Recorded D (init cfg) := by
  refine ⟨⟨rfl, rfl, rfl⟩, ?_, ?_, ?_⟩ <;> simp [init, State.log, History.applied]

/-- The row that a query finds was recorded for an entry of the log with the same request. -/
theorem Recorded.entry_of_row (hs : Recorded D s) {store key : String} {row : IdempotencyRow}
    (hrow : s.history.db.idempotency.find? (store, key) = some row) :
    ∃ it ∈ s.log, History.idempotencyRow D it = row ∧ it.cmd.store = store ∧
      it.cmd.idempotencyKey = key := by
  obtain ⟨hmem, hpk⟩ := (Table.find?_eq_some _).1 hrow
  obtain ⟨it, hit, rfl⟩ := hs.journaled.mem_idempotency.1 hmem
  obtain ⟨hstore, hkey⟩ := Prod.mk.inj hpk
  exact ⟨it, hit, rfl, hstore, hkey⟩

/-- The submits change, and nothing else that `Recorded` is about. -/
theorem Recorded.with_submits (hs : Recorded D s) {submits : List Submit}
    (hall : ∀ c ∈ submits, c ∈ s.submits ∨
      ((c.result = none ∨ c.acked = true → c.cmd ∈ s.published) ∧
        (c.acked = true → ∃ it ∈ s.log, it.cmd.SameRequest c.cmd))) :
    Recorded D { s with submits := submits } := by
  refine ⟨hs.journaled, hs.published, fun c hc hres => ?_, fun c hc hack => ?_⟩
  · rcases hall c hc with hold | ⟨hnew, -⟩
    · exact hs.submitted c hold hres
    · exact hnew hres
  · rcases hall c hc with hold | ⟨-, hnew⟩
    · exact hs.acked c hold hack
    · exact hnew hack

theorem recorded_commit (hs : Recorded D s) {ambient : ℕ → Ambient} {batch : List ℕ}
    {db : Database} {result : BatchResult}
    (hok : processBatch D ambient s.history.db (s.delivered cfg batch) = .ok (db, result)) :
    Recorded D (s.afterBatch D ambient (s.delivered cfg batch) db result) := by
  obtain ⟨new, hlog, hnew⟩ := log_afterBatch hok
  refine ⟨history_afterBatch hok (fun h a cmd tx o hj _ hcmd => hj.extend hcmd) hs.journaled,
    fun it hit => ?_, hs.submitted, fun c hc hack => ?_⟩
  · rw [hlog] at hit
    rcases List.mem_append.1 hit with hit | hit
    · exact hs.published it hit
    · exact (mem_delivered (hnew it hit)).1
  · obtain ⟨it, hit, hsame⟩ := hs.acked c hc hack
    refine ⟨it, ?_, hsame⟩
    rw [hlog]
    exact List.mem_append_left new hit

theorem recorded_step (hs : Recorded D s) (h : step D cfg s a = some s') : Recorded D s' := by
  cases moves_of_step h with
  | submit envelope uuid =>
    have hs₁ : Recorded D { s with published := s.published ++ [commandOf envelope uuid] } :=
      ⟨hs.journaled, fun it hit => List.mem_append_left _ (hs.published it hit),
        fun c hc hres => List.mem_append_left _ (hs.submitted c hc hres), hs.acked⟩
    refine hs₁.with_submits fun c hc => ?_
    rcases List.mem_append.1 hc with hc | hc
    · exact Or.inl hc
    · rw [List.mem_singleton] at hc
      subst hc
      exact Or.inr ⟨fun _ => List.mem_append_right _ (List.mem_singleton_self _),
        fun hack => by simp [Submit.acked] at hack⟩
  | refuse envelope why =>
    refine hs.with_submits fun c hc => ?_
    rcases List.mem_append.1 hc with hc | hc
    · exact Or.inl hc
    · -- no refusal is a `200`
      rw [List.mem_singleton] at hc
      subst hc
      cases why <;> exact Or.inr ⟨by simp [Submit.acked, Refusal.toResult],
        by simp [Submit.acked, Refusal.toResult]⟩
  | ack hcall hrow =>
    refine hs.with_submits fun c hc => ?_
    rcases List.mem_or_eq_of_mem_set hc with hc | rfl
    · exact Or.inl hc
    · have hpub := hs.submitted _ (List.mem_of_getElem? hcall) (Or.inl rfl)
      refine Or.inr ⟨fun _ => hpub, fun _ => ?_⟩
      obtain ⟨it, hit, -, hstore, hkey⟩ := hs.entry_of_row hrow
      exact ⟨it, hit, hstore, hkey⟩
  | deadline hcall =>
    refine hs.with_submits fun c hc => ?_
    rcases List.mem_or_eq_of_mem_set hc with hc | rfl
    · exact Or.inl hc
    · exact Or.inr ⟨by simp [Submit.acked, pendingAck], by simp [Submit.acked, pendingAck]⟩
  | commit hphase hok => exact recorded_commit hs hok
  | idle => exact hs
  | _ => exact ⟨hs.journaled, hs.published, hs.submitted, hs.acked⟩

/-! ### Keys that are not reused -/

/-- A submitted command with the idempotency key of an earlier one writes the same. -/
def KeepsKey (s : State) : Action → Prop
  | .submit envelope uuid =>
    ∀ cmd ∈ s.published, cmd.SameRequest (commandOf envelope uuid) →
      cmd.SameWrite (commandOf envelope uuid)
  | _ => True

instance (s : State) : DecidablePred (KeepsKey s)
  | .submit envelope uuid => inferInstanceAs (Decidable (∀ cmd ∈ s.published,
      cmd.SameRequest (commandOf envelope uuid) → cmd.SameWrite (commandOf envelope uuid)))
  | .refuse .. | .poll .. | .deadline .. | .commit .. | .enqueue | .receive | .sync .. |
    .startRead .. | .get .. | .select .. | .fill .. => isTrue trivial

/-- Each idempotency key stands for one write. -/
def OneWritePerKey (s : State) : Prop :=
  ∀ c ∈ s.published, ∀ d ∈ s.published, c.SameRequest d → c.SameWrite d

theorem oneWritePerKey_step (hs : OneWritePerKey s) (ha : KeepsKey s a)
    (h : step D cfg s a = some s') : OneWritePerKey s' := by
  cases moves_of_step h with
  | submit envelope uuid =>
    have hself : (commandOf envelope uuid).SameWrite (commandOf envelope uuid) :=
      ⟨rfl, rfl, rfl, rfl⟩
    intro c hc d hd hreq
    rcases List.mem_append.1 hc with hc | hc <;> rcases List.mem_append.1 hd with hd | hd
    · exact hs c hc d hd hreq
    · rw [List.mem_singleton] at hd
      subst hd
      exact ha c hc hreq
    · rw [List.mem_singleton] at hc
      subst hc
      obtain ⟨hop, hentity, hkey, hversion⟩ := ha d hd ⟨hreq.1.symm, hreq.2.symm⟩
      exact ⟨hop.symm, hentity.symm, hkey.symm, hversion.symm⟩
    · rw [List.mem_singleton] at hc hd
      subst hc hd
      exact hself
  | _ => exact hs

/-- A `200` is about the write of the call: a command that writes the same was applied, and the row
under the idempotency key of the call was recorded for it. -/
def AcksAreDurable (D : Deps) (s : State) : Prop :=
  ∀ c ∈ s.submits, c.acked = true → ∃ it ∈ s.log, it.cmd.SameWrite c.cmd ∧
    s.history.db.idempotency.find? (c.cmd.store, c.cmd.idempotencyKey) =
      some (History.idempotencyRow D it)

/-- **A `200` means that the write is durable**, in every run in which no idempotency key is reused
for a different write. -/
theorem ack_is_durable (D : Deps) (cfg : Config) (as : List Action) (s : State)
    (hkeys : StepsMeet (step D cfg) KeepsKey (init cfg) as)
    (hrun : runFrom (step D cfg) (init cfg) as = some s) : AcksAreDurable D s := by
  have hinv : Recorded D s ∧ OneWritePerKey s :=
    invariant_of_stepsMeet (I := fun s => Recorded D s ∧ OneWritePerKey s)
      (fun s a s' hs ha h => ⟨recorded_step hs.1 h, oneWritePerKey_step hs.2 ha h⟩)
      ⟨recorded_init D cfg, by simp [OneWritePerKey, init]⟩ hkeys hrun
  obtain ⟨hrec, hone⟩ := hinv
  intro c hc hack
  obtain ⟨it, hit, hreq⟩ := hrec.acked c hc hack
  refine ⟨it, hit, ?_, ?_⟩
  · exact hone _ (hrec.published it hit) _ (hrec.submitted c hc (Or.inr hack)) hreq
  · refine (Table.find?_eq_some _).2 ⟨hrec.journaled.mem_idempotency.2 ⟨it, hit, rfl⟩, ?_⟩
    rw [← hreq.1, ← hreq.2]
    rfl

/-- Two writes with keys of their own, of which the first is committed and acknowledged. -/
def sampleWrites : List Action :=
  [.submit (History.sampleUpsert "a" 1) "", .submit (History.sampleUpsert "b" 2) "",
    .commit (fun _ => History.sampleAmbient) [0], .poll 0 true]

theorem ack_is_durable_of_two_writes :
    ∃ s c it, StepsMeet (step History.sampleDeps sampleConfig) KeepsKey (init sampleConfig)
        sampleWrites ∧
      runFrom (step History.sampleDeps sampleConfig) (init sampleConfig) sampleWrites = some s ∧
      c ∈ s.submits ∧ c.acked = true ∧ it ∈ s.log ∧ it.cmd.SameWrite c.cmd := by
  have hkeys : StepsMeet (step History.sampleDeps sampleConfig) KeepsKey (init sampleConfig)
      sampleWrites := by
    decide +kernel
  have hrun : (runFrom (step History.sampleDeps sampleConfig) (init sampleConfig)
      sampleWrites).map (fun s => s.submits.any Submit.acked) = some true := by
    decide +kernel
  obtain ⟨s, hs, hany⟩ := Option.map_eq_some_iff.1 hrun
  obtain ⟨c, hc, hack⟩ := List.any_eq_true.1 hany
  obtain ⟨it, hit, hsame, -⟩ :=
    ack_is_durable History.sampleDeps sampleConfig sampleWrites s hkeys hs c hc hack
  exact ⟨s, c, it, hkeys, hs, hc, hack, hit, hsame⟩

/-- The second write reuses the idempotency key of the first, and is acknowledged without having
been processed at all. -/
theorem reused_key_is_acknowledged :
    ∃ s, Reachable (step History.sampleDeps sampleConfig) (init sampleConfig) s ∧
      ∃ c ∈ s.submits, c.acked = true ∧ c.cmd.version = 2 ∧
        (∀ it ∈ s.log, it.cmd.version ≠ 2) ∧ ¬ AcksAreDurable History.sampleDeps s := by
  have hrun : (runFrom (step History.sampleDeps sampleConfig) (init sampleConfig)
      [.submit (History.sampleUpsert "a" 1) "", .commit (fun _ => History.sampleAmbient) [0],
        .submit (History.sampleUpsert "a" 2) "", .poll 1 true]).map
      (fun s => decide ((∃ c ∈ s.submits, c.acked = true ∧ c.cmd.version = 2) ∧
        ∀ it ∈ s.log, it.cmd.version ≠ 2)) = some true := by
    decide +kernel
  obtain ⟨s, hreach, hs⟩ := exists_reachable hrun
  obtain ⟨⟨c, hc, hack, hversion⟩, hlog⟩ := of_decide_eq_true hs
  refine ⟨s, hreach, c, hc, hack, hversion, hlog, fun hdurable => ?_⟩
  obtain ⟨it, hit, hsame, -⟩ := hdurable c hc hack
  exact hlog it hit (hsame.2.2.2.trans hversion)

end System

end Ixmati
