import Ixmati.Lib.Collect
import Ixmati.Writer.Publisher

/-!
# How often a row is published

A row leaves the tracker when its acknowledgement is handled, and is unpublished in the database until
it has passed the channel, the set of pending rows and a batch of `mark_published_batch`.  In between
`fetch_unpublished` offers it and `contains_row` does not know it, so it is published again.

* `State.unmarked` : the rows in between;
* `Accounted` : what was handed to `client.publish` is tracked, in between, or marked;
* `handedOver_nodup_iff` : in a run without crash, failure or overflow no row is handed over twice exactly
  if no row is asked for in `contains_row` while it is in between.
-/

namespace Ixmati

/-! ### The rows of the tracker -/

namespace PublishTracker

/-- The tracked rows. -/
def rows (t : PublishTracker) : List ℕ := t.queued ++ t.inflight.values

variable {t : PublishTracker} {rowId now : ℕ} {packetId : UInt16}

theorem containsRow_iff : t.containsRow rowId = true ↔ rowId ∈ t.rows := by
  simp [containsRow, rows, Dict.values]

theorem perm_rows_queue : (t.queue now rowId).rows.Perm (rowId :: t.rows) := by
  show (t.queued ++ [rowId] ++ t.inflight.values).Perm _
  rw [List.append_assoc]
  exact List.perm_middle

theorem perm_rows_onOutgoingPublish : (t.onOutgoingPublish packetId).rows.Perm t.rows := by
  unfold onOutgoingPublish
  split_ifs with hskip
  · exact List.Perm.refl _
  · push Not at hskip
    have hfree : t.inflight.get packetId = none := by simpa using hskip.2
    cases hqueued : t.queued with
    | nil => exact List.Perm.refl _
    | cons rowId queued =>
      show (queued ++ (t.inflight.insert packetId rowId).values).Perm t.rows
      rw [Dict.values_insert hfree, rows, hqueued, ← List.append_assoc]
      exact List.perm_append_singleton _ _

/-- The row of an acknowledged packet leaves the tracker. -/
theorem perm_rows_onPuback (t : PublishTracker) (packetId : UInt16) :
    ((t.onPuback packetId).1.toList ++ (t.onPuback packetId).2.rows).Perm t.rows := by
  unfold onPuback
  cases hget : t.inflight.get packetId with
  | none => exact List.Perm.refl _
  | some rowId =>
    show (rowId :: (t.queued ++ (t.inflight.remove packetId).values)).Perm _
    refine List.perm_middle.symm.trans ?_
    exact (Dict.perm_values_remove hget).append_left t.queued

end PublishTracker

open WriteEngine

namespace Publisher

/-! ### Handing rows over -/

/-- The row that a step hands to `client.publish`. -/
def handsOver (s : State) : Action → List ℕ
  | .track _ =>
    match s.pc with
    | .publishing (row :: _) => if s.tracker.containsRow row.id then [] else [row.id]
    | _ => []
  | _ => []

/-- The rows that are handed over in a run. -/
def handedOver (D : Deps) (cfg : Config) (s : State) (as : List Action) : List ℕ :=
  outputs (step D cfg) handsOver s as

/-- A process that starts on a database. -/
def boot (cfg : Config) (db : Database) : State := { init cfg.store with db := db }

/-- No crash, no failed publish, no full channel or set, and no failed mark. -/
def undisturbed (cfg : Config) (s : State) : Action → Bool
  | .crash => false
  | .publishReturns ok => ok
  | .trySend => decide (s.pubacks.length < cfg.pubackChannelCapacity)
  | .recvPuback => decide (s.pending.length < cfg.pendingPubackCapacity)
  | .markFail => false
  | _ => true

/-- The rows that were acknowledged and taken from the tracker and are not marked. -/
def State.unmarked (s : State) : List ℕ := s.sending.toList ++ s.pubacks ++ s.pending

/-- The row that `contains_row` is asked for is not in between the tracker and the database. -/
def settled (s : State) : Action → Bool
  | .track _ =>
    match s.pc with
    | .publishing (row :: _) => decide (row.id ∉ s.unmarked)
    | _ => true
  | _ => true

/-! ### Where the rows are -/

/-- The rows that were handed over and are not marked. -/
def State.places (s : State) : List ℕ := s.tracker.rows ++ s.unmarked

/-- What was handed over is in one place or marked, and the fetched rows are not marked. -/
structure Accounted (handed : List ℕ) (s : State) : Prop where
  nodup : s.places.Nodup
  places : ∀ id ∈ s.places, id ∈ handed
  handed : ∀ id ∈ handed,
    ∃ o ∈ s.db.outbox.rows, o.id = id ∧ (id ∈ s.places ∨ o.publishedAt ≠ none)
  fetched : ∀ row ∈ s.pc.rows, ∃ o ∈ s.db.outbox.rows, o.id = row.id ∧ o.publishedAt = none

variable {D : Deps} {cfg : Config} {s s' : State} {handed : List ℕ} {a : Action}

theorem accounted_boot (cfg : Config) (db : Database) : Accounted [] (boot cfg db) := by
  refine ⟨List.nodup_nil, fun id hid => ?_, fun id hid => ?_, fun row hrow => ?_⟩
  · cases hid
  · cases hid
  · cases hrow

/-- A step that moves rows from one place to another. -/
theorem Accounted.move (hs : Accounted handed s) (hplaces : s'.places.Perm s.places)
    (hdb : s'.db = s.db) (hrows : s'.pc.rows ⊆ s.pc.rows) : Accounted handed s' := by
  refine ⟨hplaces.nodup_iff.2 hs.nodup, fun id hid => hs.places id (hplaces.mem_iff.1 hid), ?_, ?_⟩
  · rw [hdb]
    simpa only [hplaces.mem_iff] using hs.handed
  · rw [hdb]
    exact fun row hrow => hs.fetched row (hrows hrow)

/-- A fetched row that is in no place has not been handed over. -/
theorem Accounted.not_mem_handed (hs : Accounted handed s) {row : OutboxRow} (hrow : row ∈ s.pc.rows)
    (hplaces : row.id ∉ s.places) : row.id ∉ handed := by
  intro hmem
  obtain ⟨o, ho, hid, hor⟩ := hs.handed _ hmem
  obtain ⟨o', ho', hid', hun⟩ := hs.fetched row hrow
  rw [s.db.outbox.eq_of_id_eq ho ho' (hid.trans hid'.symm)] at hor
  exact (hor.resolve_left hplaces) hun

/-! ### Steps that hand nothing over -/

theorem accounted_commit (hs : Accounted handed s) {amb : ℕ → Ambient} {cmds : List WriteEnvelope}
    {db : Database} {result : BatchResult} (hok : processBatch D amb s.db cmds = .ok (db, result)) :
    Accounted handed { s with db := db } := by
  obtain ⟨new, hrows, -⟩ := History.processBatch_outbox hok
  have hkeep : ∀ o ∈ s.db.outbox.rows, o ∈ db.outbox.rows := by
    intro o ho
    rw [hrows]
    exact List.mem_append_left _ ho
  refine ⟨hs.nodup, hs.places, fun id hid => ?_, fun row hrow => ?_⟩
  · obtain ⟨o, ho, h⟩ := hs.handed id hid
    exact ⟨o, hkeep o ho, h⟩
  · obtain ⟨o, ho, h⟩ := hs.fetched row hrow
    exact ⟨o, hkeep o ho, h⟩

theorem accounted_recvPuback (hs : Accounted handed s) {id : ℕ} {pubacks : List ℕ}
    (hch : s.pubacks = id :: pubacks) :
    Accounted handed { s with pubacks := pubacks, pending := s.pending.insert id } := by
  have hnew : id ∉ s.pending := by
    intro hmem
    have hnodup := hs.nodup
    simp only [State.places, State.unmarked, hch] at hnodup
    exact List.disjoint_of_nodup_append (List.nodup_append.1 hnodup).2.1 (by simp) hmem
  refine hs.move ?_ rfl fun _ h => h
  simp only [State.places, State.unmarked, hch, List.insert_of_not_mem hnew, List.append_assoc,
    List.cons_append]
  exact (List.perm_middle.append_left _).append_left _

/-- The marked rows leave the set. -/
theorem accounted_markOk (hs : Accounted handed s) {last : Bool} {ids : List ℕ} (now : String) :
    Accounted handed { s with
      db := { s.db with outbox := s.db.outbox.markPublishedBatch now ids }
      pending := s.pending.filter fun id => id ∉ ids
      pc := afterDrain last } := by
  have hsub : (s.tracker.rows ++ (s.sending.toList ++ s.pubacks ++
      s.pending.filter fun id => id ∉ ids)).Sublist s.places :=
    (((List.filter_sublist).append_left _).append_left _)
  refine ⟨hs.nodup.sublist hsub, fun id hid => hs.places id (hsub.subset hid), fun id hid => ?_,
    fun row hrow => ?_⟩
  · obtain ⟨o, ho, rfl, h⟩ := hs.handed id hid
    by_cases hmark : o.id ∈ ids
    · exact ⟨{ o with publishedAt := some now },
        Outbox.mem_markPublishedBatch.2 ⟨o, ho, Or.inl ⟨hmark, rfl⟩⟩, rfl, Or.inr (by simp)⟩
    · refine ⟨o, Outbox.mem_markPublishedBatch.2 ⟨o, ho, Or.inr ⟨hmark, rfl⟩⟩, rfl, h.imp_left ?_⟩
      intro hplace
      simp only [State.places, State.unmarked, List.mem_append, List.mem_filter] at hplace ⊢
      simpa [hmark] using hplace
  · rw [Pc.rows_afterDrain] at hrow
    cases hrow

theorem accounted_fetch (hs : Accounted handed s) {rows : List OutboxRow}
    (hrows : ∀ row ∈ rows, ∃ o ∈ s.db.outbox.rows, o.publishedAt = none ∧ o.toOutboxRow = row) :
    Accounted handed { s with pc := if rows.isEmpty then .idle else .publishing rows } := by
  refine ⟨hs.nodup, hs.places, hs.handed, fun row hrow => ?_⟩
  have hmem : row ∈ rows := by
    split_ifs at hrow with hempty
    · cases hrow
    · exact hrow
  obtain ⟨o, ho, hun, rfl⟩ := hrows row hmem
  exact ⟨o, ho, rfl, hun⟩

theorem accounted_pubAck (hs : Accounted handed s) {pkid : UInt16} {ns : List Notification}
    (hsend : s.sending = none) :
    Accounted handed { s with
      notifications := ns, tracker := (s.tracker.onPuback pkid).2
      sending := (s.tracker.onPuback pkid).1 } := by
  refine hs.move ?_ rfl fun _ h => h
  have hperm := (s.tracker.perm_rows_onPuback pkid).append_right (s.pubacks ++ s.pending)
  simp only [State.places, State.unmarked, hsend, Option.toList_none, List.nil_append,
    List.append_assoc] at hperm ⊢
  exact (List.perm_append_comm_assoc _ _ _).trans hperm

theorem accounted_trySend (hs : Accounted handed s) {id : ℕ} (hsend : s.sending = some id) :
    Accounted handed { s with sending := none, pubacks := s.pubacks ++ [id] } := by
  refine hs.move ?_ rfl fun _ h => h
  simp only [State.places, State.unmarked, hsend, Option.toList_some, Option.toList_none,
    List.nil_append, List.append_assoc, List.cons_append]
  exact List.perm_middle.append_left _

theorem accounted_step (hs : Accounted handed s) (hcalm : undisturbed cfg s a = true)
    (h : step D cfg s a = some s') (hnone : handsOver s a = []) : Accounted handed s' := by
  cases moves_of_step h with
  | commit hok => exact accounted_commit hs hok
  | abort => exact hs
  | start => exact hs.move (List.Perm.refl _) rfl (List.nil_subset _)
  | recvPuback _ hch => exact accounted_recvPuback hs hch
  | losePuback _ _ hfull => exact absurd (of_decide_eq_true hcalm) hfull
  | startMark => exact hs.move (List.Perm.refl _) rfl (List.nil_subset _)
  | skipMark =>
    refine hs.move (List.Perm.refl _) rfl ?_
    rw [Pc.rows_afterDrain]
    exact List.nil_subset _
  | markOk now => exact accounted_markOk hs now
  | markFail => cases hcalm
  | fetch ok _ hrows =>
    refine accounted_fetch hs fun row hrow => ?_
    rw [hrows] at hrow
    cases ok with
    | false => cases hrow
    | true => exact Outbox.mem_fetchUnpublished hrow
  | skip now hpc =>
    refine hs.move (List.Perm.refl _) rfl ?_
    rw [hpc]
    exact List.subset_cons_self _ _
  | queue now hpc hnew => simp [handsOver, hpc, hnew] at hnone
  | publishOk hpc =>
    refine hs.move (List.Perm.refl _) rfl ?_
    rw [hpc]
    exact List.subset_cons_self _ _
  | publishErr => cases hcalm
  | countTimeouts => exact hs.move (List.Perm.refl _) rfl (List.nil_subset _)
  | first | retransmitted =>
    exact hs.move (PublishTracker.perm_rows_onOutgoingPublish.append_right _) rfl fun _ h => h
  | pubAck hsend => exact accounted_pubAck hs hsend
  | trySend hsend => exact accounted_trySend hs hsend
  | drop _ hfull => exact absurd (of_decide_eq_true hcalm) hfull
  | send | retransmit | puback | strayPuback =>
    exact hs.move (List.Perm.refl _) rfl fun _ h => h
  | crash => cases hcalm

/-! ### The step that hands a row over -/

/-- Only a step that asks for a fetched row can hand one over, or be unsettled. -/
theorem step_asks_or_settled (s : State) (a : Action) :
    (∃ now row rows, a = .track now ∧ s.pc = .publishing (row :: rows)) ∨
      handsOver s a = [] ∧ settled s a = true := by
  cases a with
  | track now =>
    cases hpc : s.pc with
    | publishing rows =>
      cases rows with
      | nil => exact Or.inr (by simp [handsOver, settled, hpc])
      | cons row rows => exact Or.inl ⟨now, row, rows, rfl, rfl⟩
    | _ => exact Or.inr (by simp [handsOver, settled, hpc])
  | _ => exact Or.inr ⟨rfl, rfl⟩

/-- A fetched row that was not handed over before is queued. -/
theorem accounted_queue (hs : Accounted handed s) {row : OutboxRow} {rows : List OutboxRow}
    (hpc : s.pc = .publishing (row :: rows)) (hnew : row.id ∉ handed) (now : ℕ) :
    Accounted (handed ++ [row.id])
      { s with tracker := s.tracker.queue now row.id, pc := .calling row rows } := by
  have hplaces : ((s.tracker.queue now row.id).rows ++ s.unmarked).Perm (row.id :: s.places) :=
    PublishTracker.perm_rows_queue.append_right _
  have hrow : row ∈ s.pc.rows := by
    rw [hpc]
    exact List.mem_cons_self
  refine ⟨hplaces.nodup_iff.2 (List.nodup_cons.2 ⟨fun h => hnew (hs.places _ h), hs.nodup⟩),
    fun id hid => ?_, fun id hid => ?_, fun r hr => hs.fetched r (by rw [hpc]; exact hr)⟩
  · rcases List.mem_cons.1 (hplaces.mem_iff.1 hid) with rfl | hid
    · exact List.mem_append_right _ (List.mem_singleton_self _)
    · exact List.mem_append_left _ (hs.places id hid)
  · rcases List.mem_append.1 hid with hid | hid
    · obtain ⟨o, ho, heq, h⟩ := hs.handed id hid
      exact ⟨o, ho, heq, h.imp_left fun hmem => hplaces.mem_iff.2 (List.mem_cons_of_mem _ hmem)⟩
    · rw [List.mem_singleton] at hid
      obtain ⟨o, ho, heq, -⟩ := hs.fetched row hrow
      exact ⟨o, ho, heq.trans hid.symm, Or.inl (hplaces.mem_iff.2 (by rw [hid]; exact List.mem_cons_self))⟩

/-- A step hands over a row for the second time exactly if it is not settled. -/
theorem handsOver_step (hs : Accounted handed s) (hnodup : handed.Nodup)
    (hcalm : undisturbed cfg s a = true) (h : step D cfg s a = some s') :
    ((handed ++ handsOver s a).Nodup ↔ settled s a = true) ∧
      ((handed ++ handsOver s a).Nodup → Accounted (handed ++ handsOver s a) s') := by
  rcases step_asks_or_settled s a with ⟨now, row, rows, rfl, hpc⟩ | ⟨hnone, hsettled⟩
  · have hsettled : settled s (.track now) = true ↔ row.id ∉ s.unmarked := by
      simp [settled, hpc]
    by_cases htracked : s.tracker.containsRow row.id = true
    · have hnone : handsOver s (.track now) = [] := by simp [handsOver, hpc, htracked]
      have hout : row.id ∉ s.unmarked :=
        List.disjoint_of_nodup_append hs.nodup (PublishTracker.containsRow_iff.1 htracked)
      rw [hnone, List.append_nil]
      exact ⟨iff_of_true hnodup (hsettled.2 hout), fun _ => accounted_step hs hcalm h hnone⟩
    · have hsome : handsOver s (.track now) = [row.id] := by simp [handsOver, hpc, htracked]
      have hrow : row ∈ s.pc.rows := by
        rw [hpc]
        exact List.mem_cons_self
      have hfresh : (handed ++ [row.id]).Nodup ↔ row.id ∉ handed := by
        rw [List.nodup_append_comm, List.singleton_append, List.nodup_cons]
        exact and_iff_left hnodup
      rw [hsome, hfresh, hsettled]
      refine ⟨⟨fun hnew hmem => ?_, fun hout => hs.not_mem_handed hrow fun hmem => ?_⟩, fun hnew => ?_⟩
      · exact hnew (hs.places _ (List.mem_append_right _ hmem))
      · rcases List.mem_append.1 hmem with hmem | hmem
        · exact htracked (PublishTracker.containsRow_iff.2 hmem)
        · exact hout hmem
      · simp only [step, publisherStep, hpc, if_neg htracked] at h
        cases h
        exact accounted_queue hs hpc hnew now
  · rw [hnone, List.append_nil]
    exact ⟨iff_of_true hnodup hsettled, fun _ => accounted_step hs hcalm h hnone⟩

/-! ### Runs -/

/-- **How often a row is published.**  In every run without crash, failed publish, overflow or failed
mark, no row is handed to `client.publish` twice exactly if no row is asked for while it was
acknowledged and is not marked. -/
theorem handedOver_nodup_iff (D : Deps) (cfg : Config) (db : Database) (as : List Action) (s : State)
    (hrun : runFrom (step D cfg) (boot cfg db) as = some s)
    (hcalm : StepsMeet (step D cfg) (fun s a => undisturbed cfg s a = true) (boot cfg db) as) :
    (handedOver D cfg (boot cfg db) as).Nodup ↔
      StepsMeet (step D cfg) (fun s a => settled s a = true) (boot cfg db) as :=
  outputs_iff (fun _ _ h => h.of_append_left)
    (fun _ _ _ _ hs hnodup hcalm h => handsOver_step hs hnodup hcalm h) (accounted_boot cfg db)
    List.nodup_nil hcalm hrun

theorem sampleActions_hand_over_once :
    ∃ s, runFrom (step History.sampleDeps (.default "main" 500))
        (boot (.default "main" 500) (ensureSchema "main")) sampleActions = some s ∧
      (handedOver History.sampleDeps (.default "main" 500)
        (boot (.default "main" 500) (ensureSchema "main")) sampleActions).Nodup := by
  have hrun : (runFrom (step History.sampleDeps (.default "main" 500))
      (boot (.default "main" 500) (ensureSchema "main")) sampleActions).isSome = true := by
    decide +kernel
  obtain ⟨s, hs⟩ := Option.isSome_iff_exists.1 hrun
  exact ⟨s, hs, (handedOver_nodup_iff _ _ _ _ s hs (by decide +kernel)).2 (by decide +kernel)⟩

/-- A row is published, and acknowledged after the next iteration has looked for acknowledgements and
before it fetches. -/
def lateAcknowledgement : List Action :=
  [.commit (fun _ => History.sampleAmbient) [History.sampleUpsert "a" 1], .start, .skipMark,
    .fetch true, .track 0, .publishReturns true, .send 1, .notify, .countTimeouts 10, .skipMark,
    .start, .skipMark, .puback 1, .notify, .fetch true, .track 20]

theorem lateAcknowledgement_hands_over_twice :
    (runFrom (step History.sampleDeps (.default "main" 500))
      (boot (.default "main" 500) (ensureSchema "main")) lateAcknowledgement).isSome = true ∧
    StepsMeet (step History.sampleDeps (.default "main" 500))
      (fun s a => undisturbed (.default "main" 500) s a = true)
      (boot (.default "main" 500) (ensureSchema "main")) lateAcknowledgement ∧
    handedOver History.sampleDeps (.default "main" 500)
      (boot (.default "main" 500) (ensureSchema "main")) lateAcknowledgement = [1, 1] := by
  refine ⟨?_, ?_, ?_⟩ <;> decide +kernel

end Publisher

end Ixmati
