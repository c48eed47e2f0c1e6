import Ixmati.Projector.Loop
import Ixmati.System.Replay

/-!
# The events of a store

The projector is fed with the events of the source stores, each store's in the order of its outbox.
The reconciler looks at the payload tables instead.  `Shown` says what the two have to do with each
other: a row of the payload table is there unless the last event on it is a deletion, and its document
is the payload of that event.
-/

namespace Ixmati

open WriteEngine History Ixmati.System

namespace Projector

variable {D : Deps} {s : String} {bs : List Batch}

/-- The events of a store in the order of its outbox, as they are read. -/
def feed (D : Deps) (h : History) : List EventEnvelope :=
  h.db.outbox.rows.filterMap fun o => readEvent D o.payload

/-- The event is about the row. -/
def onRow (entity key : String) (event : EventEnvelope) : Bool :=
  decide (event.entity = entity ∧ event.key = key)

/-- The document that an event leaves in its row. -/
def left (event : EventEnvelope) : Option Json :=
  if isDeleted event then none else some event.payload

/-- The payload table of a store shows the last event on each row. -/
structure Shown (D : Deps) (s : String) (db : Database) (events : List EventEnvelope) : Prop where
  ofStore : ∀ event ∈ events, event.store = s
  rows : ∀ entity key, (findPayload db s entity key).map (fun row => D.fromSlice row.payload) =
    ((lastWhere (onRow entity key) events).bind left).map some

/-! ### The events of the log -/

/-- The event of the `i`-th entry of a log, as it is read. -/
def eventRead (D : Deps) (i : ℕ) (it : Iteration) : EventEnvelope :=
  { eventAt i it with payload := (D.fromSlice (D.toVec it.cmd.payload)).getD .null }

theorem readEvent_outboxRow {i : ℕ} {it : Iteration} (h : ReadsBack D (eventAt i it)) :
    readEvent D (outboxRow D i it).payload = some (eventRead D i it) := by
  obtain ⟨value, hvalue, hevent⟩ := h
  have hpay : D.fromSlice (D.toVec it.cmd.payload) = some value := hvalue
  rw [eventRead, hpay]
  exact hevent

theorem filterMap_outboxRow {log : List Iteration}
    (hread : ∀ i it, log[i]? = some it → ReadsBack D (eventAt i it)) :
    (log.mapIdx (outboxRow D)).filterMap (fun o => readEvent D o.payload) =
      log.mapIdx (eventRead D) := by
  induction log using List.reverseRecOn with
  | nil => rfl
  | append_singleton log it ih =>
    have hlast : ReadsBack D (eventAt log.length it) := hread _ _ (by simp)
    have hfront := ih fun i x hx => hread i x (by
      rw [List.getElem?_append_left (List.getElem?_eq_some_iff.1 hx).1]
      exact hx)
    rw [List.mapIdx_concat, List.mapIdx_concat, List.filterMap_append, hfront]
    simp [readEvent_outboxRow hlast]

theorem isDeleted_eventRead (D : Deps) (i : ℕ) (it : Iteration) :
    isDeleted (eventRead D i it) = decide (it.cmd.op = "delete") := by
  have hdel : ¬ ".deleted".toList <:+ (eventOf it.ambient it.cmd).eventType.toList := by
    intro h
    have hends := ends_eventType h
    unfold eventSuffix at hends
    split_ifs at hends
    all_goals revert hends; decide
  have htype : (eventRead D i it).eventType = (eventOf it.ambient it.cmd).eventType := rfl
  rw [Bool.eq_iff_iff, isDeleted, Bool.or_eq_true, List.isSuffixOf_iff_suffix,
    List.isSuffixOf_iff_suffix, htype, or_iff_right hdel, eliminado_suffix_iff, decide_eq_true_iff]

theorem onRow_eventRead (D : Deps) (entity key : String) (i : ℕ) (it : Iteration) :
    onRow entity key (eventRead D i it) = onKey entity key it := rfl

/-- The document that the event of an entry leaves. -/
theorem left_eventRead (D : Deps) (i : ℕ) (it : Iteration) :
    left (eventRead D i it) =
      if it.cmd.op = "delete" then none
      else some ((D.fromSlice (D.toVec it.cmd.payload)).getD .null) := by
  simp only [left, isDeleted_eventRead, decide_eq_true_eq]
  rfl

/-! ### A store and its events -/

/-- The log is of the store, and the payload table shows the last entry on each row. -/
structure Kept (D : Deps) (s : String) (h : History) : Prop where
  ofStore : ∀ it ∈ h.applied, it.cmd.store = s
  exists_table : (h.db.payload (tableName s)).isSome
  rows : ∀ entity key,
    payloads h.db s (entity, key) = (h.lastOn entity key).bind fun it => leaves D it.cmd

theorem Kept.extend {h : History} (hk : Kept D s h) {a : Ambient} {cmd : WriteEnvelope}
    {db : Database} {o : Outcome} (hcmd : cmd.store = s)
    (hok : processCommand D a h.db cmd = .ok (db, o)) : Kept D s (h.extend a cmd db o) := by
  rcases extend_cases hok with ⟨rfl, hlog⟩ | ⟨happ, hlog⟩
  · refine ⟨by rw [hlog]; exact hk.ofStore, hk.exists_table, fun entity key => ?_⟩
    unfold lastOn
    rw [hlog]
    exact hk.rows entity key
  · subst hcmd
    refine ⟨fun it hit => ?_, ?_, fun entity key => ?_⟩
    · rw [hlog] at hit
      rcases List.mem_append.1 hit with hit | hit
      · exact hk.ofStore it hit
      · rw [List.mem_singleton.1 hit]
    · obtain ⟨t, -, hpay⟩ := happ.payload
      show (db.payload _).isSome
      simp [hpay]
    · show payloads db cmd.store _ = _
      unfold lastOn
      rw [payloads_applies happ, hlog, lastOn_append]
      by_cases heq : (entity, key) = (cmd.entity, cmd.key)
      · rw [if_pos heq, heq, Function.update_self]
        rfl
      · rw [if_neg heq, Function.update_of_ne heq]
        exact hk.rows entity key

theorem kept_run (hstore : ∀ b ∈ bs, ∀ cmd ∈ b.commands, cmd.store = s) :
    Kept D s (run D s bs) := by
  refine run_invariant hstore ⟨?_, ?_, ?_⟩ fun h a cmd db o hk hcmd hok => hk.extend hcmd hok
  · simp [applied]
  · simp [ensureSchema]
  · intro entity key
    simp [payloads, findPayload, ensureSchema, lastOn, applied]

theorem feed_run
    (hread : ∀ i it, (run D s bs).applied[i]? = some it → ReadsBack D (eventAt i it)) :
    feed D (run D s bs) = (run D s bs).applied.mapIdx (eventRead D) := by
  rw [feed, (journaled_run D s bs).outbox]
  exact filterMap_outboxRow hread

/-- **What the events of a store show**: in every run, the payload table holds the payload of the last
event on each row, unless that event is a deletion. -/
theorem shown_run (hstore : ∀ b ∈ bs, ∀ cmd ∈ b.commands, cmd.store = s)
    (hread : ∀ i it, (run D s bs).applied[i]? = some it → ReadsBack D (eventAt i it)) :
    Shown D s (run D s bs).db (feed D (run D s bs)) := by
  have hk : Kept D s (run D s bs) := kept_run hstore
  refine ⟨fun event hev => ?_, fun entity key => ?_⟩
  · rw [feed_run hread, List.mem_mapIdx] at hev
    obtain ⟨i, hi, rfl⟩ := hev
    exact hk.ofStore _ (List.getElem_mem hi)
  · rw [feed_run hread, lastWhere_mapIdx (onRow_eventRead D entity key) (left_eventRead D)]
    have hrow := congrArg (Option.map D.fromSlice) (hk.rows entity key)
    rw [payloads, Option.map_map] at hrow
    refine hrow.trans ?_
    unfold lastOn
    cases hlast : lastWhere (onKey entity key) (run D s bs).applied with
    | none => rfl
    | some it =>
      obtain ⟨i, hi⟩ := List.mem_iff_getElem?.1 (mem_of_lastWhere hlast).1
      obtain ⟨value, hvalue, -⟩ := hread i it hi
      have hpay : D.fromSlice (D.toVec it.cmd.payload) = some value := hvalue
      rw [Option.bind_some, Option.bind_some, leaves]
      split_ifs
      · rfl
      · simp [hpay]

/-- What is read of the row of a table. -/
theorem Shown.lookup {db : Database} {events : List EventEnvelope} (h : Shown D s db events)
    (entity key : String) :
    (payloads db s (entity, key)).bind D.fromSlice =
      (lastWhere (onRow entity key) events).bind left := by
  have hrow := h.rows entity key
  unfold payloads
  cases hfind : findPayload db s entity key with
  | none =>
    rw [hfind] at hrow
    exact (Option.map_eq_none_iff.1 hrow.symm).symm
  | some row =>
    rw [hfind] at hrow
    obtain ⟨value, hvalue, hread⟩ := Option.map_eq_some_iff.1 hrow.symm
    rw [hvalue]
    exact hread.symm

/-! ### A store that goes on -/

theorem applied_commit (h : History) (b : Batch) : h.applied <+: (commit D h b).applied := by
  unfold commit
  split
  · rename_i db result hok
    obtain ⟨new, hnew, -⟩ := processBatch_applied hok
    exact ⟨new, hnew.symm⟩
  · exact List.prefix_rfl

theorem outbox_commit (h : History) (b : Batch) :
    h.db.outbox.rows <+: (commit D h b).db.outbox.rows := by
  unfold commit
  split
  · rename_i db result hok
    obtain ⟨new, hnew, -⟩ := processBatch_outbox hok
    exact ⟨new, hnew.symm⟩
  · exact List.prefix_rfl

theorem run_concat (bs : List Batch) (b : Batch) : run D s (bs ++ [b]) = commit D (run D s bs) b := by
  simp [run]

theorem applied_mono {bs' : List Batch} (h : bs <+: bs') :
    (run D s bs).applied <+: (run D s bs').applied := by
  obtain ⟨more, rfl⟩ := h
  induction more using List.reverseRecOn with
  | nil => simp
  | append_singleton more b ih =>
    rw [← List.append_assoc, run_concat]
    exact ih.trans (applied_commit _ b)

/-- The feed only grows. -/
theorem feed_mono {bs' : List Batch} (h : bs <+: bs') :
    feed D (run D s bs) <+: feed D (run D s bs') := by
  obtain ⟨more, rfl⟩ := h
  induction more using List.reverseRecOn with
  | nil => simp
  | append_singleton more b ih =>
    rw [← List.append_assoc, run_concat]
    exact ih.trans ((outbox_commit _ b).filterMap _)

/-! ### Rows and the events that they show -/

/-- The last event on a row of a store. -/
def newest (evs : List EventEnvelope) (row : String × String × String) : Option EventEnvelope :=
  lastWhere (fun event => decide (versionKey event = row)) evs

/-- The rows of the payload table of a store, in any order. -/
def Scans (db : Database) (s : String) (rows : List PayloadRow) : Prop :=
  ∃ t, db.payload (tableName s) = some t ∧ rows.Perm t.rows

variable {evs : List EventEnvelope} {db : Database} {rows : List PayloadRow}

theorem newest_eq (evs : List EventEnvelope) (s entity key : String) :
    newest evs (s, entity, key) =
      lastWhere (onRow entity key) (evs.filter fun event => decide (event.store = s)) := by
  rw [newest, lastWhere_filter]
  refine lastWhere_congr fun event _ => ?_
  rw [Bool.eq_iff_iff]
  simp only [versionKey, Prod.mk.injEq, onRow, Bool.and_eq_true, decide_eq_true_eq]
  tauto

theorem mem_of_newest {row : String × String × String} {event : EventEnvelope}
    (h : newest evs row = some event) : event ∈ evs ∧ versionKey event = row := by
  simpa using mem_of_lastWhere h

theorem Scans.find {row : PayloadRow} (h : Scans db s rows) (hrow : row ∈ rows) :
    findPayload db s row.entity row.key = some row := by
  obtain ⟨t, ht, hperm⟩ := h
  rw [findPayload, ht, Option.bind_some]
  exact t.find?_eq_some.2 ⟨hperm.mem_iff.1 hrow, rfl⟩

theorem Scans.mem {row : PayloadRow} {entity key : String} (h : Scans db s rows)
    (hfind : findPayload db s entity key = some row) :
    row ∈ rows ∧ row.entity = entity ∧ row.key = key := by
  obtain ⟨t, ht, hperm⟩ := h
  rw [findPayload, ht, Option.bind_some] at hfind
  obtain ⟨hrow, hpk⟩ := t.find?_eq_some.1 hfind
  obtain ⟨he, hk⟩ := Prod.mk.inj hpk
  exact ⟨hperm.mem_iff.2 hrow, he, hk⟩

/-- The row holds the payload of the event. -/
structure Holds (D : Deps) (row : PayloadRow) (event : EventEnvelope) : Prop where
  entity : event.entity = row.entity
  key : event.key = row.key
  kept : isDeleted event = false
  payload : D.fromSlice row.payload = some event.payload

theorem Shown.exists_event (hsh : Shown D s db (evs.filter fun event => decide (event.store = s)))
    (hsc : Scans db s rows) {row : PayloadRow} (hrow : row ∈ rows) :
    ∃ event, newest evs (s, row.entity, row.key) = some event ∧ Holds D row event := by
  have hrows := hsh.rows row.entity row.key
  rw [hsc.find hrow, ← newest_eq, Option.map_some] at hrows
  obtain ⟨value, hvalue, hread⟩ := Option.map_eq_some_iff.1 hrows.symm
  obtain ⟨event, hev, hleft⟩ := Option.bind_eq_some_iff.1 hvalue
  obtain ⟨-, hkey⟩ := mem_of_newest hev
  simp only [versionKey, Prod.mk.injEq] at hkey
  unfold left at hleft
  split_ifs at hleft with hdel
  simp only [Option.some.injEq] at hleft
  exact ⟨event, hev, hkey.2.1, hkey.2.2, by simpa using hdel, by rw [← hread, hleft]⟩

theorem Shown.exists_row (hsh : Shown D s db (evs.filter fun event => decide (event.store = s)))
    (hsc : Scans db s rows) {entity key : String} {event : EventEnvelope}
    (hev : newest evs (s, entity, key) = some event) (hdel : isDeleted event = false) :
    ∃ row ∈ rows, Holds D row event := by
  have hrows := hsh.rows entity key
  rw [← newest_eq, hev, Option.bind_some, left, hdel] at hrows
  obtain ⟨row, hfind, hread⟩ := Option.map_eq_some_iff.1 hrows
  obtain ⟨hrow, he, hk⟩ := hsc.mem hfind
  obtain ⟨-, hkey⟩ := mem_of_newest hev
  simp only [versionKey, Prod.mk.injEq] at hkey
  exact ⟨row, hrow, hkey.2.1.trans he.symm, hkey.2.2.trans hk.symm, hdel, hread⟩

/-! ### Runs to evaluate -/

/-- An upsert and a delete of a user. -/
def sampleUpsertAndDelete : List Batch :=
  [⟨fun _ => sampleAmbient, [sampleUpsert "a" 1, sampleDelete "b" 2]⟩]

/-- An upsert of the same key in the store `users`. -/
def sampleAccount : WriteEnvelope := { sampleUpsert "c" 1 with store := "users" }

/-- The batch of the store `users`. -/
def sampleAccountBatches : List Batch := [⟨fun _ => sampleAmbient, [sampleAccount]⟩]

/-- The documents of the events and of the lists of targets. -/
def sampleDocuments : List Json :=
  [(sampleUpsert "a" 1).payload,
    (Outbox.persisted 1 (eventOf sampleAmbient (sampleUpsert "a" 1))).toJson,
    (Outbox.persisted 2 (eventOf sampleAmbient (sampleDelete "b" 2))).toJson,
    (Outbox.persisted 1 (eventOf sampleAmbient sampleAccount)).toJson,
    .array [], .array [.string "1"]]

/-- Crates that read these documents back. -/
def sampleFeedDeps : Deps :=
  (Deps.compact sampleDocuments
    "84840d0ded213b09c5fa24a25f31bb67bf860fee34b32199e9efd90ebd7fe999").bounded

theorem nodup_sampleDocuments :
    (sampleDocuments.map fun j => j.compact.toUTF8.data.toList).Nodup := by
  decide +kernel

theorem short_sampleDocuments :
    ∀ j ∈ sampleDocuments, j.compact.toUTF8.data.toList.length < 2 ^ 63 := by
  decide +kernel

theorem fromSlice_sample {j : Json} (h : j ∈ sampleDocuments) :
    sampleFeedDeps.fromSlice (sampleFeedDeps.toVec j) = some j := by
  rw [sampleFeedDeps, Deps.toVec_bounded (short_sampleDocuments j h)]
  exact fromSlice_compact nodup_sampleDocuments h

theorem readsBack_sample {e : EventEnvelope} (he : e.toJson ∈ sampleDocuments)
    (hp : e.payload ∈ sampleDocuments) : ReadsBack sampleFeedDeps e :=
  (readsBack_compact nodup_sampleDocuments he hp).bounded (short_sampleDocuments _ hp)
    (short_sampleDocuments _ he)

/-- The rows of the payload table of a store. -/
def sampleRows (bs : List Batch) (s : String) : List PayloadRow :=
  (((run sampleFeedDeps s bs).db.payload (tableName s)).map (·.rows)).getD []

theorem applied_sampleBatches :
    (run sampleFeedDeps "main" sampleBatches).applied =
      [⟨ensureSchema "main", sampleAmbient, sampleUpsert "a" 1,
        .committed (eventOf sampleAmbient (sampleUpsert "a" 1))⟩] := rfl

theorem readsBack_sampleBatches : ∀ i it,
    (run sampleFeedDeps "main" sampleBatches).applied[i]? = some it →
      ReadsBack sampleFeedDeps (eventAt i it) := by
  intro i it hit
  rw [applied_sampleBatches] at hit
  obtain ⟨hi, rfl⟩ := List.getElem?_eq_some_iff.1 hit
  obtain rfl : i = 0 := by simpa using hi
  exact readsBack_sample (.tail _ (.head _)) (.head _)

/-- The event of the upsert, as it is read. -/
def sampleUserEvent : EventEnvelope :=
  Outbox.persisted 1 (eventOf sampleAmbient (sampleUpsert "a" 1))

theorem feed_sampleBatches :
    feed sampleFeedDeps (run sampleFeedDeps "main" sampleBatches) = [sampleUserEvent] := by
  rw [feed_run readsBack_sampleBatches, applied_sampleBatches]
  rfl

theorem applied_sampleUpsertAndDelete :
    ∃ tx, (run sampleFeedDeps "main" sampleUpsertAndDelete).applied =
      [⟨ensureSchema "main", sampleAmbient, sampleUpsert "a" 1,
          .committed (eventOf sampleAmbient (sampleUpsert "a" 1))⟩,
        ⟨tx, sampleAmbient, sampleDelete "b" 2,
          .committed (eventOf sampleAmbient (sampleDelete "b" 2))⟩] := ⟨_, rfl⟩

theorem readsBack_sampleUpsertAndDelete : ∀ i it,
    (run sampleFeedDeps "main" sampleUpsertAndDelete).applied[i]? = some it →
      ReadsBack sampleFeedDeps (eventAt i it) := by
  obtain ⟨tx, happ⟩ := applied_sampleUpsertAndDelete
  intro i it hit
  rw [happ] at hit
  obtain ⟨hi, rfl⟩ := List.getElem?_eq_some_iff.1 hit
  match i, hi with
  | 0, _ => exact readsBack_sample (.tail _ (.head _)) (.head _)
  | 1, _ => exact readsBack_sample (.tail _ (.tail _ (.head _))) (.head _)

/-- The event of the delete, as it is read. -/
def sampleDeleteEvent : EventEnvelope :=
  Outbox.persisted 2 (eventOf sampleAmbient (sampleDelete "b" 2))

theorem feed_sampleUpsertAndDelete :
    feed sampleFeedDeps (run sampleFeedDeps "main" sampleUpsertAndDelete) =
      [sampleUserEvent, sampleDeleteEvent] := by
  obtain ⟨tx, happ⟩ := applied_sampleUpsertAndDelete
  rw [feed_run readsBack_sampleUpsertAndDelete, happ]
  rfl

theorem applied_sampleAccountBatches :
    (run sampleFeedDeps "users" sampleAccountBatches).applied =
      [⟨ensureSchema "users", sampleAmbient, sampleAccount,
        .committed (eventOf sampleAmbient sampleAccount)⟩] := rfl

theorem readsBack_sampleAccountBatches : ∀ i it,
    (run sampleFeedDeps "users" sampleAccountBatches).applied[i]? = some it →
      ReadsBack sampleFeedDeps (eventAt i it) := by
  intro i it hit
  rw [applied_sampleAccountBatches] at hit
  obtain ⟨hi, rfl⟩ := List.getElem?_eq_some_iff.1 hit
  obtain rfl : i = 0 := by simpa using hi
  exact readsBack_sample (.tail _ (.tail _ (.tail _ (.head _)))) (.head _)

/-- The event of the store `users`, as it is read. -/
def sampleAccountEvent : EventEnvelope :=
  Outbox.persisted 1 (eventOf sampleAmbient sampleAccount)

theorem feed_sampleAccountBatches :
    feed sampleFeedDeps (run sampleFeedDeps "users" sampleAccountBatches) = [sampleAccountEvent] := by
  rw [feed_run readsBack_sampleAccountBatches, applied_sampleAccountBatches]
  rfl

end Projector

end Ixmati
