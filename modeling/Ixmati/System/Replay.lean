import Ixmati.Core.Document
import Ixmati.System.Coherence

/-!
# Replaying the outbox

The events of a store are meant to determine its payloads: whoever starts from nothing and takes the
rows of the outbox in the order of their ids, removing a key on a row that `event_to_cache_command`
turns into a `delete` and setting it to the payload of the event on any other, ends up with the
contents of the payload table.  The cache and all projections rest on that.

What `settle` leaves under a key is decided by the last update of the key, and what the payload table
holds by the last entry of the log on the key (`History.Current`); the outbox lists the log
(`History.Journaled`).
-/

namespace Ixmati

open WriteEngine History

namespace System

variable {D : Deps}

/-- What a row of the outbox does to the map of payloads. -/
def replayRow (D : Deps) (row : OutboxEntry) : Option ((String × String) × Option Json) :=
  (readEvent D row.payload).map fun event =>
    let cmd := eventToCacheCommand event
    ((cmd.entity, cmd.key), if cmd.op = "delete" then none else some cmd.payload)

/-- Replay rows, beginning with the empty map. -/
def replay (D : Deps) (rows : List OutboxEntry) : String × String → Option Json :=
  settle (fun _ => none) (rows.filterMap (replayRow D))

/-- The event in the outbox row of the `i`-th entry of a log. -/
def eventAt (i : ℕ) (it : Iteration) : EventEnvelope :=
  Outbox.persisted (i + 1) (eventOf it.ambient it.cmd)

/-- The payload that an entry leaves, as it is read back. -/
def readPayload (D : Deps) (it : Iteration) : Option Json :=
  if it.cmd.op = "delete" then none else D.fromSlice (D.toVec it.cmd.payload)

theorem replayRow_outboxRow {i : ℕ} {it : Iteration} (h : ReadsBack D (eventAt i it)) :
    replayRow D (outboxRow D i it) = some ((it.cmd.entity, it.cmd.key), readPayload D it) := by
  obtain ⟨value, hvalue, hevent⟩ := h
  have hop : (eventToCacheCommand { eventAt i it with payload := value }).op = "delete" ↔
      it.cmd.op = "delete" := op_eventToCacheCommand it.ambient it.cmd
  have hrow : readEvent D (outboxRow D i it).payload =
      some { eventAt i it with payload := value } := hevent
  have hpay : D.fromSlice (D.toVec it.cmd.payload) = some value := hvalue
  rw [replayRow, hrow, Option.map_some, readPayload, hpay]
  simp only [hop]
  rfl

/-- Replaying the rows of a log shows, under each key, the last entry on it. -/
theorem replay_mapIdx {log : List Iteration}
    (h : ∀ i it, log[i]? = some it → ReadsBack D (eventAt i it)) (entity key : String) :
    replay D (log.mapIdx (outboxRow D)) (entity, key) =
      (lastWhere (onKey entity key) log).bind (readPayload D) := by
  induction log using List.reverseRecOn with
  | nil => rfl
  | append_singleton log it ih =>
    have hlast : ReadsBack D (eventAt log.length it) := h _ _ (by simp)
    have hfront := ih fun i x hx => h i x (by
      rw [List.getElem?_append_left (List.getElem?_eq_some_iff.1 hx).1]
      exact hx)
    unfold replay at hfront ⊢
    rw [List.mapIdx_concat, List.filterMap_append, settle_append, lastOn_append]
    simp only [List.filterMap_cons, List.filterMap_nil, replayRow_outboxRow hlast, settle_cons,
      settle_nil]
    by_cases hk : (entity, key) = (it.cmd.entity, it.cmd.key)
    · rw [if_pos hk, hk, Function.update_self]
      rfl
    · rw [if_neg hk, Function.update_of_ne hk, hfront]

/-- **The outbox determines the payloads.**  After every run of a store, replaying the rows of the
outbox in the order of their ids gives, under each entity and key, exactly what the payload table
holds. -/
theorem replay_eq_payloads (D : Deps) (s : String) (bs : List Batch)
    (hfit : ∀ b ∈ bs, ∀ cmd ∈ b.commands, FitsStore s cmd)
    (hread : ∀ i it, (run D s bs).applied[i]? = some it → ReadsBack D (eventAt i it))
    (entity key : String) :
    (replay D (run D s bs).db.outbox.rows (entity, key)).map some =
      (findPayload (run D s bs).db s entity key).map fun row => D.fromSlice row.payload := by
  have hc : Consistent D s (run D s bs) := consistent_run hfit
  rw [hc.journaled.outbox, replay_mapIdx hread, hc.current.payload]
  unfold lastOn
  cases hlast : lastWhere (onKey entity key) (run D s bs).applied with
  | none => rfl
  | some it =>
    obtain ⟨i, hi⟩ := List.mem_iff_getElem?.1 (mem_of_lastWhere hlast).1
    obtain ⟨value, hvalue, -⟩ := hread i it hi
    have hpay : D.fromSlice (D.toVec it.cmd.payload) = some value := hvalue
    rw [Option.bind_some, Option.bind_some, readPayload, payloadRow]
    by_cases hdel : it.cmd.op = "delete"
    · rw [if_pos hdel, if_pos hdel]
      rfl
    · rw [if_neg hdel, if_neg hdel, hpay]
      simp [payloadRowOf, hpay]

/-- Crates that read the payload of the sample commands back, and their events. -/
def sampleReplayDeps : Deps :=
  .compact
    [(sampleUpsert "a" 1).payload,
      (Outbox.persisted 1 (eventOf sampleAmbient (sampleUpsert "a" 1))).toJson,
      (Outbox.persisted 2 (eventOf sampleAmbient (sampleDelete "b" 2))).toJson,
      (Outbox.persisted 3 (eventOf sampleAmbient (sampleUpsert "c" 3))).toJson]
    "84840d0ded213b09c5fa24a25f31bb67bf860fee34b32199e9efd90ebd7fe999"

theorem readsBack_sampleUpsert : ReadsBack sampleReplayDeps
    (Outbox.persisted 1 (eventOf sampleAmbient (sampleUpsert "a" 1))) := by
  exact ⟨(sampleUpsert "a" 1).payload, rfl, rfl⟩

theorem readsBack_sampleRecreated : ∀ i it,
    (run sampleReplayDeps "main" sampleRecreated).applied[i]? = some it →
      ReadsBack sampleReplayDeps (eventAt i it) := by
  have hnd : ([(sampleUpsert "a" 1).payload,
      (Outbox.persisted 1 (eventOf sampleAmbient (sampleUpsert "a" 1))).toJson,
      (Outbox.persisted 2 (eventOf sampleAmbient (sampleDelete "b" 2))).toJson,
      (Outbox.persisted 3 (eventOf sampleAmbient (sampleUpsert "c" 3))).toJson].map
        fun j => j.compact.toUTF8.data.toList).Nodup := by
    decide +kernel
  have happ : ∃ tx tx', (run sampleReplayDeps "main" sampleRecreated).applied =
      [⟨ensureSchema "main", sampleAmbient, sampleUpsert "a" 1,
          .committed (eventOf sampleAmbient (sampleUpsert "a" 1))⟩,
        ⟨tx, sampleAmbient, sampleDelete "b" 2,
          .committed (eventOf sampleAmbient (sampleDelete "b" 2))⟩,
        ⟨tx', sampleAmbient, sampleUpsert "c" 3,
          .committed (eventOf sampleAmbient (sampleUpsert "c" 3))⟩] := ⟨_, _, rfl⟩
  obtain ⟨tx, tx', happ⟩ := happ
  intro i it hit
  rw [happ] at hit
  obtain ⟨hi, rfl⟩ := List.getElem?_eq_some_iff.1 hit
  match i, hi with
  | 0, _ => exact readsBack_sampleUpsert
  | 1, _ => exact readsBack_compact hnd (.tail _ (.tail _ (.head _))) (.head _)
  | 2, _ => exact readsBack_compact hnd (.tail _ (.tail _ (.tail _ (.head _)))) (.head _)

theorem replay_eq_payloads_of_a_recreated_key :
    (∀ b ∈ sampleRecreated, ∀ cmd ∈ b.commands, FitsStore "main" cmd) ∧
    (run sampleReplayDeps "main" sampleRecreated).db.outbox.rows.length = 3 ∧
    (replay sampleReplayDeps (run sampleReplayDeps "main" sampleRecreated).db.outbox.rows
      ("user", "1")).map some = some (some (.object [("name", .string "Ana")])) := by
  have hfit : ∀ b ∈ sampleRecreated, ∀ cmd ∈ b.commands, FitsStore "main" cmd := by decide
  refine ⟨hfit, rfl, ?_⟩
  rw [replay_eq_payloads sampleReplayDeps "main" sampleRecreated hfit readsBack_sampleRecreated "user" "1"]
  rfl

end System

end Ixmati
