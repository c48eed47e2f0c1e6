import Ixmati.Migrate.Destinations
import Ixmati.Writer.Consistency

/-!
# Stale writes after a migration

The writer rejects a command whose version is not above the versions recorded in `_idempotency` for its
key.  A migration chooses the state of a key and the rows of `_idempotency` separately, by different
rules, so it has to be shown that they still fit.

`Guards` is what fits means: every command has a state of its key that is at least as new, and every
state has a command of its key and version.  A store that the writer has written to has it, a union of
such stores has it, the collection keeps it (of the states it keeps the newest, and of the commands one
for each idempotency key, with the same key and version), and so does the routing by the key.  In a
destination each key has one state, so its version is the greatest recorded
(`migration_keeps_protection`).
-/

namespace Ixmati

namespace Migrate

open WriteEngine

/-! ### Stores that the writer has written to -/

/-- A store after some calls of `process_batch`, with all events published. -/
structure Written where
  name : String
  batches : List Batch
  /-- The column `published_at`, by the id of the event. -/
  publishedAt : ℕ → String

/-- Its database. -/
def Written.db (D : Deps) (w : Written) : Database :=
  { (History.run D w.name w.batches).db with
    outbox := (History.run D w.name w.batches).db.outbox.update
      (fun r => { r with publishedAt := some (w.publishedAt r.id) }) fun _ => rfl }

/-- The store as a source of a migration. -/
def Written.source (D : Deps) (w : Written) : Source := toSource w.name (w.db D)

/-- All commands are for the store itself, with versions below `2 ^ 63`. -/
def Written.Fits (w : Written) : Prop :=
  ∀ b ∈ w.batches, ∀ cmd ∈ b.commands, History.FitsStore w.name cmd

instance (w : Written) : Decidable w.Fits := inferInstanceAs (Decidable (∀ b ∈ w.batches, _))

/-- Written stores pass the preflight. -/
theorem run_written (hash : String → UInt64) (operation : Operation) (destinations : List String)
    (D : Deps) (ws : List Written) :
    run hash operation destinations (ws.map (Written.source D)) =
      transform hash operation destinations (ws.map (Written.source D)) := by
  refine run_eq hash operation destinations fun s hs => preflightSource_ok.2 fun c hc => ?_
  obtain ⟨w, -, rfl⟩ := List.mem_map.1 hs
  obtain ⟨r, hr, rfl⟩ := List.mem_map.1 hc
  obtain ⟨r', -, rfl⟩ := List.mem_map.1 hr
  simp [outboxCells]

/-! ### States as new as the commands -/

/-- The newest states are as new as the newest commands. -/
structure Guards (states : List StateRow) (commands : List IdempotencyRow) : Prop where
  state : ∀ c ∈ commands, ∃ s ∈ states, s.pk = (c.entity, c.key) ∧ c.version ≤ s.version
  command : ∀ s ∈ states, ∃ c ∈ commands, (c.entity, c.key) = s.pk ∧ c.version = s.version

theorem mem_payloadRows {db : Database} {name : String} {p : PayloadRow} :
    p ∈ payloadRows db name ↔ History.findPayload db name p.entity p.key = some p := by
  unfold payloadRows History.findPayload
  cases db.payload (tableName name) with
  | none => simp
  | some t =>
    rw [Option.map_some, Option.getD_some, Option.bind_some, t.find?_eq_some]
    exact (and_iff_left rfl).symm

section Writer

variable {D : Deps} {s : String} {h : History}

/-- The states of a database. -/
def statesOf (s : String) (db : Database) : List StateRow :=
  (payloadRows db s).map (stateOfPayload s) ++ db.tombstones.rows.map (stateOfTombstone s)

/-- The last command on a key leaves its state. -/
theorem exists_state_of_lastOn (hc : History.Consistent D s h) {entity key : String} {it : Iteration}
    (hlast : h.lastOn entity key = some it) :
    ∃ x ∈ statesOf s h.db, x.pk = (entity, key) ∧ x.version = it.cmd.version := by
  obtain ⟨-, hon⟩ := mem_of_lastWhere hlast
  simp only [History.onKey, decide_eq_true_eq] at hon
  obtain ⟨rfl, rfl⟩ := hon
  by_cases hop : it.cmd.op = "delete"
  · have htomb : h.db.tombstones.find? (it.cmd.entity, it.cmd.key) =
        some (Tombstones.rowOf it.ambient.deletedAt it.cmd.entity it.cmd.key it.cmd.version
          it.ambient.eventId) := by
      rw [hc.current.tombstones, hlast, Option.bind_some, History.tombstone, if_pos hop]
    have hmem := (h.db.tombstones.find?_eq_some.1 htomb).1
    exact ⟨_, List.mem_append_right _ (List.mem_map_of_mem hmem), rfl, rfl⟩
  · have hrow : payloadRowOf D it.ambient it.cmd ∈ payloadRows h.db s := by
      refine mem_payloadRows.2 ?_
      show History.findPayload h.db s it.cmd.entity it.cmd.key = _
      rw [hc.current.payload, hlast, Option.bind_some, History.payloadRow, if_neg hop]
    exact ⟨_, List.mem_append_left _ (List.mem_map_of_mem hrow), rfl, rfl⟩

/-- Every state was left by the last command on its key. -/
theorem exists_lastOn_of_state (hc : History.Consistent D s h) {x : StateRow}
    (hx : x ∈ statesOf s h.db) :
    ∃ it, h.lastOn x.entity x.key = some it ∧ x.version = it.cmd.version := by
  rcases List.mem_append.1 hx with hx | hx
  · obtain ⟨p, hp, rfl⟩ := List.mem_map.1 hx
    rw [mem_payloadRows, hc.current.payload, Option.bind_eq_some_iff] at hp
    obtain ⟨it, hlast, hrow⟩ := hp
    refine ⟨it, hlast, ?_⟩
    unfold History.payloadRow at hrow
    split_ifs at hrow
    rw [← Option.some.inj hrow]
    rfl
  · obtain ⟨t, ht, rfl⟩ := List.mem_map.1 hx
    have hfind := h.db.tombstones.find?_eq_some.2 ⟨ht, rfl⟩
    rw [TombstoneRow.pk, hc.current.tombstones, Option.bind_eq_some_iff] at hfind
    obtain ⟨it, hlast, hrow⟩ := hfind
    refine ⟨it, hlast, ?_⟩
    unfold History.tombstone at hrow
    split_ifs at hrow
    rw [← Option.some.inj hrow]
    rfl

/-- In a store that the writer has written to, the state of a key is that of its last command. -/
theorem guards_of_consistent (hc : History.Consistent D s h) :
    Guards (statesOf s h.db) (h.db.idempotency.rows.map (commandOfRow s)) := by
  constructor
  · intro c hcmd
    obtain ⟨r, hr, rfl⟩ := List.mem_map.1 hcmd
    obtain ⟨x, hx, rfl⟩ := hc.journaled.mem_idempotency.1 hr
    have hkey : History.onKey x.cmd.entity x.cmd.key x = true := by simp [History.onKey]
    cases hlast : h.lastOn x.cmd.entity x.cmd.key with
    | none => exact absurd hkey (lastWhere_eq_none.1 hlast x hx)
    | some it =>
      obtain ⟨hit, -⟩ := mem_of_lastWhere hlast
      have hle : x.cmd.version ≤ it.cmd.version := by
        rcases hc.lastOn_max hlast _ hr ((hc.names_iff hx).2 hkey) with heq | hlt
        · rw [hc.journaled.idempotencyRow_inj hx hit heq]
          exact UInt64.le_refl _
        · exact (toInt64_le_iff_of_lt (hc.fits x hx).2 (hc.fits it hit).2).1 (Int64.le_of_lt hlt)
      obtain ⟨y, hy, hpk, hversion⟩ := exists_state_of_lastOn hc hlast
      exact ⟨y, hy, hpk, hversion ▸ hle⟩
  · intro x hx
    obtain ⟨it, hlast, hversion⟩ := exists_lastOn_of_state hc hx
    obtain ⟨hit, hon⟩ := mem_of_lastWhere hlast
    simp only [History.onKey, decide_eq_true_eq] at hon
    refine ⟨_, List.mem_map_of_mem (hc.journaled.mem_idempotency.2 ⟨it, hit, rfl⟩), ?_, hversion.symm⟩
    exact Prod.ext hon.1 hon.2

end Writer

theorem guards_written (D : Deps) {w : Written} (hfits : w.Fits) :
    Guards (statesOf w.name (w.db D)) (w.source D).idempotencyRows :=
  guards_of_consistent (History.consistent_run hfits)

/-! ### The way of the guards -/

section Guards

variable {states : List StateRow} {commands : List IdempotencyRow}

theorem Guards.flatMap {α : Type} {l : List α} {f : α → List StateRow} {g : α → List IdempotencyRow}
    (h : ∀ a ∈ l, Guards (f a) (g a)) : Guards (l.flatMap f) (l.flatMap g) := by
  constructor
  · intro c hc
    obtain ⟨a, ha, hc⟩ := List.mem_flatMap.1 hc
    obtain ⟨s, hs, hrest⟩ := (h a ha).state c hc
    exact ⟨s, List.mem_flatMap.2 ⟨a, ha, hs⟩, hrest⟩
  · intro s hs
    obtain ⟨a, ha, hs⟩ := List.mem_flatMap.1 hs
    obtain ⟨c, hc, hrest⟩ := (h a ha).command s hs
    exact ⟨c, List.mem_flatMap.2 ⟨a, ha, hc⟩, hrest⟩

/-- The newest state of a key is kept. -/
theorem exists_keptState {s : StateRow} (hs : s ∈ states) :
    ∃ x ∈ keptStates states, x.pk = s.pk ∧ s.version ≤ x.version := by
  have hmem : s ∈ states.filter fun r => decide (r.pk = s.pk) :=
    List.mem_filter.2 ⟨hs, decide_eq_true rfl⟩
  cases hbest : best newer (states.filter fun r => decide (r.pk = s.pk)) with
  | none =>
    cases hfilter : states.filter fun r => decide (r.pk = s.pk) with
    | nil =>
      rw [hfilter] at hmem
      cases hmem
    | cons r rows =>
      rw [hfilter] at hbest
      cases hbest
  | some x =>
    obtain ⟨hx, hmax⟩ := best_spec (f := fun s : StateRow => s.version.toNat)
      (fun a b hab => UInt64.le_iff_toNat_le.1 (version_le_of_newer hab))
      (fun a b hab => UInt64.le_iff_toNat_le.1 (version_le_of_not_newer hab)) hbest
    have hpk : x.pk = s.pk := of_decide_eq_true (List.mem_filter.1 hx).2
    refine ⟨x, mem_keptStates.2 ?_, hpk, UInt64.le_iff_toNat_le.2 (hmax s hmem)⟩
    rw [hpk]
    exact hbest

/-- The collection keeps the newest states, and a command for each that it drops. -/
theorem Guards.kept (h : Guards states commands) {kept : List IdempotencyRow}
    (hfirst : FirstOfEach IdempotencyRow.idempotencyKey sameIdempotency commands kept) :
    Guards (keptStates states) kept := by
  constructor
  · intro c hc
    obtain ⟨s, hs, hpk, hle⟩ := h.state c (hfirst.mem_rows hc)
    obtain ⟨x, hx, hxpk, hxle⟩ := exists_keptState hs
    exact ⟨x, hx, hxpk.trans hpk, UInt64.le_trans hle hxle⟩
  · intro s hs
    obtain ⟨c, hc, hpk, hversion⟩ := h.command s (mem_of_mem_keptStates hs)
    obtain ⟨c', hc', -, rfl | hsame⟩ := hfirst.agrees c hc
    · exact ⟨c', hc', hpk, hversion⟩
    · obtain ⟨hentity, hkey, hv, -⟩ := of_decide_eq_true hsame
      refine ⟨c', hc', ?_, hv.trans hversion⟩
      rw [hentity, hkey, hpk]

/-- States and commands of one key are routed alike. -/
theorem Guards.filter (h : Guards states commands) (p : String → Bool) :
    Guards (states.filter fun s => p s.key) (commands.filter fun c => p c.key) := by
  constructor
  · intro c hc
    obtain ⟨hmem, hp⟩ := List.mem_filter.1 hc
    obtain ⟨s, hs, hpk, hle⟩ := h.state c hmem
    have hkey : s.key = c.key := (Prod.mk.inj hpk).2
    exact ⟨s, List.mem_filter.2 ⟨hs, hkey ▸ hp⟩, hpk, hle⟩
  · intro s hs
    obtain ⟨hmem, hp⟩ := List.mem_filter.1 hs
    obtain ⟨c, hc, hpk, hversion⟩ := h.command s hmem
    have hkey : c.key = s.key := (Prod.mk.inj hpk).2
    exact ⟨c, List.mem_filter.2 ⟨hc, hkey ▸ hp⟩, hpk, hversion⟩

end Guards

/-! ### What the writer finds -/

/-- There is one of payload row and tombstone, of the version. -/
def OneState (db : Database) (name entity key : String) (version : UInt64) : Prop :=
  (∃ p, History.findPayload db name entity key = some p ∧ p.version = version.toInt64 ∧
    db.tombstones.find? (entity, key) = none) ∨
  (History.findPayload db name entity key = none ∧
    ∃ t, db.tombstones.find? (entity, key) = some t ∧ t.version = version.toInt64)

/-- The version is the greatest that is recorded for the key. -/
def IsRecordedMax (db : Database) (entity key : String) (version : UInt64) : Prop :=
  (∃ r ∈ db.idempotency.rows, r.entity = entity ∧ r.key = key ∧ r.version = version.toInt64) ∧
  ∀ r ∈ db.idempotency.rows, r.entity = entity → r.key = key → r.version ≤ version.toInt64

/-- The writer of the store `name` rejects the commands on the key up to the version, and applies
those above it with a new idempotency key.  They get past its guards under any name; for the
statements behind these it matters that `payload_<name>`, which the writer does not put in quotes, is
one word (a writer of another name, such as one with a minus, stops at `ensure_schema`). -/
structure Rejects (db : Database) (name entity key : String) (version : UInt64) : Prop where
  stale : ∀ (D : Deps) (a : Ambient) (cmd : WriteEnvelope), cmd.store = name → cmd.entity = entity →
    cmd.key = key → cmd.version ≤ version →
      processCommand D a db cmd = .ok (db, .duplicate) ∨
        processCommand D a db cmd = .ok (db, .versionConflict)
  fresh : ∀ (D : Deps) (a : Ambient) (cmd : WriteEnvelope), cmd.store = name → cmd.entity = entity →
    cmd.key = key → version < cmd.version → KnownOp cmd.op →
      IdempotencyTracker.check db.idempotency cmd = .new →
        GetsThrough db cmd ∧ ((∀ c ∈ name.toList, Sql.isIdChar c = true) →
          db.outbox.seq < maxRowid →
            ∃ db', processCommand D a db cmd = .ok (db', .committed (eventOf a cmd)) ∧
              Applies D a db cmd db')

section Destination

variable {name : String} {states : List StateRow} {commands : List IdempotencyRow}
  {events : List OutboxRow} {db : Database}

theorem mem_tombstones_of_holds (h : Holds name states commands events db) {t : TombstoneRow}
    (ht : t ∈ db.tombstones.rows) : ∃ x ∈ states, x.payload = none ∧ x.pk = t.pk := by
  obtain ⟨x, hx, hxt⟩ := List.mem_filterMap.1 (h.tombstones ▸ ht)
  unfold StateRow.tombstone? at hxt
  split at hxt
  · cases hxt
  · rename_i hnone
    exact ⟨x, hx, hnone, Option.some.inj hxt ▸ rfl⟩

theorem mem_payload_of_holds (h : Holds name states commands events db) {p : PayloadRow}
    (hp : p ∈ payloadRows db name) : ∃ x ∈ states, x.payload ≠ none ∧ x.pk = p.pk := by
  rw [h.payloadRows] at hp
  obtain ⟨x, hx, hxp⟩ := List.mem_filterMap.1 hp
  obtain ⟨payload, hpayload, rfl⟩ := Option.map_eq_some_iff.1 hxp
  exact ⟨x, hx, by simp [hpayload], rfl⟩

/-- The one state of a key is its payload row or its tombstone. -/
theorem Holds.oneState (h : Holds name states commands events db)
    (hnodup : (states.map StateRow.pk).Nodup) {s : StateRow} (hs : s ∈ states) :
    OneState db name s.entity s.key s.version := by
  cases hpayload : s.payload with
  | some payload =>
    left
    have hp : (⟨s.entity, s.key, s.version.toInt64, payload, s.timestamp⟩ : PayloadRow) ∈
        Migrate.payloadRows db name := by
      rw [h.payloadRows]
      refine List.mem_filterMap.2 ⟨s, hs, ?_⟩
      rw [StateRow.payloadRow?, hpayload]
      rfl
    refine ⟨_, mem_payloadRows.1 hp, rfl, db.tombstones.find?_eq_none.2 fun t ht hpk => ?_⟩
    obtain ⟨x, hx, hnone, hxt⟩ := mem_tombstones_of_holds h ht
    rw [List.inj_on_of_nodup_map hnodup hx hs (hxt.trans hpk), hpayload] at hnone
    cases hnone
  | none =>
    right
    refine ⟨?_, ⟨s.entity, s.key, s.version.toInt64, s.timestamp, s.eventId⟩, ?_, rfl⟩
    · cases hfind : History.findPayload db name s.entity s.key with
      | none => rfl
      | some p =>
        have hpk : p.pk = s.pk := by
          obtain ⟨t, -, ht⟩ := Option.bind_eq_some_iff.1 hfind
          exact (t.find?_eq_some.1 ht).2
        have hp : p ∈ Migrate.payloadRows db name := by
          obtain ⟨hentity, hkey⟩ := Prod.mk.inj hpk
          rw [mem_payloadRows, hentity, hkey]
          exact hfind
        obtain ⟨x, hx, hsome, hxp⟩ := mem_payload_of_holds h hp
        rw [List.inj_on_of_nodup_map hnodup hx hs (hxp.trans hpk)] at hsome
        exact absurd hpayload hsome
    · refine db.tombstones.find?_eq_some.2 ⟨?_, rfl⟩
      rw [h.tombstones]
      refine List.mem_filterMap.2 ⟨s, hs, ?_⟩
      rw [StateRow.tombstone?, hpayload]

/-- The state of a key has the greatest recorded version. -/
theorem Holds.isRecordedMax (h : Holds name states commands events db) (hg : Guards states commands)
    (hnodup : (states.map StateRow.pk).Nodup) (hfits : ∀ c ∈ commands, c.version.toNat < 2 ^ 63)
    {s : StateRow} (hs : s ∈ states) : IsRecordedMax db s.entity s.key s.version := by
  obtain ⟨c, hc, hpk, hversion⟩ := hg.command s hs
  obtain ⟨hentity, hkey⟩ := Prod.mk.inj hpk
  unfold IsRecordedMax
  rw [h.idempotency]
  refine ⟨⟨c.rowIn name, List.mem_map_of_mem hc, hentity, hkey, congrArg UInt64.toInt64 hversion⟩, ?_⟩
  intro r hr hre hrk
  obtain ⟨c', hc', rfl⟩ := List.mem_map.1 hr
  obtain ⟨s', hs', hpk', hle⟩ := hg.state c' hc'
  have hss : s' = s := List.inj_on_of_nodup_map hnodup hs' hs (hpk'.trans (Prod.ext hre hrk))
  rw [hss] at hle
  exact (toInt64_le_iff_of_lt (hfits c' hc') (hversion ▸ hfits c hc)).2 hle

/-- The greatest recorded version is the one that the writer compares with. -/
theorem Holds.currentVersion (h : Holds name states commands events db) {entity key : String}
    {v : UInt64} (hmax : IsRecordedMax db entity key v) :
    IdempotencyTracker.currentVersion db.idempotency name entity key = some v := by
  have hstore : ∀ r ∈ db.idempotency.rows, r.store = name := by
    rw [h.idempotency]
    intro r hr
    obtain ⟨c, -, rfl⟩ := List.mem_map.1 hr
    rfl
  obtain ⟨⟨r, hr, hre, hrk, hrv⟩, hle⟩ := hmax
  refine IdempotencyTracker.currentVersion_eq_some.2 ⟨⟨r, hr, ⟨hstore r hr, hre, hrk⟩, hrv⟩, ?_⟩
  rintro r' hr' ⟨-, hre', hrk'⟩
  exact hle r' hr' hre' hrk'

theorem Holds.rejects (h : Holds name states commands events db) {entity key : String} {v : UInt64}
    (hmax : IsRecordedMax db entity key v) : Rejects db name entity key v := by
  have hcurrent := h.currentVersion hmax
  constructor
  · rintro D a cmd rfl rfl rfl hle
    by_cases hnew : IdempotencyTracker.check db.idempotency cmd = .new
    · right
      refine processCommand_of_stale hnew ?_
      unfold isStale
      rw [hcurrent]
      exact decide_eq_true hle
    · exact Or.inl (processCommand_of_recorded hnew)
  · rintro D a cmd rfl rfl rfl hlt hop hnew
    have hgets : GetsThrough db cmd := by
      refine ⟨hnew, isStale_eq_false.2 fun w hw => ?_, hop⟩
      rw [← Option.some.inj (hcurrent.symm.trans hw)]
      exact hlt
    refine ⟨hgets, fun _ hroom => ?_⟩
    obtain ⟨t, ht, -⟩ := h.payload
    have hok : ∃ r, processCommand D a db cmd = .ok r := by
      refine processCommand_ok_iff.2 fun _ => ⟨?_, hroom⟩
      rw [ht, Function.update_self]
      rfl
    obtain ⟨⟨db', o⟩, hok⟩ := hok
    obtain ⟨rfl, happ⟩ := hgets.applies hok
    exact ⟨db', hok, happ⟩

end Destination

/-! ### The migration -/

section Migration

variable {D : Deps} {ws : List Written}

theorem readAll_states_written (D : Deps) (ws : List Written) :
    readAll Source.states (ws.map (Written.source D)) =
      .ok (ws.flatMap fun w => statesOf w.name (w.db D)) := by
  induction ws with
  | nil => rfl
  | cons w ws ih =>
    exact readAll_cons_ok.2 ⟨_, _, states_toSource w.name (w.db D), ih, List.flatMap_cons⟩

/-- The collected states are as new as the collected commands. -/
theorem guards_collected (hfits : ∀ w ∈ ws, w.Fits) {states : List StateRow}
    {commands : List IdempotencyRow} {conflicts deduplicated : ℕ}
    (hstates : collectStates (ws.map (Written.source D)) = .ok (states, conflicts))
    (hcommands : collectIdempotency (ws.map (Written.source D)) = .ok (commands, deduplicated)) :
    Guards states commands := by
  obtain ⟨rows, hread, rfl⟩ := collectStates_ok hstates
  obtain rfl := Except.ok.inj ((readAll_states_written D ws).symm.trans hread)
  obtain ⟨hfirst, -⟩ := collectIdempotency_ok hcommands
  rw [List.flatMap_map] at hfirst
  exact (Guards.flatMap fun w hw => guards_written D (hfits w hw)).kept hfirst

theorem version_lt_of_collected (hfits : ∀ w ∈ ws, w.Fits) {commands : List IdempotencyRow}
    {deduplicated : ℕ}
    (hcommands : collectIdempotency (ws.map (Written.source D)) = .ok (commands, deduplicated)) :
    ∀ c ∈ commands, c.version.toNat < 2 ^ 63 := by
  intro c hc
  obtain ⟨hfirst, -⟩ := collectIdempotency_ok hcommands
  have hmem := hfirst.mem_rows hc
  rw [List.flatMap_map] at hmem
  obtain ⟨w, hw, hmem⟩ := List.mem_flatMap.1 hmem
  obtain ⟨r, hr, rfl⟩ := List.mem_map.1 hmem
  have hcons : History.Consistent D w.name (History.run D w.name w.batches) :=
    History.consistent_run (hfits w hw)
  obtain ⟨it, hit, rfl⟩ := hcons.journaled.mem_idempotency.1 hr
  exact (hcons.fits it hit).2

/-- What can be collected of written stores is migrated, while there are ids for the events. -/
theorem exists_run (D : Deps) (ws : List Written) (hash : String → UInt64) (operation : Operation)
    (destinations : List String) {states : List StateRow} {commands : List IdempotencyRow}
    {events : List OutboxRow} {conflicts deduplicated : ℕ}
    (hstates : collectStates (ws.map (Written.source D)) = .ok (states, conflicts))
    (hcommands : collectIdempotency (ws.map (Written.source D)) = .ok (commands, deduplicated))
    (hevents : collectOutbox (ws.map (Written.source D)) = .ok events)
    (hroom : events.length ≤ maxRowid) :
    ∃ parts report, run hash operation destinations (ws.map (Written.source D)) = .ok (parts, report) ∧
      writeDestinations hash operation destinations states commands events = .ok parts := by
  obtain ⟨parts, hwrite⟩ := (collected_of_ok hstates hcommands hevents).exists_write hroom hash
    operation destinations
  obtain ⟨report, htransform⟩ := exists_transform hstates hcommands hevents hwrite
  refine ⟨parts, report, (run_written hash operation destinations D ws).trans htransform, hwrite⟩

/-- **A migration keeps the protection against stale writes.**  In every destination, a key with a
recorded command has one of payload row and tombstone, of the greatest recorded version, and the
writer of the destination rejects what is not above it and, if its statements name its table, applies
what is. -/
theorem migration_keeps_protection (hash : String → UInt64) (operation : Operation)
    (destinations : List String) (D : Deps) (ws : List Written) (hfits : ∀ w ∈ ws, w.Fits)
    {parts : Parts} {report : Report}
    (hrun : run hash operation destinations (ws.map (Written.source D)) = .ok (parts, report))
    (i : ℕ) (entity key : String)
    (hrow : ∃ r ∈ (parts i).idempotency.rows, r.entity = entity ∧ r.key = key) :
    ∃ v, OneState (parts i) (targetName destinations i) entity key v ∧
      IsRecordedMax (parts i) entity key v ∧
      Rejects (parts i) (targetName destinations i) entity key v := by
  rw [run_written] at hrun
  obtain ⟨states, _, commands, _, events, hstates, hcommands, -, hwrite, -⟩ := transform_ok hrun
  have hholds := writeDestinations_ok hwrite i
  have hg := (guards_collected hfits hstates hcommands).filter
    (goesTo hash operation destinations i)
  have hversion := version_lt_of_collected hfits hcommands
  have hnodup : ((states.filter fun s => goesTo hash operation destinations i s.key).map
      StateRow.pk).Nodup := by
    obtain ⟨rows, -, rfl⟩ := collectStates_ok hstates
    exact (List.filter_sublist.map _).nodup (nodup_of_sorted_states (sorted_keptStates rows))
  obtain ⟨r, hr, rfl, rfl⟩ := hrow
  obtain ⟨c, hc, rfl⟩ := List.mem_map.1 (hholds.idempotency ▸ hr)
  obtain ⟨s, hs, hpk, -⟩ := hg.state c hc
  have hmax := hholds.isRecordedMax hg hnodup (fun c hc => hversion c (List.mem_filter.1 hc).1) hs
  obtain ⟨hentity, hkey⟩ := Prod.mk.inj hpk
  show ∃ v, OneState _ _ c.entity c.key v ∧ IsRecordedMax _ c.entity c.key v ∧
    Rejects _ _ c.entity c.key v
  rw [← hentity, ← hkey]
  exact ⟨s.version, hholds.oneState hnodup hs, hmax, hholds.rejects hmax⟩

end Migration

/-- A store with an upsert of `user/1`. -/
def upsertedStore : Written := ⟨"main", History.sampleBatches, fun _ => "2026-01-01 00:00:01"⟩

/-- A store with a newer delete of `user/1`. -/
def deletedStore : Written :=
  ⟨"other", [⟨fun _ => { History.sampleAmbient with eventId := "0b7d9a52-6c1e-4f7b-8a3d-5e2c9f104d66" },
    [{ History.sampleUpsert "b" 2 with op := "delete", store := "other" }]⟩],
    fun _ => "2026-01-01 00:00:02"⟩

/-- The two are merged, and the writer of the merged store knows about the delete. -/
theorem merged_delete_is_protected :
    ∃ parts report, run sampleHash .merge ["both"]
        ([upsertedStore, deletedStore].map (Written.source History.sampleDeps)) = .ok (parts, report) ∧
      ∃ v, OneState (parts 0) "both" "user" "1" v ∧ IsRecordedMax (parts 0) "user" "1" v ∧
        Rejects (parts 0) "both" "user" "1" v := by
  obtain ⟨commands, deduplicated, hcommands, c, hc, hentity, hkey⟩ :
      ∃ commands deduplicated, collectIdempotency
        ([upsertedStore, deletedStore].map (Written.source History.sampleDeps)) =
          .ok (commands, deduplicated) ∧ ∃ c ∈ commands, c.entity = "user" ∧ c.key = "1" :=
    ⟨_, _, rfl, _, List.mem_cons_self, rfl, rfl⟩
  obtain ⟨parts, report, hrun, hwrite⟩ := exists_run _ _ sampleHash .merge ["both"] rfl hcommands
    rfl (by decide)
  have hfits : ∀ w ∈ [upsertedStore, deletedStore], w.Fits := by decide
  have hrow : c.rowIn "both" ∈ (parts 0).idempotency.rows := by
    rw [(writeDestinations_ok hwrite 0).idempotency]
    exact List.mem_map_of_mem (List.mem_filter.2 ⟨hc, rfl⟩)
  exact ⟨parts, report, hrun, migration_keeps_protection _ _ _ _ _ hfits hrun 0 "user" "1"
    ⟨_, hrow, hentity, hkey⟩⟩

end Migrate

end Ixmati
