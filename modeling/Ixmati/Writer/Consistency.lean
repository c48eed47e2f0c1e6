import Ixmati.Writer.Versions

/-!
# What the tables of a store say about each other

The four tables of a store are written by separate statements.  For a store whose commands carry
its own name and versions below `2 ^ 63`, in every history:

* `History.one_survivor_per_key` : a key with applied commands has either a payload row or a
  tombstone, namely the one that the command with the highest version left;
* `History.outbox_one_to_one` : `_idempotency` and `_outbox` are in one-to-one correspondence.

Both are read off the log: `Journaled` for the tables that list it, `Current` for those that show
its last entry on each key.
-/

namespace Ixmati

open WriteEngine

namespace History

variable {D : Deps} {h : History} {s : String}

/-- The commands are for the store `s` and their versions fit the column. -/
def FitsStore (s : String) (cmd : WriteEnvelope) : Prop :=
  cmd.store = s ∧ cmd.version.toNat < 2 ^ 63

instance (s : String) (cmd : WriteEnvelope) : Decidable (FitsStore s cmd) :=
  inferInstanceAs (Decidable (_ ∧ _))

/-- Below `2 ^ 63` the guard misses nothing. -/
theorem Journaled.not_straddles (hj : Journaled D h) {cmd : WriteEnvelope}
    (hfit : ∀ it ∈ h.applied, it.cmd.version.toNat < 2 ^ 63) :
    ¬ Straddles h.db.idempotency cmd := by
  rintro ⟨-, -, -, r, hr, -, hneg, -⟩
  obtain ⟨it, hit, rfl⟩ := hj.mem_idempotency.1 hr
  have := toInt64_lt_zero_iff.1 hneg
  have := hfit it hit
  omega

/-! ### The tables that show the last entry on each key -/

/-- The entry is about the key. -/
def onKey (entity key : String) (it : Iteration) : Bool :=
  decide (it.cmd.entity = entity ∧ it.cmd.key = key)

/-- The last entry of the log on a key. -/
def lastOn (h : History) (entity key : String) : Option Iteration :=
  lastWhere (onKey entity key) h.applied

/-- The payload row that an entry leaves. -/
def payloadRow (D : Deps) (it : Iteration) : Option PayloadRow :=
  if it.cmd.op = "delete" then none else some (payloadRowOf D it.ambient it.cmd)

/-- The tombstone that an entry leaves. -/
def tombstone (it : Iteration) : Option TombstoneRow :=
  if it.cmd.op = "delete" then
    some (Tombstones.rowOf it.ambient.deletedAt it.cmd.entity it.cmd.key it.cmd.version
      it.ambient.eventId)
  else none

/-- The payload row of a key in the table of a store. -/
def findPayload (db : Database) (store entity key : String) : Option PayloadRow :=
  (db.payload (tableName store)).bind (·.find? (entity, key))

/-- Payload rows and tombstones show the last entry on their key. -/
structure Current (D : Deps) (s : String) (h : History) : Prop where
  exists_table : (h.db.payload (tableName s)).isSome
  payload : ∀ entity key, findPayload h.db s entity key = (h.lastOn entity key).bind (payloadRow D)
  tombstones : ∀ entity key,
    h.db.tombstones.find? (entity, key) = (h.lastOn entity key).bind tombstone

/-- What every iteration on commands that fit the store keeps. -/
structure Consistent (D : Deps) (s : String) (h : History) : Prop where
  journaled : Journaled D h
  increasing : Increasing h
  fits : ∀ it ∈ h.applied, FitsStore s it.cmd
  current : Current D s h

theorem lastOn_append {log : List Iteration} {it : Iteration} {entity key : String} :
    lastWhere (onKey entity key) (log ++ [it]) =
      if (entity, key) = (it.cmd.entity, it.cmd.key) then some it
      else lastWhere (onKey entity key) log := by
  rw [lastWhere_append]
  have : onKey entity key it = decide ((entity, key) = (it.cmd.entity, it.cmd.key)) := by
    simp [onKey, eq_comm]
  rw [this]
  simp

/-- A tombstone is not newer than a command above all versions of its key. -/
theorem Consistent.tombstone_le (hc : Consistent D s h) {cmd : WriteEnvelope}
    (hcmd : FitsStore s cmd) (habove : AboveRecorded h.db.idempotency cmd) :
    ∀ r, h.db.tombstones.find? (cmd.entity, cmd.key) = some r →
      r.version ≤ cmd.version.toInt64 := by
  intro r hr
  rw [hc.current.tombstones, Option.bind_eq_some_iff] at hr
  obtain ⟨it, hit, htomb⟩ := hr
  obtain ⟨hmem, hkey⟩ := mem_of_lastWhere hit
  simp only [onKey, decide_eq_true_eq] at hkey
  have hlt := hc.journaled.aboveRecorded_iff.1 habove it hmem
    ⟨(hc.fits it hmem).1.trans hcmd.1.symm, hkey.1, hkey.2⟩
  unfold tombstone at htomb
  split_ifs at htomb
  simp only [Option.some.injEq] at htomb
  rw [← htomb]
  exact (toInt64_le_iff_of_lt (hc.fits it hmem).2 hcmd.2).2 (UInt64.le_of_lt hlt)

/-- Applying a command keeps the tables current. -/
theorem Consistent.current_apply (hc : Consistent D s h) {a : Ambient} {cmd : WriteEnvelope}
    {db : Database} {o : Outcome} (hcmd : FitsStore s cmd) (happ : Applies D a h.db cmd db)
    (habove : AboveRecorded h.db.idempotency cmd)
    (hlog : (h.extend a cmd db o).applied = h.applied ++ [⟨h.db, a, cmd, o⟩]) :
    Current D s (h.extend a cmd db o) := by
  obtain ⟨t, ht, hpay⟩ := happ.payload
  rw [hcmd.1] at ht hpay
  have hlast : ∀ entity key, (h.extend a cmd db o).lastOn entity key =
      if (entity, key) = (cmd.entity, cmd.key) then some ⟨h.db, a, cmd, o⟩
      else h.lastOn entity key := by
    intro entity key
    unfold lastOn
    rw [hlog, lastOn_append]
  refine ⟨?_, fun entity key => ?_, fun entity key => ?_⟩
  · show (db.payload (tableName s)).isSome
    simp [hpay]
  · have hold := hc.current.payload entity key
    simp only [findPayload, ht, Option.bind_some] at hold
    rw [hlast]
    show (db.payload (tableName s)).bind _ = _
    rw [hpay, Function.update_self, Option.bind_some]
    by_cases hdel : cmd.op = "delete"
    · rw [if_pos hdel, PayloadTable.find?_delete, hold]
      split_ifs with hk
      · simp [payloadRow, hdel]
      · rfl
    · rw [if_neg hdel, Table.find?_upsert, hold]
      show (if (entity, key) = (cmd.entity, cmd.key) then _ else _) = _
      split_ifs with hk
      · simp [payloadRow, hdel]
      · rfl
  · have hle := hc.tombstone_le hcmd habove
    rw [hlast]
    show db.tombstones.find? _ = _
    rw [happ.tombstones]
    by_cases hdel : cmd.op = "delete"
    · rw [if_pos hdel, Tombstones.find?_record_of_le hle, hc.current.tombstones]
      split_ifs with hk
      · simp [tombstone, hdel]
      · rfl
    · rw [if_neg hdel, Tombstones.find?_clearIfOlder_of_le hle, hc.current.tombstones]
      split_ifs with hk
      · simp [tombstone, hdel]
      · rfl

theorem Consistent.extend (hc : Consistent D s h) {a : Ambient} {cmd : WriteEnvelope}
    {db : Database} {o : Outcome} (hcmd : FitsStore s cmd)
    (hok : processCommand D a h.db cmd = .ok (db, o)) : Consistent D s (h.extend a cmd db o) := by
  have hj := hc.journaled.extend hok
  have hns : ¬ Straddles h.db.idempotency cmd :=
    hc.journaled.not_straddles fun it hit => (hc.fits it hit).2
  have hinc := (increasing_extend_iff hc.journaled hok).2 ⟨hc.increasing, hns⟩
  rcases extend_cases hok with ⟨rfl, hlog⟩ | ⟨happ, hlog⟩
  · refine ⟨hj, hinc, by rw [hlog]; exact hc.fits, hc.current.exists_table, ?_, ?_⟩
    · intro entity key
      unfold lastOn
      rw [hlog]
      exact hc.current.payload entity key
    · intro entity key
      unfold lastOn
      rw [hlog]
      exact hc.current.tombstones entity key
  · have habove : AboveRecorded h.db.idempotency cmd :=
      (aboveRecorded_or_straddles happ.new happ.known happ.fresh).resolve_right hns
    refine ⟨hj, hinc, ?_, ?_⟩
    · rw [hlog]
      intro it hit
      rcases List.mem_append.1 hit with hit | hit
      · exact hc.fits it hit
      · rw [List.mem_singleton] at hit
        rw [hit]
        exact hcmd
    · exact hc.current_apply hcmd happ habove hlog

theorem consistent_run {bs : List Batch} (hfit : ∀ b ∈ bs, ∀ cmd ∈ b.commands, FitsStore s cmd) :
    Consistent D s (run D s bs) := by
  refine run_invariant hfit ⟨⟨rfl, rfl, rfl⟩, ?_, ?_, ?_⟩ fun h a cmd db o hc hcmd hok =>
    hc.extend hcmd hok
  · simp [Increasing, applied]
  · simp [applied]
  · refine ⟨by simp [ensureSchema], fun entity key => ?_, fun entity key => rfl⟩
    simp [findPayload, ensureSchema, lastOn, applied]

/-! ### One survivor per key -/

/-- The rows of `_idempotency` on a key of the store are those of the entries on the key. -/
theorem Consistent.names_iff (hc : Consistent D s h) {it : Iteration} (hit : it ∈ h.applied)
    {entity key : String} :
    (idempotencyRow D it).names s entity key ↔ onKey entity key it := by
  simp [IdempotencyRow.names, idempotencyRow, IdempotencyTracker.rowOf, onKey, (hc.fits it hit).1]

/-- The row was recorded for the command of an entry. -/
def RecordedBy (D : Deps) (h : History) (r : IdempotencyRow) (it : Iteration) : Prop :=
  it ∈ h.applied ∧ idempotencyRow D it = r

/-- Each recorded row is the row of one entry. -/
theorem Journaled.idempotencyRow_inj (hj : Journaled D h) {x y : Iteration} (hx : x ∈ h.applied)
    (hy : y ∈ h.applied) (hxy : idempotencyRow D x = idempotencyRow D y) : x = y := by
  have hnd : (h.applied.map (idempotencyRow D)).Nodup := by
    rw [← hj.idempotency]
    exact List.Nodup.of_map _ h.db.idempotency.nodup
  exact List.inj_on_of_nodup_map hnd hx hy hxy

/-- The last entry on a key has the only row with the highest version of the key. -/
theorem Consistent.lastOn_max (hc : Consistent D s h) {entity key : String} {it : Iteration}
    (hlast : h.lastOn entity key = some it) :
    ∀ r ∈ h.db.idempotency.rows, r.names s entity key →
      r = idempotencyRow D it ∨ r.version < (idempotencyRow D it).version := by
  intro r hr hn
  obtain ⟨x, hx, rfl⟩ := hc.journaled.mem_idempotency.1 hr
  obtain ⟨hit, hkey⟩ := mem_of_lastWhere hlast
  have hpair : h.applied.Pairwise fun a b => onKey entity key a → onKey entity key b →
      (a.cmd.SameKey b.cmd → a.cmd.version < b.cmd.version) :=
    hc.increasing.imp fun {a b} hab _ _ => hab
  have hxkey := (hc.names_iff hx).1 hn
  rcases lastWhere_of_pairwise hpair hlast x hx hxkey with rfl | hlt
  · exact Or.inl rfl
  · right
    simp only [onKey, decide_eq_true_eq] at hkey hxkey
    have hv := hlt ⟨(hc.fits x hx).1.trans (hc.fits it hit).1.symm, hxkey.1.trans hkey.1.symm,
      hxkey.2.trans hkey.2.symm⟩
    show x.cmd.version.toInt64 < it.cmd.version.toInt64
    have hle := toInt64_le_iff_of_lt (hc.fits it hit).2 (hc.fits x hx).2
    rw [Int64.lt_iff_toInt_lt]
    rw [Int64.le_iff_toInt_le] at hle
    have := mt hle.1 (UInt64.not_le.2 hv)
    omega

/-- The last entry on a key has no lower version than any entry on it. -/
theorem Consistent.exists_lastOn (hc : Consistent D s h) {x : Iteration} (hx : x ∈ h.applied)
    {entity key : String} (hon : onKey entity key x) :
    ∃ it, h.lastOn entity key = some it ∧ x.cmd.version ≤ it.cmd.version := by
  cases hlast : h.lastOn entity key with
  | none => exact absurd hon (lastWhere_eq_none.1 hlast x hx)
  | some it =>
    obtain ⟨hit, hkey⟩ := mem_of_lastWhere hlast
    have hpair : h.applied.Pairwise fun a b => onKey entity key a → onKey entity key b →
        (a.cmd.SameKey b.cmd → a.cmd.version < b.cmd.version) :=
      hc.increasing.imp fun {a b} hab _ _ => hab
    refine ⟨it, rfl, ?_⟩
    rcases lastWhere_of_pairwise hpair hlast x hx hon with rfl | hlt
    · exact UInt64.le_refl _
    · simp only [onKey, decide_eq_true_eq] at hkey hon
      exact UInt64.le_of_lt (hlt ⟨(hc.fits x hx).1.trans (hc.fits it hit).1.symm,
        hon.1.trans hkey.1.symm, hon.2.trans hkey.2.symm⟩)

/-- **One survivor per key.**  In every history of a store, a key without recorded commands has
neither payload row nor tombstone.  Otherwise there is one recorded row with the highest version
of the key, and exactly one of payload row and tombstone, of that version: the tombstone if the
row records a delete, else the payload of the command that the row was recorded for. -/
theorem one_survivor_per_key (D : Deps) (s : String) (bs : List Batch)
    (hfit : ∀ b ∈ bs, ∀ cmd ∈ b.commands, FitsStore s cmd) (entity key : String) :
    ((∀ r ∈ (run D s bs).db.idempotency.rows, ¬ r.names s entity key) →
      findPayload (run D s bs).db s entity key = none ∧
        (run D s bs).db.tombstones.find? (entity, key) = none) ∧
    ((∃ r ∈ (run D s bs).db.idempotency.rows, r.names s entity key) →
      ∃ r ∈ (run D s bs).db.idempotency.rows, r.names s entity key ∧
        (∀ r' ∈ (run D s bs).db.idempotency.rows, r'.names s entity key →
          r' = r ∨ r'.version < r.version) ∧
        (r.operation = some "delete" →
          findPayload (run D s bs).db s entity key = none ∧
          ∃ tomb, (run D s bs).db.tombstones.find? (entity, key) = some tomb ∧
            tomb.version = r.version) ∧
        (r.operation ≠ some "delete" →
          (run D s bs).db.tombstones.find? (entity, key) = none ∧
          ∃ p, findPayload (run D s bs).db s entity key = some p ∧ p.version = r.version ∧
            (∃ it, RecordedBy D (run D s bs) r it) ∧
            ∀ it, RecordedBy D (run D s bs) r it → p.payload = D.toVec it.cmd.payload)) := by
  have hc : Consistent D s (run D s bs) := consistent_run hfit
  generalize run D s bs = h at hc
  rw [hc.current.payload, hc.current.tombstones]
  cases hlast : h.lastOn entity key with
  | none =>
    have hno : ∀ r ∈ h.db.idempotency.rows, ¬ r.names s entity key := by
      intro r hr hn
      obtain ⟨x, hx, rfl⟩ := hc.journaled.mem_idempotency.1 hr
      exact lastWhere_eq_none.1 hlast x hx ((hc.names_iff hx).1 hn)
    refine ⟨fun _ => ⟨rfl, rfl⟩, ?_⟩
    rintro ⟨r, hr, hn⟩
    exact absurd hn (hno r hr)
  | some it =>
    obtain ⟨hit, hkey⟩ := mem_of_lastWhere hlast
    have hrow : idempotencyRow D it ∈ h.db.idempotency.rows :=
      hc.journaled.mem_idempotency.2 ⟨it, hit, rfl⟩
    have hn := (hc.names_iff hit).2 hkey
    refine ⟨fun hno => absurd hn (hno _ hrow), fun _ => ?_⟩
    refine ⟨idempotencyRow D it, hrow, hn, hc.lastOn_max hlast, fun hdel => ?_, fun hdel => ?_⟩
    · have hop : it.cmd.op = "delete" := by simpa [idempotencyRow, IdempotencyTracker.rowOf] using hdel
      exact ⟨by simp [payloadRow, hop], _, by rw [Option.bind_some, tombstone, if_pos hop], rfl⟩
    · have hop : it.cmd.op ≠ "delete" := by simpa [idempotencyRow, IdempotencyTracker.rowOf] using hdel
      refine ⟨by simp [tombstone, hop], _, by rw [Option.bind_some, payloadRow, if_neg hop], rfl,
        ⟨it, hit, rfl⟩, ?_⟩
      rintro it' ⟨hit', hrow'⟩
      rw [hc.journaled.idempotencyRow_inj hit' hit hrow']
      rfl

/-- A run of one upsert. -/
def sampleBatches : List Batch := [⟨fun _ => sampleAmbient, [sampleUpsert "a" 1]⟩]

/-- A run in which the key is written, deleted and written again. -/
def sampleRecreated : List Batch :=
  [⟨fun _ => sampleAmbient, [sampleUpsert "a" 1, { sampleUpsert "b" 2 with op := "delete" }]⟩,
    ⟨fun _ => sampleAmbient, [sampleUpsert "c" 3]⟩]

theorem one_survivor_per_key_of_a_recreated_key :
    (∀ b ∈ sampleRecreated, ∀ cmd ∈ b.commands, FitsStore "main" cmd) ∧
    (run sampleDeps "main" sampleRecreated).db.tombstones.find? ("user", "1") = none ∧
    ∃ p, findPayload (run sampleDeps "main" sampleRecreated).db "main" "user" "1" = some p ∧
      p.version = 3 := by
  have hfit : ∀ b ∈ sampleRecreated, ∀ cmd ∈ b.commands, FitsStore "main" cmd := by decide
  have hnewest : ∀ r ∈ (run sampleDeps "main" sampleRecreated).db.idempotency.rows,
      r.version = 3 ∧ r.operation ≠ some "delete" ∨
        ∃ r' ∈ (run sampleDeps "main" sampleRecreated).db.idempotency.rows,
          r'.names "main" "user" "1" ∧ r' ≠ r ∧ ¬ r'.version < r.version := by
    decide +kernel
  obtain ⟨r, hr, -, hmax, -, hup⟩ :=
    (one_survivor_per_key sampleDeps "main" sampleRecreated hfit "user" "1").2 (by decide +kernel)
  rcases hnewest r hr with ⟨hversion, hop⟩ | ⟨r', hr', hnames, hne, hlt⟩
  · obtain ⟨htomb, p, hp, hv, -⟩ := hup hop
    exact ⟨hfit, htomb, p, hp, hv.trans hversion⟩
  · exact absurd (hmax r' hr' hnames) (not_or.2 ⟨hne, hlt⟩)

/-! ### Outbox and idempotency rows -/

/-- The rows are about the same version of the same key. -/
def Corresponds (r : IdempotencyRow) (o : OutboxEntry) : Prop :=
  o.store = r.store ∧ o.entity = r.entity ∧ o.key = r.key ∧ o.version = r.version

/-- `_idempotency` and `_outbox` are two views of one log. -/
structure OneToOne (D : Deps) (h : History) : Prop where
  /-- Each recorded command has exactly one event. -/
  event_of_record : ∀ r ∈ h.db.idempotency.rows, ∃! o, o ∈ h.db.outbox.rows ∧ Corresponds r o
  /-- Each event has exactly one recorded command. -/
  record_of_event : ∀ o ∈ h.db.outbox.rows, ∃! r, r ∈ h.db.idempotency.rows ∧ Corresponds r o
  /-- The stored document carries the id of its row. -/
  carries_id : ∀ o ∈ h.db.outbox.rows, ∃ event : EventEnvelope,
    o.payload = D.toVec event.toJson ∧ event.outboxSeq.toNat = o.id
  /-- The events are those of the applied commands, in the order of application. -/
  in_order : List.Forall₂ (fun it o => o = Outbox.stored D o.id (eventOf it.ambient it.cmd))
    h.applied h.db.outbox.rows
  ids_increase : h.db.outbox.rows.Pairwise fun o o' => o.id < o'.id
  versions_increase : OutboxIncreasing h

theorem Journaled.mem_outbox (hj : Journaled D h) {o : OutboxEntry} :
    o ∈ h.db.outbox.rows ↔ ∃ i it, h.applied[i]? = some it ∧ outboxRow D i it = o := by
  rw [hj.outbox, List.mem_iff_getElem?]
  simp only [List.getElem?_mapIdx, Option.map_eq_some_iff]

theorem corresponds_iff (x y : Iteration) (i : ℕ) :
    Corresponds (idempotencyRow D x) (outboxRow D i y) ↔
      y.cmd.SameKey x.cmd ∧ y.cmd.version = x.cmd.version := by
  have hv : y.cmd.version.toInt64 = x.cmd.version.toInt64 ↔ y.cmd.version = x.cmd.version :=
    ⟨toInt64_inj, fun h => by rw [h]⟩
  simp [Corresponds, idempotencyRow, IdempotencyTracker.rowOf, outboxRow, Outbox.stored,
    Outbox.entryOf, eventOf, WriteEnvelope.SameKey, hv, and_assoc]

/-- Along an increasing log no two entries have the same version of the same key. -/
theorem Increasing.index_eq (hinc : Increasing h) {i j : ℕ} {x y : Iteration}
    (hx : h.applied[i]? = some x) (hy : h.applied[j]? = some y) (hk : x.cmd.SameKey y.cmd)
    (hv : x.cmd.version = y.cmd.version) : i = j := by
  unfold Increasing at hinc
  rw [List.pairwise_iff_getElem] at hinc
  obtain ⟨hi, rfl⟩ := List.getElem?_eq_some_iff.1 hx
  obtain ⟨hj, rfl⟩ := List.getElem?_eq_some_iff.1 hy
  rcases Nat.lt_trichotomy i j with hlt | heq | hgt
  · exact absurd (hinc i j hi hj hlt hk) (by simp [hv])
  · exact heq
  · exact absurd (hinc j i hj hi hgt ⟨hk.1.symm, hk.2.1.symm, hk.2.2.symm⟩) (by simp [hv])

theorem Consistent.oneToOne (hc : Consistent D s h) : OneToOne D h where
  event_of_record := by
    intro r hr
    obtain ⟨x, hx, rfl⟩ := hc.journaled.mem_idempotency.1 hr
    obtain ⟨i, hi⟩ := List.mem_iff_getElem?.1 hx
    refine ⟨outboxRow D i x, ⟨hc.journaled.mem_outbox.2 ⟨i, x, hi, rfl⟩,
      (corresponds_iff x x i).2 ⟨⟨rfl, rfl, rfl⟩, rfl⟩⟩, ?_⟩
    rintro o ⟨ho, hcor⟩
    obtain ⟨j, y, hj, rfl⟩ := hc.journaled.mem_outbox.1 ho
    obtain ⟨hk, hv⟩ := (corresponds_iff x y j).1 hcor
    obtain rfl := hc.increasing.index_eq hj hi hk hv
    rw [hi, Option.some.injEq] at hj
    rw [hj]
  record_of_event := by
    intro o ho
    obtain ⟨i, x, hi, rfl⟩ := hc.journaled.mem_outbox.1 ho
    have hx : x ∈ h.applied := List.mem_of_getElem? hi
    refine ⟨idempotencyRow D x, ⟨hc.journaled.mem_idempotency.2 ⟨x, hx, rfl⟩,
      (corresponds_iff x x i).2 ⟨⟨rfl, rfl, rfl⟩, rfl⟩⟩, ?_⟩
    rintro r ⟨hr, hcor⟩
    obtain ⟨y, hy, rfl⟩ := hc.journaled.mem_idempotency.1 hr
    obtain ⟨j, hj⟩ := List.mem_iff_getElem?.1 hy
    obtain ⟨hk, hv⟩ := (corresponds_iff y x i).1 hcor
    obtain rfl := hc.increasing.index_eq hi hj hk hv
    rw [hi, Option.some.injEq] at hj
    rw [hj]
  carries_id := by
    intro o ho
    have hle := Nat.le_trans (h.db.outbox.bounded o ho) h.db.outbox.seq_le
    obtain ⟨i, x, hi, rfl⟩ := hc.journaled.mem_outbox.1 ho
    refine ⟨Outbox.persisted (i + 1) (eventOf x.ambient x.cmd), rfl, ?_⟩
    have hid : (outboxRow D i x).id = i + 1 := rfl
    rw [hid, maxRowid] at hle
    rw [hid]
    show (UInt64.ofNat (i + 1)).toNat = i + 1
    rw [UInt64.toNat_ofNat']
    omega
  in_order := by
    rw [hc.journaled.outbox, List.forall₂_iff_get]
    refine ⟨by simp, fun i hi hi' => ?_⟩
    simp [outboxRow, Outbox.stored, Outbox.entryOf]
  ids_increase := h.db.outbox.sorted
  versions_increase := hc.journaled.outboxIncreasing_iff.2 hc.increasing

/-- **The outbox records each command once.**  In every history of a store, the rows of
`_idempotency` and `_outbox` are in one-to-one correspondence, and a batch whose idempotency keys
are all recorded leaves every table as it is, has no events and counts duplicates only. -/
theorem outbox_one_to_one (D : Deps) (s : String) (bs : List Batch)
    (hfit : ∀ b ∈ bs, ∀ cmd ∈ b.commands, FitsStore s cmd) :
    OneToOne D (run D s bs) ∧
    ∀ (amb : ℕ → Ambient) (cmds : List WriteEnvelope),
      (∀ cmd ∈ cmds, ∃ r ∈ (run D s bs).db.idempotency.rows,
        r.store = cmd.store ∧ r.idempotencyKey = cmd.idempotencyKey) →
      processBatch D amb (run D s bs).db cmds =
        .ok ((run D s bs).db,
          { store := (cmds.head?.map (·.store)).getD "", committed := 0, duplicates := cmds.length,
            versionConflicts := 0, events := [] }) := by
  refine ⟨(consistent_run hfit).oneToOne, fun amb cmds hrec => ?_⟩
  refine processBatch_of_recorded fun cmd hcmd => ?_
  obtain ⟨r, hr, hstore, hkey⟩ := hrec cmd hcmd
  rw [Option.isSome_iff_exists]
  exact ⟨r, (Table.find?_eq_some _).2 ⟨hr, by rw [IdempotencyRow.pk, hstore, hkey]⟩⟩

theorem outbox_one_to_one_of_a_redelivery :
    (∀ b ∈ sampleBatches, ∀ cmd ∈ b.commands, FitsStore "main" cmd) ∧
    OneToOne sampleDeps (run sampleDeps "main" sampleBatches) ∧
    processBatch sampleDeps (fun _ => sampleAmbient) (run sampleDeps "main" sampleBatches).db
        [sampleUpsert "a" 1, sampleUpsert "a" 1] =
      .ok ((run sampleDeps "main" sampleBatches).db,
        { store := "main", committed := 0, duplicates := 2, versionConflicts := 0,
          events := [] }) := by
  have hfit : ∀ b ∈ sampleBatches, ∀ cmd ∈ b.commands, FitsStore "main" cmd := by decide
  obtain ⟨hone, hdup⟩ := outbox_one_to_one sampleDeps "main" sampleBatches hfit
  exact ⟨hfit, hone, hdup (fun _ => sampleAmbient) [sampleUpsert "a" 1, sampleUpsert "a" 1]
    (by decide +kernel)⟩

end History

end Ixmati
