import Ixmati.Migrate.Protection
import Ixmati.System.Replay

/-!
# Events after a migration

`insert_outbox` gives an event a new row: its id is the next of the destination and its column `store`
is the name of the destination.  The document in the payload is copied, so it still names the store and
the id that the event had in its source.  The events are inserted in the order of their event ids, which
are random.

`mem_outbox_iff` says what becomes of the events: a destination has a row for each event of the sources
that is routed to it, whose id is its place among them by event id (`placeOf`), and which is otherwise
the row of the source.  From this it follows

* when the documents of a destination are those that `Outbox::insert` would have written
  (`carriesRows_iff`);
* when the events of a key keep their order (`ordered_iff`).
-/

namespace Ixmati

namespace Migrate

open Ixmati.System
open WriteEngine

/-! ### The events of the sources -/

/-- What `Outbox::insert` establishes: the document of the row is about the row, in the store. -/
def CarriesRow (D : Deps) (name : String) (o : OutboxEntry) : Prop :=
  o.store = name ∧ ∃ e, readEvent D o.payload = some e ∧ e.store = name ∧ e.outboxSeq.toNat = o.id ∧
    e.eventId = o.eventId ∧ e.entity = o.entity ∧ e.key = o.key ∧ e.version.toInt64 = o.version

/-- The documents of the events can be read back. -/
def Written.Readable (D : Deps) (w : Written) : Prop :=
  ∀ i it, (History.run D w.name w.batches).applied[i]? = some it → ReadsBack D (eventAt i it)

/-- The events of the sources. -/
def allEvents (D : Deps) (ws : List Written) : List OutboxEntry :=
  ws.flatMap fun w => (w.db D).outbox.rows

section Sources

variable {D : Deps} {w : Written} {ws : List Written}

/-- The writer leaves rows whose documents are about them. -/
theorem carriesRow_written (hread : w.Readable D) {o : OutboxEntry} (ho : o ∈ (w.db D).outbox.rows) :
    CarriesRow D o.store o := by
  have hle : o.id ≤ maxRowid := ((w.db D).outbox.bounded o ho).trans (w.db D).outbox.seq_le
  obtain ⟨r, hr, rfl⟩ := List.mem_map.1 ho
  obtain ⟨i, it, hit, rfl⟩ := (History.journaled_run D w.name w.batches).mem_outbox.1 hr
  obtain ⟨value, -, hevent⟩ := hread i it hit
  refine ⟨rfl, _, hevent, rfl, ?_, rfl, rfl, rfl, rfl⟩
  show (UInt64.ofNat (i + 1)).toNat = i + 1
  refine UInt64.toNat_ofNat_of_lt (lt_of_le_of_lt hle ?_)
  decide

theorem readable_of_events {events : List EventEnvelope}
    (hlog : (History.run D w.name w.batches).applied.mapIdx eventAt = events)
    (hevents : ∀ e ∈ events, ReadsBack D e) : w.Readable D := by
  intro i it hit
  refine hevents _ ?_
  rw [← hlog]
  refine List.mem_of_getElem? (i := i) ?_
  rw [List.getElem?_mapIdx, hit]
  rfl

/-- Two rows of one event, up to the time of its publication. -/
structure SameRow (o o' : OutboxEntry) : Prop where
  id : o.id = o'.id
  eventId : o.eventId = o'.eventId
  store : o.store = o'.store
  entity : o.entity = o'.entity
  key : o.key = o'.key
  version : o.version = o'.version

/-- Rows with one document are rows of one event. -/
theorem sameRow_of_payload {o o' : OutboxEntry} (h : CarriesRow D o.store o)
    (h' : CarriesRow D o'.store o') (hpayload : o.payload = o'.payload) : SameRow o o' := by
  obtain ⟨-, e, he, hstore, hid, heventId, hentity, hkey, hversion⟩ := h
  obtain ⟨-, e', he', hstore', hid', heventId', hentity', hkey', hversion'⟩ := h'
  rw [← hpayload, he, Option.some.injEq] at he'
  subst he'
  exact ⟨hid.symm.trans hid', heventId.symm.trans heventId', hstore.symm.trans hstore',
    hentity.symm.trans hentity', hkey.symm.trans hkey', hversion.symm.trans hversion'⟩

theorem readAll_outbox_written (D : Deps) (ws : List Written) :
    readAll Source.outboxRows (ws.map (Written.source D)) =
      .ok ((allEvents D ws).map eventOfEntry) := by
  induction ws with
  | nil => rfl
  | cons w ws ih =>
    refine readAll_cons_ok.2 ⟨_, _, outboxRows_toSource w.name (w.db D), ih, ?_⟩
    rw [allEvents, List.flatMap_cons, List.map_append]
    rfl

/-- What the collection keeps: one row of each event. -/
structure KeptEvents (rows : List OutboxEntry) (kept : List OutboxRow) : Prop where
  sorted : kept.Pairwise fun a b => a.eventId < b.eventId
  ofKept : ∀ k ∈ kept, ∃ o ∈ rows, eventOfEntry o = k
  ofRow : ∀ o ∈ rows, ∃ o' ∈ rows, eventOfEntry o' ∈ kept ∧ SameRow o' o

theorem carriesRow_allEvents (hread : ∀ w ∈ ws, w.Readable D) :
    ∀ o ∈ allEvents D ws, CarriesRow D o.store o := by
  intro o ho
  obtain ⟨w, hw, ho⟩ := List.mem_flatMap.1 ho
  exact carriesRow_written (hread w hw) ho

theorem keptEvents_of_ok (hread : ∀ w ∈ ws, w.Readable D) {events : List OutboxRow}
    (hevents : collectOutbox (ws.map (Written.source D)) = .ok events) :
    KeptEvents (allEvents D ws) events := by
  obtain ⟨rows, hrows, hfirst, hsorted⟩ := collectOutbox_ok hevents
  obtain rfl := Except.ok.inj ((readAll_outbox_written D ws).symm.trans hrows)
  refine ⟨hsorted, fun k hk => List.mem_map.1 (hfirst.mem_rows hk), fun o ho => ?_⟩
  obtain ⟨k, hk, hid, hsame⟩ := hfirst.agrees _ (List.mem_map_of_mem ho)
  obtain ⟨o', ho', rfl⟩ := List.mem_map.1 (hfirst.mem_rows hk)
  refine ⟨o', ho', hk, ?_⟩
  -- an event with the same id has the same document, or the migration had stopped
  have hpayload : o'.payload = o.payload := by
    rcases hsame with heq | hsame
    · exact congrArg OutboxRow.payload heq
    · exact (of_decide_eq_true hsame).2
  have hcarries := carriesRow_allEvents hread
  exact sameRow_of_payload (hcarries o' ho') (hcarries o ho) hpayload

end Sources

/-! ### The events of a destination -/

/-- The place of an event among those that go to the same destination, by event id. -/
def placeOf (hash : String → UInt64) (operation : Operation) (destinations : List String)
    (rows : List OutboxEntry) (o : OutboxEntry) : ℕ :=
  (((rows.filter fun r => goesTo hash operation destinations
    (targetOf hash operation destinations o.key) r.key).map (·.eventId)).toFinset.filter
      (· < o.eventId)).card + 1

section Destination

variable {hash : String → UInt64} {operation : Operation} {destinations : List String}
  {rows : List OutboxEntry} {events : List OutboxRow} {name : String} {states : List StateRow}
  {commands : List IdempotencyRow} {db : Database} {i : ℕ}

/-- An event that is kept has the place among the kept ones that it has among all. -/
theorem placeOf_eq (hk : KeptEvents rows events) {o : OutboxEntry}
    (hgoes : targetOf hash operation destinations o.key = i) {j : ℕ}
    (hj : (events.filter fun r => goesTo hash operation destinations i r.key)[j]? =
      some (eventOfEntry o)) :
    placeOf hash operation destinations rows o = j + 1 := by
  have hsorted : ((events.filter fun r => goesTo hash operation destinations i r.key).map
      OutboxRow.eventId).Pairwise (· < ·) :=
    List.pairwise_map.2 (hk.sorted.sublist List.filter_sublist)
  have hplace := card_filter_lt hsorted (x := o.eventId) (j := j) (by
    rw [List.getElem?_map, hj]
    rfl)
  have hids : ((events.filter fun r => goesTo hash operation destinations i r.key).map
      OutboxRow.eventId).toFinset =
        ((rows.filter fun r => goesTo hash operation destinations i r.key).map (·.eventId)).toFinset := by
    ext x
    simp only [List.mem_toFinset, List.mem_map, List.mem_filter]
    constructor
    · rintro ⟨k, ⟨hmem, hgo⟩, rfl⟩
      obtain ⟨r, hr, rfl⟩ := hk.ofKept k hmem
      exact ⟨r, ⟨hr, hgo⟩, rfl⟩
    · rintro ⟨r, ⟨hr, hgo⟩, rfl⟩
      obtain ⟨r', -, hmem, hsame⟩ := hk.ofRow r hr
      refine ⟨eventOfEntry r', ⟨hmem, ?_⟩, hsame.eventId⟩
      show goesTo hash operation destinations i r'.key = true
      rw [hsame.key]
      exact hgo
  rw [placeOf, hgoes, ← hids, hplace]

theorem entryIn_eventOfEntry (name : String) (id : ℕ) (o : OutboxEntry) :
    (eventOfEntry o).entryIn name id = { o with id := id, store := name } := by
  simp [OutboxRow.entryIn, eventOfEntry]

/-- **The events of a destination** are those of the sources that are routed to it, each under the id
that is its place and under the name of the destination. -/
theorem mem_outbox_iff (hk : KeptEvents rows events)
    (hholds : Holds name states commands
      (events.filter fun r => goesTo hash operation destinations i r.key) db) {d : OutboxEntry} :
    d ∈ db.outbox.rows ↔ ∃ o ∈ rows, eventOfEntry o ∈ events ∧
      targetOf hash operation destinations o.key = i ∧
      d = { o with id := placeOf hash operation destinations rows o, store := name } := by
  rw [hholds.outbox, List.mem_mapIdx]
  constructor
  · rintro ⟨j, hj, rfl⟩
    have hget := List.getElem?_eq_getElem hj
    obtain ⟨hmem, hgo⟩ := List.mem_filter.1 (List.getElem_mem hj)
    obtain ⟨o, ho, hok⟩ := hk.ofKept _ hmem
    rw [← hok] at hget hmem hgo
    have hgoes := of_decide_eq_true hgo
    refine ⟨o, ho, hmem, hgoes, ?_⟩
    rw [← hok, entryIn_eventOfEntry, placeOf_eq hk hgoes hget]
  · rintro ⟨o, -, hmem, hgoes, rfl⟩
    obtain ⟨j, hj, hget⟩ := List.mem_iff_getElem.1
      (List.mem_filter.2 ⟨hmem, decide_eq_true hgoes⟩ :
        eventOfEntry o ∈ events.filter fun r => goesTo hash operation destinations i r.key)
    refine ⟨j, hj, ?_⟩
    rw [hget, entryIn_eventOfEntry,
      placeOf_eq hk hgoes ((List.getElem?_eq_getElem hj).trans (congrArg some hget))]

theorem placeOf_congr {o o' : OutboxEntry} (h : SameRow o o') :
    placeOf hash operation destinations rows o = placeOf hash operation destinations rows o' := by
  rw [placeOf, placeOf, h.key, h.eventId]

/-- Places are in the order of the event ids. -/
theorem placeOf_lt_iff {o o' : OutboxEntry} (ho : o ∈ rows)
    (htarget : targetOf hash operation destinations o.key =
      targetOf hash operation destinations o'.key) :
    placeOf hash operation destinations rows o < placeOf hash operation destinations rows o' ↔
      o.eventId < o'.eventId := by
  unfold placeOf
  rw [← htarget, Nat.add_lt_add_iff_right]
  generalize hids : ((rows.filter fun r => goesTo hash operation destinations
    (targetOf hash operation destinations o.key) r.key).map (·.eventId)).toFinset = ids
  have hmem : o.eventId ∈ ids := by
    rw [← hids, List.mem_toFinset]
    exact List.mem_map.2 ⟨o, List.mem_filter.2 ⟨ho, decide_eq_true rfl⟩, rfl⟩
  constructor
  · intro hcard
    by_contra hle
    refine absurd hcard (not_lt_of_ge (Finset.card_le_card fun x hx => ?_))
    obtain ⟨hx, hlt⟩ := Finset.mem_filter.1 hx
    exact Finset.mem_filter.2 ⟨hx, lt_of_lt_of_le hlt (le_of_not_gt hle)⟩
  · intro hlt
    refine Finset.card_lt_card ((Finset.ssubset_iff_of_subset fun x hx => ?_).2 ⟨o.eventId, ?_, ?_⟩)
    · obtain ⟨hx, hxo⟩ := Finset.mem_filter.1 hx
      exact Finset.mem_filter.2 ⟨hx, hxo.trans hlt⟩
    · exact Finset.mem_filter.2 ⟨hmem, hlt⟩
    · exact fun hself => lt_irrefl _ (Finset.mem_filter.1 hself).2

theorem targetOf_lt (hn : 0 < destinations.length) (key : String) :
    targetOf hash operation destinations key < destinations.length := by
  cases operation with
  | split => exact Nat.mod_lt _ hn
  | rename => exact hn
  | merge => exact hn

end Destination

/-- The copied document is about the row and the destination exactly if these are those it is from. -/
theorem carriesRow_migrated {D : Deps} {o : OutboxEntry} (h : CarriesRow D o.store o) (name : String)
    (id : ℕ) : CarriesRow D name { o with id := id, store := name } ↔ o.store = name ∧ o.id = id := by
  obtain ⟨-, e, he, hstore, hid, hrest⟩ := h
  constructor
  · rintro ⟨-, e', he', hstore', hid', -⟩
    obtain rfl : e = e' := Option.some.inj (he.symm.trans he')
    exact ⟨hstore.symm.trans hstore', hid.symm.trans hid'⟩
  · rintro ⟨rfl, rfl⟩
    exact ⟨rfl, e, he, hstore, hid, hrest⟩

/-- Two events of a key that are in one source, and then in one destination, are there in one order. -/
def KeepsOrder (D : Deps) (ws : List Written) (destinations : List String) (parts : Parts) : Prop :=
  ∀ w ∈ ws, ∀ o ∈ (w.db D).outbox.rows, ∀ o' ∈ (w.db D).outbox.rows, o.entity = o'.entity →
    o.key = o'.key → o.id < o'.id →
      ∀ i < destinations.length, ∀ d ∈ (parts i).outbox.rows, ∀ d' ∈ (parts i).outbox.rows,
        d.eventId = o.eventId → d'.eventId = o'.eventId → d.id < d'.id

/-- A replay of a destination shows the versions of each key in increasing order. -/
def ReplayIncreases (destinations : List String) (parts : Parts) : Prop :=
  ∀ i < destinations.length, ∀ d ∈ (parts i).outbox.rows, ∀ d' ∈ (parts i).outbox.rows,
    d.entity = d'.entity → d.key = d'.key → d.id < d'.id → d.version.toUInt64 < d'.version.toUInt64

section Migration

variable {hash : String → UInt64} {operation : Operation} {destinations : List String} {D : Deps}
  {ws : List Written} {parts : Parts} {report : Report}

variable (hread : ∀ w ∈ ws, w.Readable D)
  (hrun : run hash operation destinations (ws.map (Written.source D)) = .ok (parts, report))

include hread hrun

/-- What becomes of the events in a migration. -/
theorem mem_outbox_of_run :
    ∃ events, KeptEvents (allEvents D ws) events ∧
      ∀ i d, d ∈ (parts i).outbox.rows ↔ ∃ o ∈ allEvents D ws, eventOfEntry o ∈ events ∧
        targetOf hash operation destinations o.key = i ∧
        d = { o with
          id := placeOf hash operation destinations (allEvents D ws) o
          store := targetName destinations i } := by
  rw [run_written] at hrun
  obtain ⟨_, _, _, _, events, -, -, hevents, hwrite, -⟩ := transform_ok hrun
  have hk := keptEvents_of_ok hread hevents
  exact ⟨events, hk, fun i d => mem_outbox_iff hk (writeDestinations_ok hwrite i)⟩

/-- Every event of the sources is in its destination. -/
theorem exists_migrated {o : OutboxEntry} (ho : o ∈ allEvents D ws) :
    ∃ d ∈ (parts (targetOf hash operation destinations o.key)).outbox.rows,
      d.eventId = o.eventId ∧ d.entity = o.entity ∧ d.key = o.key ∧ d.version = o.version := by
  obtain ⟨events, hk, hmem⟩ := mem_outbox_of_run hread hrun
  obtain ⟨o', ho', hkept, hsame⟩ := hk.ofRow o ho
  have htarget := congrArg (targetOf hash operation destinations) hsame.key
  exact ⟨_, (hmem _ _).2 ⟨o', ho', hkept, htarget, rfl⟩, hsame.eventId, hsame.entity, hsame.key, hsame.version⟩

/-- Every event of a destination is one of the sources. -/
theorem exists_origin {i : ℕ} {d : OutboxEntry} (hd : d ∈ (parts i).outbox.rows) :
    ∃ o ∈ allEvents D ws, d.eventId = o.eventId ∧ d.entity = o.entity ∧ d.key = o.key ∧
      d.version = o.version := by
  obtain ⟨events, -, hmem⟩ := mem_outbox_of_run hread hrun
  obtain ⟨o, ho, -, -, rfl⟩ := (hmem i d).1 hd
  exact ⟨o, ho, rfl, rfl, rfl, rfl⟩

/-- A destination has its events in the order of the event ids. -/
theorem id_lt_iff {i : ℕ} {d d' : OutboxEntry} (hd : d ∈ (parts i).outbox.rows)
    (hd' : d' ∈ (parts i).outbox.rows) : d.id < d'.id ↔ d.eventId < d'.eventId := by
  obtain ⟨events, -, hmem⟩ := mem_outbox_of_run hread hrun
  obtain ⟨o, ho, -, htarget, rfl⟩ := (hmem i d).1 hd
  obtain ⟨o', -, -, htarget', rfl⟩ := (hmem i d').1 hd'
  exact placeOf_lt_iff ho (htarget.trans htarget'.symm)

theorem keepsOrder_iff (hn : 0 < destinations.length) :
    KeepsOrder D ws destinations parts ↔
      ∀ w ∈ ws, ∀ o ∈ (w.db D).outbox.rows, ∀ o' ∈ (w.db D).outbox.rows, o.entity = o'.entity →
        o.key = o'.key → o.id < o'.id → o.eventId < o'.eventId := by
  constructor
  · intro h w hw o ho o' ho' hentity hkey hlt
    obtain ⟨d, hd, hdo, -⟩ := exists_migrated hread hrun (List.mem_flatMap.2 ⟨w, hw, ho⟩)
    obtain ⟨d', hd', hdo', -⟩ := exists_migrated hread hrun (List.mem_flatMap.2 ⟨w, hw, ho'⟩)
    rw [← hkey] at hd'
    have hids := h w hw o ho o' ho' hentity hkey hlt _ (targetOf_lt hn _) d hd d' hd' hdo hdo'
    rw [← hdo, ← hdo']
    exact (id_lt_iff hread hrun hd hd').1 hids
  · intro h w hw o ho o' ho' hentity hkey hlt i _ d hd d' hd' hdo hdo'
    rw [id_lt_iff hread hrun hd hd', hdo, hdo']
    exact h w hw o ho o' ho' hentity hkey hlt

theorem replayIncreases_iff (hn : 0 < destinations.length) :
    ReplayIncreases destinations parts ↔
      ∀ o ∈ allEvents D ws, ∀ o' ∈ allEvents D ws, o.entity = o'.entity → o.key = o'.key →
        o.eventId < o'.eventId → o.version.toUInt64 < o'.version.toUInt64 := by
  constructor
  · intro h o ho o' ho' hentity hkey hlt
    obtain ⟨d, hd, hdo, hde, hdk, hdv⟩ := exists_migrated hread hrun ho
    obtain ⟨d', hd', hdo', hde', hdk', hdv'⟩ := exists_migrated hread hrun ho'
    rw [← hkey] at hd'
    have hids : d.id < d'.id := by
      rw [id_lt_iff hread hrun hd hd', hdo, hdo']
      exact hlt
    have hversions := h _ (targetOf_lt hn _) d hd d' hd' (hde.trans (hentity.trans hde'.symm))
      (hdk.trans (hkey.trans hdk'.symm)) hids
    rwa [hdv, hdv'] at hversions
  · intro h i _ d hd d' hd' hentity hkey hlt
    obtain ⟨o, ho, hdo, hde, hdk, hdv⟩ := exists_origin hread hrun hd
    obtain ⟨o', ho', hdo', hde', hdk', hdv'⟩ := exists_origin hread hrun hd'
    rw [id_lt_iff hread hrun hd hd', hdo, hdo'] at hlt
    rw [hdv, hdv']
    exact h o ho o' ho' (hde.symm.trans (hentity.trans hde')) (hdk.symm.trans (hkey.trans hdk')) hlt

end Migration

/-- **Valid outboxes.**  The documents of all destinations are about their rows exactly if every event
of the sources goes to a destination with the name of its own store, to the place that is its id. -/
theorem carriesRows_iff (hash : String → UInt64) (operation : Operation) (destinations : List String)
    (hn : 0 < destinations.length) (D : Deps) (ws : List Written) (hread : ∀ w ∈ ws, w.Readable D)
    {parts : Parts} {report : Report}
    (hrun : run hash operation destinations (ws.map (Written.source D)) = .ok (parts, report)) :
    (∀ i < destinations.length, ∀ d ∈ (parts i).outbox.rows,
      CarriesRow D (targetName destinations i) d) ↔
    ∀ o ∈ allEvents D ws,
      o.store = targetName destinations (targetOf hash operation destinations o.key) ∧
      o.id = placeOf hash operation destinations (allEvents D ws) o := by
  obtain ⟨events, hk, hmem⟩ := mem_outbox_of_run hread hrun
  have hcarries := carriesRow_allEvents hread
  constructor
  · intro h o ho
    obtain ⟨o', ho', hkept, hsame⟩ := hk.ofRow o ho
    have hrow := h _ (targetOf_lt hn o'.key) _ ((hmem _ _).2 ⟨o', ho', hkept, rfl, rfl⟩)
    obtain ⟨hstore, hid⟩ := (carriesRow_migrated (hcarries o' ho') _ _).1 hrow
    rw [← hsame.store, ← hsame.key, ← hsame.id, ← placeOf_congr hsame]
    exact ⟨hstore, hid⟩
  · intro h i _ d hd
    obtain ⟨o, ho, -, rfl, rfl⟩ := (hmem i d).1 hd
    exact (carriesRow_migrated (hcarries o ho) _ _).2 (h o ho)

theorem readable_upsertedStore : ∀ w ∈ [upsertedStore], w.Readable sampleReplayDeps := by
  intro w hw
  rw [List.mem_singleton.1 hw]
  have hlog : (History.run sampleReplayDeps "main" History.sampleBatches).applied.mapIdx eventAt =
      [Outbox.persisted 1 (eventOf History.sampleAmbient (History.sampleUpsert "a" 1))] := rfl
  refine readable_of_events hlog fun e he => ?_
  rw [List.mem_singleton.1 he]
  exact readsBack_sampleUpsert

/-- The event of the upsert. -/
def upsertedEvent : OutboxEntry :=
  { Outbox.stored sampleReplayDeps 1 (eventOf History.sampleAmbient (History.sampleUpsert "a" 1)) with
    publishedAt := some "2026-01-01 00:00:01" }

theorem allEvents_upsertedStore : allEvents sampleReplayDeps [upsertedStore] = [upsertedEvent] := by
  rfl

/-- A merge into a store of the same name leaves the only event as it is. -/
theorem carriesRows_of_merge_into_itself :
    ∃ parts report, run sampleHash .merge ["main"]
        ([upsertedStore].map (Written.source sampleReplayDeps)) = .ok (parts, report) ∧
      ∀ i < 1, ∀ d ∈ (parts i).outbox.rows, CarriesRow sampleReplayDeps (targetName ["main"] i) d := by
  obtain ⟨parts, report, hrun, -⟩ := exists_run sampleReplayDeps [upsertedStore] sampleHash .merge
    ["main"] rfl rfl rfl (by decide)
  refine ⟨parts, report, hrun, ?_⟩
  refine (carriesRows_iff _ _ _ (by decide) _ _ readable_upsertedStore hrun).2 fun o ho => ?_
  rw [allEvents_upsertedStore] at ho ⊢
  rw [List.mem_singleton.1 ho]
  exact ⟨rfl, rfl⟩

/-- After a rename the document of the event still names the old store. -/
theorem renamed_event_names_old_store :
    ∃ parts report, run sampleHash .rename ["renamed"]
        ([upsertedStore].map (Written.source sampleReplayDeps)) = .ok (parts, report) ∧
      ¬ ∀ i < 1, ∀ d ∈ (parts i).outbox.rows,
        CarriesRow sampleReplayDeps (targetName ["renamed"] i) d := by
  obtain ⟨parts, report, hrun, -⟩ := exists_run sampleReplayDeps [upsertedStore] sampleHash .rename
    ["renamed"] rfl rfl rfl (by decide)
  refine ⟨parts, report, hrun, fun h => ?_⟩
  obtain ⟨events, hk, hmem⟩ := mem_outbox_of_run readable_upsertedStore hrun
  have hcarries := carriesRow_allEvents readable_upsertedStore
  rw [allEvents_upsertedStore] at hk hmem hcarries
  obtain ⟨o, ho, hkept, -⟩ := hk.ofRow upsertedEvent List.mem_cons_self
  have hd := h 0 (by decide) _ ((hmem 0 _).2 ⟨o, ho, hkept, rfl, rfl⟩)
  have hstore := ((carriesRow_migrated (hcarries o ho) _ _).1 hd).1
  rw [List.mem_singleton.1 ho] at hstore
  exact absurd hstore (by decide)

/-- **Event order.**  The events of a key keep their order, and a replay shows increasing versions,
exactly if the event ids of the key are in the order of the outbox ids of each source and in the order
of the versions throughout. -/
theorem ordered_iff (hash : String → UInt64) (operation : Operation) (destinations : List String)
    (hn : 0 < destinations.length) (D : Deps) (ws : List Written) (hread : ∀ w ∈ ws, w.Readable D)
    {parts : Parts} {report : Report}
    (hrun : run hash operation destinations (ws.map (Written.source D)) = .ok (parts, report)) :
    (KeepsOrder D ws destinations parts ∧ ReplayIncreases destinations parts) ↔
    (∀ w ∈ ws, ∀ o ∈ (w.db D).outbox.rows, ∀ o' ∈ (w.db D).outbox.rows, o.entity = o'.entity →
      o.key = o'.key → o.id < o'.id → o.eventId < o'.eventId) ∧
    (∀ o ∈ allEvents D ws, ∀ o' ∈ allEvents D ws, o.entity = o'.entity → o.key = o'.key →
      o.eventId < o'.eventId → o.version.toUInt64 < o'.version.toUInt64) := by
  exact and_congr (keepsOrder_iff hread hrun hn) (replayIncreases_iff hread hrun hn)

/-- Two upserts of `user/1`, whose events get these ids. -/
def twoUpserts (first second : String) : Written :=
  ⟨"main", [⟨fun i => { History.sampleAmbient with eventId := if i = 0 then first else second },
    [History.sampleUpsert "a" 1, History.sampleUpsert "b" 2]⟩], fun _ => "2026-01-01 00:00:01"⟩

/-- The event of an upsert of `user/1`. -/
def upsertEventAt (id : ℕ) (idempotencyKey : String) (version : UInt64) (eventId : String) :
    EventEnvelope :=
  Outbox.persisted id (eventOf { History.sampleAmbient with eventId := eventId }
    (History.sampleUpsert idempotencyKey version))

/-- Crates that read the documents of the two events back. -/
def twoUpsertsDeps (first second : String) : Deps :=
  .compact
    [(History.sampleUpsert "a" 1).payload, (upsertEventAt 1 "a" 1 first).toJson,
      (upsertEventAt 2 "b" 2 second).toJson]
    "84840d0ded213b09c5fa24a25f31bb67bf860fee34b32199e9efd90ebd7fe999"

theorem readable_twoUpserts {first second : String}
    (hlog : (History.run (twoUpsertsDeps first second) "main"
      (twoUpserts first second).batches).applied.mapIdx eventAt =
        [upsertEventAt 1 "a" 1 first, upsertEventAt 2 "b" 2 second])
    (h₁ : ReadsBack (twoUpsertsDeps first second) (upsertEventAt 1 "a" 1 first))
    (h₂ : ReadsBack (twoUpsertsDeps first second) (upsertEventAt 2 "b" 2 second)) :
    ∀ w ∈ [twoUpserts first second], w.Readable (twoUpsertsDeps first second) := by
  intro w hw
  rw [List.mem_singleton.1 hw]
  refine readable_of_events hlog fun e he => ?_
  rcases List.mem_cons.1 he with rfl | he
  · exact h₁
  · rw [List.mem_singleton.1 he]
    exact h₂

/-- Event ids that increase keep their order in a rename. -/
theorem ordered_of_increasing_ids :
    ∃ parts report, run sampleHash .rename ["renamed"]
        ([twoUpserts "0b7d9a52" "6f1c2f0e"].map
          (Written.source (twoUpsertsDeps "0b7d9a52" "6f1c2f0e"))) = .ok (parts, report) ∧
      KeepsOrder (twoUpsertsDeps "0b7d9a52" "6f1c2f0e") [twoUpserts "0b7d9a52" "6f1c2f0e"] ["renamed"]
        parts ∧
      ReplayIncreases ["renamed"] parts := by
  obtain ⟨parts, report, hrun, -⟩ := exists_run (twoUpsertsDeps "0b7d9a52" "6f1c2f0e")
    [twoUpserts "0b7d9a52" "6f1c2f0e"] sampleHash .rename ["renamed"] rfl rfl rfl (by decide)
  have hread : ∀ w ∈ [twoUpserts "0b7d9a52" "6f1c2f0e"],
      w.Readable (twoUpsertsDeps "0b7d9a52" "6f1c2f0e") :=
    readable_twoUpserts rfl ⟨(History.sampleUpsert "a" 1).payload, rfl, rfl⟩
      ⟨(History.sampleUpsert "a" 1).payload, rfl, rfl⟩
  refine ⟨parts, report, hrun, (ordered_iff _ _ _ (by decide) _ _ hread hrun).2 ⟨?_, ?_⟩⟩
  · decide +kernel
  · decide +kernel

/-- Event ids that decrease turn the order around. -/
theorem renamed_events_are_reversed :
    ∃ parts report, run sampleHash .rename ["renamed"]
        ([twoUpserts "6f1c2f0e" "0b7d9a52"].map
          (Written.source (twoUpsertsDeps "6f1c2f0e" "0b7d9a52"))) = .ok (parts, report) ∧
      ¬ KeepsOrder (twoUpsertsDeps "6f1c2f0e" "0b7d9a52") [twoUpserts "6f1c2f0e" "0b7d9a52"] ["renamed"]
        parts ∧
      ¬ ReplayIncreases ["renamed"] parts := by
  obtain ⟨parts, report, hrun, -⟩ := exists_run (twoUpsertsDeps "6f1c2f0e" "0b7d9a52")
    [twoUpserts "6f1c2f0e" "0b7d9a52"] sampleHash .rename ["renamed"] rfl rfl rfl (by decide)
  have hread : ∀ w ∈ [twoUpserts "6f1c2f0e" "0b7d9a52"],
      w.Readable (twoUpsertsDeps "6f1c2f0e" "0b7d9a52") :=
    readable_twoUpserts rfl ⟨(History.sampleUpsert "a" 1).payload, rfl, rfl⟩
      ⟨(History.sampleUpsert "a" 1).payload, rfl, rfl⟩
  refine ⟨parts, report, hrun, ?_, ?_⟩
  · rw [keepsOrder_iff hread hrun (by decide)]
    decide +kernel
  · rw [replayIncreases_iff hread hrun (by decide)]
    decide +kernel

end Migrate

end Ixmati
