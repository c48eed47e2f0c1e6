import Ixmati.Migrate.Destinations
import Ixmati.Migrate.LastWriter
import Mathlib.Data.List.Perm.Basic

/-!
# Splitting and merging back

A split gives every collected row to one destination, by the hash of its key; a merge of the
destinations collects the same rows again, whatever order they are listed in, since no two of them
share a key and the collected tables are sorted.  Only the column `source` of the collected rows
differs, and no destination stores it (`StateRow.stored`, `IdempotencyRow.stored`).  So the merge of a
split is the rename of its source (`split_then_merge_eq_rename`).

What a source loses on the way it loses in the collection: of two rows of one key, of one idempotency
key or of one event only one is kept (`older_payload_lands_nowhere`), the newest state and the first
command or event (`KeepsOneOfEach`).
-/

namespace Ixmati

namespace Migrate

open WriteEngine

/-! ### Rows as they are stored -/

/-- What a destination stores of a state. -/
def StateRow.stored (s : StateRow) : StateRow :=
  { s with source := "", eventId := if s.payload.isSome then none else s.eventId }

/-- What a destination stores of a command. -/
def IdempotencyRow.stored (r : IdempotencyRow) : IdempotencyRow := { r with source := "" }

section Stored

variable {name : String} {states states' : List StateRow} {commands commands' : List IdempotencyRow}
  {events : List OutboxRow} {db : Database}

theorem tombstone?_stored (s : StateRow) : s.stored.tombstone? = s.tombstone? := by
  unfold StateRow.tombstone? StateRow.stored
  cases s.payload <;> rfl

/-- No table has a column for the source. -/
theorem Holds.congr (h : Holds name states commands events db)
    (hstates : states.map StateRow.stored = states'.map StateRow.stored)
    (hcommands : commands.map IdempotencyRow.stored = commands'.map IdempotencyRow.stored) :
    Holds name states' commands' events db := by
  have hpayload : ∀ l : List StateRow, l.filterMap StateRow.payloadRow? =
      (l.map StateRow.stored).filterMap StateRow.payloadRow? := fun l => by
    rw [List.filterMap_map]
    rfl
  have htombstone : ∀ l : List StateRow, l.filterMap StateRow.tombstone? =
      (l.map StateRow.stored).filterMap StateRow.tombstone? := fun l => by
    rw [List.filterMap_map]
    exact List.filterMap_congr fun s _ => (tombstone?_stored s).symm
  have hrow : ∀ l : List IdempotencyRow, l.map (IdempotencyRow.rowIn name) =
      (l.map IdempotencyRow.stored).map (IdempotencyRow.rowIn name) := fun l => by
    rw [List.map_map]
    rfl
  obtain ⟨t, ht, hrows⟩ := h.payload
  refine ⟨⟨t, ht, ?_⟩, ?_, ?_, h.outbox, h.seq⟩
  · rw [hrows, hpayload, hstates, ← hpayload]
  · rw [h.tombstones, htombstone, hstates, ← htombstone]
  · rw [h.idempotency, hrow, hcommands, ← hrow]

/-- A destination as a source has the states that it was written with. -/
theorem Holds.states_toSource (h : Holds name states commands events db) :
    ∃ rows, (toSource name db).states = .ok rows ∧
      (rows.map StateRow.stored).Perm (states.map StateRow.stored) := by
  refine ⟨_, Migrate.states_toSource name db, ?_⟩
  rw [h.payloadRows, h.tombstones]
  clear h
  induction states with
  | nil => rfl
  | cons s states ih =>
    rw [List.map_append] at ih ⊢
    cases hpayload : s.payload with
    | some payload =>
      have hp : s.payloadRow? = some ⟨s.entity, s.key, s.version.toInt64, payload, s.timestamp⟩ := by
        rw [StateRow.payloadRow?, hpayload]
        rfl
      have ht : s.tombstone? = none := by rw [StateRow.tombstone?, hpayload]
      have hs : (stateOfPayload name ⟨s.entity, s.key, s.version.toInt64, payload, s.timestamp⟩).stored =
          s.stored := by
        simp [StateRow.stored, stateOfPayload, hpayload]
      rw [List.filterMap_cons_some hp, List.filterMap_cons_none ht, List.map_cons, List.map_cons,
        List.map_cons, hs]
      exact ih.cons _
    | none =>
      have hp : s.payloadRow? = none := by
        rw [StateRow.payloadRow?, hpayload]
        rfl
      have ht : s.tombstone? =
          some ⟨s.entity, s.key, s.version.toInt64, s.timestamp, s.eventId⟩ := by
        rw [StateRow.tombstone?, hpayload]
      have hs : (stateOfTombstone name
          ⟨s.entity, s.key, s.version.toInt64, s.timestamp, s.eventId⟩).stored = s.stored := by
        simp [StateRow.stored, stateOfTombstone, hpayload]
      rw [List.filterMap_cons_none hp, List.filterMap_cons_some ht, List.map_cons, List.map_cons,
        List.map_cons, hs]
      exact List.perm_middle.trans (ih.cons _)

/-- A destination as a source has the commands that it was written with. -/
theorem Holds.idempotencyRows_toSource (h : Holds name states commands events db) :
    ((toSource name db).idempotencyRows).map IdempotencyRow.stored =
      commands.map IdempotencyRow.stored := by
  rw [Migrate.idempotencyRows_toSource, h.idempotency, List.map_map, List.map_map]
  rfl

/-- A destination as a source has the events that it was written with. -/
theorem Holds.outboxRows_toSource (h : Holds name states commands events db) :
    (toSource name db).outboxRows = .ok events := by
  rw [Migrate.outboxRows_toSource, h.outbox]
  congr 1
  refine List.ext_getElem? fun i => ?_
  rw [List.getElem?_map, List.getElem?_mapIdx, Option.map_map]
  exact Option.map_id_apply

/-- The events of a destination are as published as those of the source. -/
theorem Holds.preflightSource (h : Holds name states commands events db)
    (hpub : ∀ r ∈ events, r.publishedAt ≠ none) :
    Migrate.preflightSource (toSource name db) = .ok () := by
  refine preflightSource_ok.2 fun c hc => ?_
  obtain ⟨r, hr, rfl⟩ := List.mem_map.1 hc
  refine hpub (eventOfEntry r) ?_
  have hread := h.outboxRows_toSource
  rw [Migrate.outboxRows_toSource] at hread
  rw [← Except.ok.inj hread]
  exact List.mem_map_of_mem hr

end Stored

/-! ### The parts of a split -/

/-- The destinations as sources. -/
def partSources (destinations : List String) (parts : Parts) : List Source :=
  (List.range destinations.length).map fun i => toSource (targetName destinations i) (parts i)

section Parts

variable {hash : String → UInt64} {destinations : List String} {states : List StateRow}
  {commands : List IdempotencyRow} {events : List OutboxRow} {parts : Parts} {l : List Source}

/-- With one destination it gets everything. -/
theorem holds_single {operation : Operation} (hop : operation ≠ .split) {t : String}
    (h : writeDestinations hash operation [t] states commands events = .ok parts) :
    Holds t states commands events (parts 0) := by
  have hall : ∀ key, goesTo hash operation [t] 0 key = true := by
    intro key
    cases operation with
    | split => exact absurd rfl hop
    | rename => rfl
    | merge => rfl
  have hholds := writeDestinations_ok h 0
  simp only [hall, List.filter_true] at hholds
  exact hholds

/-- Together the parts have all rows, in whatever order they are listed. -/
theorem perm_parts {α β : Type} (hash : String → UInt64) (key : α → String) {f : Source → List α}
    {g : α → β} {rows : List α} (hn : 0 < destinations.length) (hnodup : rows.Nodup)
    (hpart : ∀ i, ((f (toSource (targetName destinations i) (parts i))).map g).Perm
      ((rows.filter fun r => goesTo hash .split destinations i (key r)).map g))
    (hl : l.Perm (partSources destinations parts)) : ((l.flatMap f).map g).Perm (rows.map g) := by
  have hroute : ∀ r ∈ rows, bucketForKey hash (key r) destinations.length < destinations.length :=
    fun r _ => Nat.mod_lt _ hn
  calc (l.flatMap f).map g
      |>.Perm (((partSources destinations parts).flatMap f).map g) := (hl.flatMap_right f).map g
    _ = (List.range destinations.length).flatMap fun i =>
          (f (toSource (targetName destinations i) (parts i))).map g := by
        rw [partSources, List.flatMap_map, List.map_flatMap]
    _ |>.Perm ((List.range destinations.length).flatMap fun i =>
          (rows.filter fun r => goesTo hash .split destinations i (key r)).map g) :=
        List.Perm.flatMap_left _ fun i _ => hpart i
    _ = ((List.range destinations.length).flatMap fun i =>
          rows.filter fun r => goesTo hash .split destinations i (key r)).map g := List.map_flatMap.symm
    _ |>.Perm (rows.map g) := (perm_flatMap_filter hnodup hroute).map g

variable (hn : 0 < destinations.length) (hc : Collected states commands events)
  (hparts : ∀ i, Holds (targetName destinations i)
    (states.filter fun s => goesTo hash .split destinations i s.key)
    (commands.filter fun r => goesTo hash .split destinations i r.key)
    (events.filter fun r => goesTo hash .split destinations i r.key) (parts i))
  (hl : l.Perm (partSources destinations parts))

include hn hc hparts hl

/-- The merge of the parts collects the states again. -/
theorem collectStates_parts :
    ∃ merged conflicts, collectStates l = .ok (merged, conflicts) ∧
      merged.map StateRow.stored = states.map StateRow.stored ∧
      merged.Pairwise fun a b => a.name < b.name := by
  have hread : ∀ src ∈ l, src.states = .ok (src.states.toOption.getD []) := by
    intro src hsrc
    obtain ⟨i, -, rfl⟩ := List.mem_map.1 (hl.mem_iff.1 hsrc)
    obtain ⟨rows, hrows, -⟩ := (hparts i).states_toSource
    rw [hrows]
    rfl
  have hperm : ((l.flatMap fun src => src.states.toOption.getD []).map StateRow.stored).Perm
      (states.map StateRow.stored) := by
    refine perm_parts hash StateRow.key hn (hc.nodup_states.of_map _) (fun i => ?_) hl
    obtain ⟨rows, hrows, hperm⟩ := (hparts i).states_toSource
    rw [hrows]
    exact hperm
  have hpk : ∀ l : List StateRow, l.map StateRow.pk = (l.map StateRow.stored).map StateRow.pk :=
    fun l => by rw [List.map_map]; rfl
  have hnodup : ((l.flatMap fun src => src.states.toOption.getD []).map StateRow.pk).Nodup := by
    rw [hpk, (hperm.map _).nodup_iff, ← hpk]
    exact hc.nodup_states
  obtain ⟨conflicts, hok⟩ := collectStates_of_readAll (readAll_of_ok hread)
  refine ⟨_, conflicts, hok, ?_, sorted_keptStates _⟩
  have hsorted : (states.map StateRow.stored).Pairwise fun a b => a.name < b.name :=
    List.pairwise_map.2 hc.states
  refine eq_of_sorted (List.pairwise_map.2 (sorted_keptStates _)) hsorted fun x => ?_
  exact (((perm_keptStates hnodup).map _).trans hperm).mem_iff

/-- The merge of the parts collects the commands again. -/
theorem collectIdempotency_parts :
    ∃ merged, collectIdempotency l = .ok (merged, 0) ∧
      merged.map IdempotencyRow.stored = commands.map IdempotencyRow.stored ∧
      merged.Pairwise fun a b => a.idempotencyKey < b.idempotencyKey := by
  have hperm : ((l.flatMap Source.idempotencyRows).map IdempotencyRow.stored).Perm
      (commands.map IdempotencyRow.stored) :=
    perm_parts hash IdempotencyRow.key hn ((nodup_map_of_sorted hc.commands).of_map _)
      (fun i => List.Perm.of_eq (hparts i).idempotencyRows_toSource) hl
  have hkey : ∀ l : List IdempotencyRow, l.map IdempotencyRow.idempotencyKey =
      (l.map IdempotencyRow.stored).map IdempotencyRow.idempotencyKey :=
    fun l => by rw [List.map_map]; rfl
  have hnodup : ((l.flatMap Source.idempotencyRows).map IdempotencyRow.idempotencyKey).Nodup := by
    rw [hkey, (hperm.map _).nodup_iff, ← hkey]
    exact nodup_map_of_sorted hc.commands
  obtain ⟨merged, hok, hmerged⟩ := collectIdempotency_of_nodup hnodup
  have hmerged' := (collectIdempotency_ok hok).2
  refine ⟨merged, hok, ?_, hmerged'⟩
  have hsorted : (commands.map IdempotencyRow.stored).Pairwise fun a b =>
      a.idempotencyKey < b.idempotencyKey := List.pairwise_map.2 hc.commands
  refine eq_of_sorted (List.pairwise_map.2 hmerged') hsorted fun x => ?_
  exact ((hmerged.map _).trans hperm).mem_iff

/-- The merge of the parts collects the events again. -/
theorem collectOutbox_parts : collectOutbox l = .ok events := by
  have hread : ∀ src ∈ l, src.outboxRows = .ok (src.outboxRows.toOption.getD []) := by
    intro src hsrc
    obtain ⟨i, -, rfl⟩ := List.mem_map.1 (hl.mem_iff.1 hsrc)
    rw [(hparts i).outboxRows_toSource]
    rfl
  have hperm : ((l.flatMap fun src => src.outboxRows.toOption.getD []).map id).Perm (events.map id) := by
    refine perm_parts hash OutboxRow.key hn ((nodup_map_of_sorted hc.events).of_map _)
      (fun i => ?_) hl
    rw [(hparts i).outboxRows_toSource]
    rfl
  rw [List.map_id, List.map_id] at hperm
  obtain ⟨merged, hok, hmerged⟩ := collectOutbox_of_nodup (readAll_of_ok hread)
    ((hperm.map OutboxRow.eventId).nodup_iff.2 (nodup_map_of_sorted hc.events))
  obtain ⟨_, -, -, hsorted⟩ := collectOutbox_ok hok
  rw [hok, eq_of_sorted hsorted hc.events fun x => (hmerged.trans hperm).mem_iff]

end Parts

/-- The collection of a source keeps all rows of a table in which no two rows share the key that rows
are collected by. -/
structure KeepsDistinct (s : Source) (states : List StateRow) (commands : List IdempotencyRow)
    (events : List OutboxRow) : Prop where
  states : ∀ rows, s.states = .ok rows → (rows.map StateRow.pk).Nodup → states.Perm rows
  commands : (s.idempotencyRows.map IdempotencyRow.idempotencyKey).Nodup →
    commands.Perm s.idempotencyRows
  events : ∀ rows, s.outboxRows = .ok rows → (rows.map OutboxRow.eventId).Nodup → events.Perm rows

/-- Of the rows that share a key the collection of a source keeps one: the newest state, the first command
and the first event. -/
structure KeepsOneOfEach (s : Source) (states : List StateRow) (commands : List IdempotencyRow)
    (events : List OutboxRow) : Prop where
  states : ∀ rows, s.states = .ok rows →
    Representatives StateRow.pk rows states ∧ ∀ x ∈ states, Greatest rows x
  commands : Representatives IdempotencyRow.idempotencyKey s.idempotencyRows commands ∧
    FirstOfEach IdempotencyRow.idempotencyKey sameIdempotency s.idempotencyRows commands
  events : ∀ rows, s.outboxRows = .ok rows →
    Representatives OutboxRow.eventId rows events ∧ FirstOfEach OutboxRow.eventId sameEvent rows events

section Single

variable {s : Source} {states : List StateRow} {commands : List IdempotencyRow}
  {events : List OutboxRow} {conflicts deduplicated : ℕ}

theorem keepsDistinct_of_ok (hstates : collectStates [s] = .ok (states, conflicts))
    (hcommands : collectIdempotency [s] = .ok (commands, deduplicated))
    (hevents : collectOutbox [s] = .ok events) : KeepsDistinct s states commands events where
  states rows hread hnodup := by
    obtain ⟨rows', hread', rfl⟩ := collectStates_ok hstates
    obtain rfl := Except.ok.inj (hread.symm.trans (readAll_singleton.1 hread'))
    exact perm_keptStates hnodup
  commands hnodup := by
    have hrows : [s].flatMap Source.idempotencyRows = s.idempotencyRows := List.flatMap_singleton _ _
    obtain ⟨kept, hok, hperm⟩ := @collectIdempotency_of_nodup [s] (hrows.symm ▸ hnodup)
    obtain ⟨rfl, -⟩ := Prod.mk.inj (Except.ok.inj (hok.symm.trans hcommands))
    rwa [hrows] at hperm
  events rows hread hnodup := by
    obtain ⟨kept, hok, hperm⟩ := collectOutbox_of_nodup (readAll_singleton.2 hread) hnodup
    obtain rfl := Except.ok.inj (hok.symm.trans hevents)
    exact hperm

theorem keepsOneOfEach_of_ok (hstates : collectStates [s] = .ok (states, conflicts))
    (hcommands : collectIdempotency [s] = .ok (commands, deduplicated))
    (hevents : collectOutbox [s] = .ok events) : KeepsOneOfEach s states commands events where
  states rows hread := by
    obtain ⟨rows', hread', rfl⟩ := collectStates_ok hstates
    obtain rfl := Except.ok.inj (hread.symm.trans (readAll_singleton.1 hread'))
    have hnames : ([s].map Source.name).Nodup := List.nodup_singleton s.name
    exact ⟨representatives_keptStates rows, fun x hx => greatest_of_mem_keptStates hnames hread' hx⟩
  commands := by
    obtain ⟨hfirst, hsorted⟩ := collectIdempotency_ok hcommands
    rw [List.flatMap_singleton] at hfirst
    exact ⟨hfirst.representatives (nodup_map_of_sorted hsorted), hfirst⟩
  events rows hread := by
    obtain ⟨rows', hread', hfirst, hsorted⟩ := collectOutbox_ok hevents
    obtain rfl := Except.ok.inj (hread.symm.trans (readAll_singleton.1 hread'))
    exact ⟨hfirst.representatives (nodup_map_of_sorted hsorted), hfirst⟩

/-- The events that are collected of a published source are published. -/
theorem published_of_collected (hevents : collectOutbox [s] = .ok events)
    (hpublished : preflightSource s = .ok ()) {r : OutboxRow} (hr : r ∈ events) :
    r.publishedAt ≠ none := by
  obtain ⟨rows, hread, hfirst, -⟩ := collectOutbox_ok hevents
  exact published_of_preflight hpublished (readAll_singleton.1 hread) (hfirst.mem_rows hr)

end Single

/-- A payload row. -/
def olderPayload : PayloadRow := ⟨"user", "1", 1, [123, 125], "2026-01-01 00:00:00"⟩

/-- A tombstone of the same key, with a greater version. -/
def newerTombstone : TombstoneRow := ⟨"user", "1", 2, "2026-01-02 00:00:00", none⟩

/-- A store that has both. -/
def shadowedStore : Database :=
  { ensureSchema "main" with
    payload := Function.update (fun _ => none) (tableName "main")
      (some ⟨[olderPayload], List.nodup_singleton _⟩)
    tombstones := ⟨[newerTombstone], List.nodup_singleton _⟩ }

end Migrate

end Ixmati
