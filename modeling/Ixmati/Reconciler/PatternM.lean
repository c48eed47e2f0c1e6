import Ixmati.Projector.Feed
import Ixmati.Projector.Loop
import Ixmati.Projector.Sendable
import Ixmati.Reconciler.Rebuild

/-!
# Pattern M online and offline

The entries of a projection of pattern M are made twice: by `process_m_async` from the events of the
source stores, and by `rebuild_pattern_m` from their payload tables.  Both write one entry for a source
row, so the entries are the same if each row writes to a place of its own (`Regular.separate`), what it
last wrote is what it still says (`Regular.lasting`), both copy the same fields of it
(`Regular.covered`), nothing else is there (`Regular.foreign`, `Regular.fresh`) and the keys can be sent
to the cache (`Regular.sendable`).

`updates_online` and `updates_offline` say which updates of the cache the two make; the last update of a
key decides (`settle_eq`).
-/

namespace Ixmati

open WriteEngine History Ixmati.System Projector

open Cache (Entries Script Word)

namespace Reconciler

variable {D : Deps} {proj : ProjectionConfig} {copy : List CopyField} {evs : List EventEnvelope}
  {event : EventEnvelope} {d : CopyField} {s : String} {rows : String → List PayloadRow}

/-! ### What is copied -/

/-- The definition lists a field that the document has. -/
def Finds (d : CopyField) (payload : Json) : Prop := ∃ f ∈ d.fields, (payload.get? f).isSome

instance (d : CopyField) (payload : Json) : Decidable (Finds d payload) :=
  inferInstanceAs (Decidable (∃ f ∈ d.fields, _))

/-- Fields of the event are copied online. -/
def Copies (copy : List CopyField) (event : EventEnvelope) : Prop :=
  ∃ d ∈ copy, Concerns d event ∧ Finds d event.payload

instance (copy : List CopyField) (event : EventEnvelope) : Decidable (Copies copy event) :=
  inferInstanceAs (Decidable (∃ d ∈ copy, _))

/-- The last definition of the store and the entity of the event that finds a field: its document is
the one that stays offline. -/
def definitionOf (copy : List CopyField) (event : EventEnvelope) : Option CopyField :=
  lastWhere (fun d => decide (d.sourceStore = event.store ∧ d.sourceEntity = event.entity ∧
    Finds d event.payload)) copy

/-- That definition lists all fields that are copied online. -/
def Covered (copy : List CopyField) (event : EventEnvelope) : Prop :=
  ∃ d, definitionOf copy event = some d ∧
    ∀ d' ∈ copy, Concerns d' event → ∀ f ∈ d'.fields, (event.payload.get? f).isSome → f ∈ d.fields

theorem isEmpty_iff_lookup (fields : List (String × Json)) :
    fields.isEmpty = true ↔ ∀ f, fields.lookup f = none := by
  cases fields with
  | nil => simp
  | cons p fields =>
    refine iff_of_false (by simp) fun h => ?_
    have hp := h p.1
    rw [Json.lookup_cons, if_pos rfl] at hp
    cases hp

theorem isEmpty_copyFields (payload : Json) (d : CopyField) :
    (copyFields payload d.fields []).isEmpty = true ↔ ¬ Finds d payload := by
  rw [isEmpty_iff_lookup]
  simp only [lookup_copyFields, List.lookup_nil, Option.or_none, ite_eq_right_iff, Finds, not_exists,
    not_and, Option.not_isSome_iff_eq_none]

theorem isEmpty_copiedOnline (copy : List CopyField) (event : EventEnvelope) :
    (copiedOnline copy event).isEmpty = true ↔ ¬ Copies copy event := by
  rw [isEmpty_iff_lookup]
  simp only [lookup_copiedOnline, ite_eq_right_iff, Copies, Finds]
  constructor
  · rintro h ⟨d, hd, hcon, f, hf, hsome⟩
    rw [h f ⟨d, hd, hcon, hf⟩] at hsome
    cases hsome
  · rintro h f ⟨d, hd, hcon, hf⟩
    by_contra hne
    exact h ⟨d, hd, hcon, f, hf, Option.isSome_iff_ne_none.2 hne⟩

theorem copied_eq_of_covered (hd : definitionOf copy event = some d)
    (hall : ∀ d' ∈ copy, Concerns d' event → ∀ f ∈ d'.fields, (event.payload.get? f).isSome →
      f ∈ d.fields) :
    copiedOnline copy event = copyFields event.payload d.fields [] := by
  obtain ⟨hmem, hprop⟩ := mem_of_lastWhere hd
  rw [decide_eq_true_iff] at hprop
  refine Json.eq_of_lookup (ordered_copiedOnline ..) (ordered_copyFields _ _ List.Pairwise.nil)
    fun f => ?_
  rw [lookup_copiedOnline, lookup_copyFields, List.lookup_nil, Option.or_none]
  cases hf : event.payload.get? f with
  | none => simp
  | some value =>
    have hiff : (∃ d' ∈ copy, Concerns d' event ∧ f ∈ d'.fields) ↔ f ∈ d.fields := by
      constructor
      · rintro ⟨d', hd', hcon, hf'⟩
        exact hall d' hd' hcon f hf' (by simp [hf])
      · intro hf'
        exact ⟨d, hmem, Or.inl hprop.1, hf'⟩
    simp only [hiff]

/-! ### The updates of the cache -/

theorem updates_online (hsize : ∀ j, (D.toVec j).length < 2 ^ 63) (hc : proj.copyFields = some copy)
    (hsend : ∀ event ∈ evs, Copies copy event → SendableM D proj event) (e : Entries) :
    evs.foldl (afterM D proj) e = settle e (evs.filterMap (writeM D proj copy)) := by
  rw [← foldl_settle]
  refine List.foldl_ext _ _ _ fun e event hev => afterM_eq hsize hc fun hne => hsend event hev ?_
  by_contra hno
  rw [(isEmpty_copiedOnline copy event).2 hno] at hne
  cases hne

/-- What a row of a definition writes. -/
def writeRow (D : Deps) (proj : ProjectionConfig) (d : CopyField) (row : PayloadRow) :
    Option (String × Option Bytes) :=
  let payload := (D.fromSlice row.payload).getD .null
  let targetKey := eventKeyFromValue D payload proj.targetKey row.key
  if (copyFields payload d.fields []).isEmpty then none
  else
    some (projectionKey proj targetKey,
      some (materialized D proj.targetKey targetKey (copyFields payload d.fields [])))

/-- What the rows of a definition write. -/
def writesOf (D : Deps) (proj : ProjectionConfig) (rows : String → List PayloadRow) (d : CopyField) :
    List (String × Option Bytes) :=
  ((rows d.sourceStore).filter fun row => decide (row.entity = d.sourceEntity)).filterMap
    (writeRow D proj d)

/-- The loop over the rows makes their writes, on a map. -/
theorem exec_rows (d : CopyField) (e : Entries) (count : ℕ) (l : List PayloadRow) :
    ((l.foldlM (rebuildRowM D proj d.fields) count).exec Cache.ideal e).2 =
      settle e (l.filterMap (writeRow D proj d)) := by
  induction l generalizing e count with
  | nil => rfl
  | cons row l ih =>
    rw [List.foldlM_cons, Prog.exec_bind, ih]
    unfold rebuildRowM
    by_cases hempty :
        (copyFields ((D.fromSlice row.payload).getD .null) d.fields []).isEmpty = true
    · rw [List.filterMap_cons_none (by simp only [writeRow]; rw [if_pos hempty])]
      simp only [hempty, if_true]
      rfl
    · rw [List.filterMap_cons_some (by simp only [writeRow]; rw [if_neg hempty])]
      simp only [hempty]
      rfl

theorem asks_rows (hsize : ∀ j, (D.toVec j).length < 2 ^ 63) {d : CopyField} {l : List PayloadRow}
    (h : ∀ u ∈ l.filterMap (writeRow D proj d), Word u.1.toList) (e : Entries) (count : ℕ) :
    (l.foldlM (rebuildRowM D proj d.fields) count).Asks Cache.Command.WellFormed Cache.ideal e := by
  induction l generalizing e count with
  | nil => trivial
  | cons row l ih =>
    rw [List.foldlM_cons, Prog.asks_bind]
    refine ⟨?_, ih (fun u hu => h u ?_) _ _⟩
    · unfold rebuildRowM
      by_cases hempty :
          (copyFields ((D.fromSlice row.payload).getD .null) d.fields []).isEmpty = true
      · simp only [hempty, if_true]
        trivial
      · simp only [hempty, Bool.false_eq_true, if_false]
        rw [Prog.asks_bind, Script.asks_setProjection]
        refine ⟨⟨?_, hsize _⟩, trivial⟩
        exact h (_, some _) (List.mem_filterMap.2 ⟨row, List.mem_cons_self, if_neg hempty⟩)
    · rw [List.mem_filterMap] at hu ⊢
      obtain ⟨r, hr, hru⟩ := hu
      exact ⟨r, List.mem_cons_of_mem _ hr, hru⟩

theorem exec_rebuildDefinitions (copy : List CopyField) (e : Entries) (count : ℕ) :
    ((rebuildDefinitions D proj (fun s => .ok (rows s)) copy count).exec Cache.ideal e).2 =
      settle e (copy.flatMap (writesOf D proj rows)) := by
  induction copy generalizing e count with
  | nil => rfl
  | cons d copy ih =>
    rw [List.flatMap_cons, settle_append, rebuildDefinitions]
    dsimp only
    rw [Prog.exec_bind, ih, exec_rows]
    rfl

theorem asks_rebuildDefinitions (hsize : ∀ j, (D.toVec j).length < 2 ^ 63)
    (h : ∀ u ∈ copy.flatMap (writesOf D proj rows), Word u.1.toList) (e : Entries) (count : ℕ) :
    (rebuildDefinitions D proj (fun s => .ok (rows s)) copy count).Asks Cache.Command.WellFormed
      Cache.ideal e := by
  induction copy generalizing e count with
  | nil => trivial
  | cons d copy ih =>
    rw [List.flatMap_cons] at h
    rw [rebuildDefinitions]
    dsimp only
    rw [Prog.asks_bind]
    exact ⟨asks_rows hsize (fun u hu => h u (List.mem_append_left _ hu)) e count,
      ih (fun u hu => h u (List.mem_append_right _ hu)) _ _⟩

theorem updates_offline (hsize : ∀ j, (D.toVec j).length < 2 ^ 63) (hc : proj.copyFields = some copy)
    (h : ∀ u ∈ copy.flatMap (writesOf D proj rows), Word u.1.toList) (e : Entries) :
    rebuiltM D proj (fun s => .ok (rows s)) e = settle e (copy.flatMap (writesOf D proj rows)) := by
  have hrebuild : rebuildPatternM D proj (fun s => .ok (rows s)) =
      rebuildDefinitions D proj (fun s => .ok (rows s)) copy 0 := by
    unfold rebuildPatternM
    simp only [hc]
  rw [rebuiltM, hrebuild, Script.exec_wire (asks_rebuildDefinitions hsize h e 0),
    exec_rebuildDefinitions]

/-! ### The same entries -/

/-- The events of the source stores, each store's in the order of its outbox. -/
structure Feeds (D : Deps) (stores : List String) (bs : String → List Batch)
    (evs : List EventEnvelope) : Prop where
  only : ∀ event ∈ evs, event.store ∈ stores
  each : ∀ s ∈ stores, evs.filter (fun event => decide (event.store = s)) = feed D (run D s (bs s))

/-- The entries of the projection are the same online, from an empty cache, and offline. -/
def AgreesM (D : Deps) (proj : ProjectionConfig) (evs : List EventEnvelope)
    (rows : String → List PayloadRow) (prior : Entries) : Prop :=
  ∀ k, evs.foldl (afterM D proj) (fun _ => none) (projectionKey proj k) =
    rebuiltM D proj (fun s => .ok (rows s)) prior (projectionKey proj k)

/-- What is asked of the events, the rows and the cache. -/
structure Regular (D : Deps) (proj : ProjectionConfig) (copy : List CopyField)
    (evs : List EventEnvelope) (rows : String → List PayloadRow) (prior : Entries) : Prop where
  /-- A row that was copied is not deleted afterwards, keeps its target and is copied to the end. -/
  lasting : ∀ event ∈ evs, Copies copy event → ∃ last, newest evs (versionKey event) = some last ∧
    isDeleted last = false ∧ Copies copy last ∧
    extractTargetKey D last proj.targetKey = extractTargetKey D event proj.targetKey
  /-- Two rows are not copied to one target. -/
  separate : ∀ event ∈ evs, ∀ event' ∈ evs, Copies copy event → Copies copy event' →
    extractTargetKey D event proj.targetKey = extractTargetKey D event' proj.targetKey →
    versionKey event = versionKey event'
  /-- One definition, of the store and the entity of the row, lists all that is copied of it. -/
  covered : ∀ event ∈ evs, newest evs (versionKey event) = some event → Copies copy event →
    Covered copy event
  /-- Definitions of other stores than the source stores find nothing. -/
  foreign : ∀ d ∈ copy, d.sourceStore ∉ proj.sourceStores → ∀ row ∈ rows d.sourceStore,
    row.entity = d.sourceEntity → ¬ Finds d ((D.fromSlice row.payload).getD .null)
  /-- Before the rebuild there are no entries but those of targets of the events. -/
  fresh : ∀ k, prior (projectionKey proj k) ≠ none →
    ∃ event ∈ evs, Copies copy event ∧ extractTargetKey D event proj.targetKey = k
  /-- The keys of the entries can stand in a line of the cache protocol. -/
  sendable : ∀ event ∈ evs, Copies copy event → SendableM D proj event

theorem any_writeM (k : String) (event : EventEnvelope) :
    ((writeM D proj copy event).any fun u => decide (u.1 = projectionKey proj k)) = true ↔
      Copies copy event ∧ extractTargetKey D event proj.targetKey = k := by
  unfold writeM
  by_cases hc : Copies copy event
  · rw [if_neg fun h => (isEmpty_copiedOnline copy event).1 h hc]
    simp only [Option.any_some, decide_eq_true_eq, hc, true_and]
    exact ⟨projectionKey_inj, fun h => by rw [h]⟩
  · rw [if_pos ((isEmpty_copiedOnline copy event).2 hc)]
    simp [hc]

/-- What a row writes, by the event that it shows. -/
theorem writeRow_of_holds {row : PayloadRow} (h : Holds D row event) (d : CopyField) :
    writeRow D proj d row =
      if Finds d event.payload then
        some (projectionKey proj (extractTargetKey D event proj.targetKey),
          some (materialized D proj.targetKey (extractTargetKey D event proj.targetKey)
            (copyFields event.payload d.fields [])))
      else none := by
  have htarget : eventKeyFromValue D event.payload proj.targetKey row.key =
      extractTargetKey D event proj.targetKey := by
    rw [← h.key]
    rfl
  unfold writeRow
  simp only [h.payload, Option.getD_some, htarget]
  by_cases hf : Finds d event.payload
  · rw [if_neg fun he => (isEmpty_copyFields ..).1 he hf, if_pos hf]
  · rw [if_pos ((isEmpty_copyFields ..).2 hf), if_neg hf]

section Agreement

variable {prior : Entries} {bs : String → List Batch}
  (hshown : ∀ s ∈ proj.sourceStores,
    Shown D s (run D s (bs s)).db (evs.filter fun event => decide (event.store = s)))
  (honly : ∀ event ∈ evs, event.store ∈ proj.sourceStores)
  (hscan : ∀ s ∈ proj.sourceStores, Scans (run D s (bs s)).db s (rows s))
  (hreg : Regular D proj copy evs rows prior)

include hshown hscan hreg in
/-- A row that a definition copies shows an event that is copied to the same place. -/
theorem exists_event_of_mem_writesOf {u : String × Option Bytes} (hd : d ∈ copy)
    (hu : u ∈ writesOf D proj rows d) :
    ∃ event ∈ evs, newest evs (versionKey event) = some event ∧
      d.sourceStore = event.store ∧ d.sourceEntity = event.entity ∧ Finds d event.payload ∧
      u = (projectionKey proj (extractTargetKey D event proj.targetKey),
        some (materialized D proj.targetKey (extractTargetKey D event proj.targetKey)
          (copyFields event.payload d.fields []))) := by
  unfold writesOf at hu
  obtain ⟨row, hrow, hwrite⟩ := List.mem_filterMap.1 hu
  rw [List.mem_filter, decide_eq_true_eq] at hrow
  by_cases hs : d.sourceStore ∈ proj.sourceStores
  · obtain ⟨event, hev, hholds⟩ := (hshown _ hs).exists_event (hscan _ hs) hrow.1
    obtain ⟨hmem, hkey⟩ := mem_of_newest hev
    rw [writeRow_of_holds hholds] at hwrite
    split_ifs at hwrite with hf
    refine ⟨event, hmem, by rw [hkey, hev], ?_, ?_, hf, by simpa using hwrite.symm⟩
    · simpa [versionKey] using (congrArg Prod.fst hkey).symm
    · rw [hholds.entity, hrow.2]
  · have hno := hreg.foreign d hd hs row hrow.1 hrow.2
    unfold writeRow at hwrite
    simp only [(isEmpty_copyFields ..).2 hno, if_true] at hwrite
    cases hwrite

include hshown hscan honly in
/-- A row whose last event stays is copied by each definition of it that finds a field. -/
theorem mem_writesOf (hmem : event ∈ evs) (hev : newest evs (versionKey event) = some event)
    (hdel : isDeleted event = false) (hs : d.sourceStore = event.store)
    (he : d.sourceEntity = event.entity) (hf : Finds d event.payload) :
    (projectionKey proj (extractTargetKey D event proj.targetKey),
      some (materialized D proj.targetKey (extractTargetKey D event proj.targetKey)
        (copyFields event.payload d.fields []))) ∈ writesOf D proj rows d := by
  have hsource := honly event hmem
  obtain ⟨row, hrow, hholds⟩ := (hshown _ hsource).exists_row (hscan _ hsource) hev hdel
  refine List.mem_filterMap.2 ⟨row, List.mem_filter.2 ⟨by rwa [hs], ?_⟩, ?_⟩
  · rw [decide_eq_true_eq, he, hholds.entity]
  · rw [writeRow_of_holds hholds, if_pos hf]

include hreg in
/-- Online, the last event that is copied to a target is the last one on its row. -/
theorem newest_of_lastWhere {k : String}
    (hlast : lastWhere (fun event => decide (Copies copy event ∧
      extractTargetKey D event proj.targetKey = k)) evs = some event) :
    newest evs (versionKey event) = some event ∧ isDeleted event = false := by
  obtain ⟨hmem, hprop⟩ := mem_of_lastWhere hlast
  rw [decide_eq_true_iff] at hprop
  obtain ⟨last, hnew, hdel, hcopies, htarget⟩ := hreg.lasting event hmem hprop.1
  have hlast' := lastWhere_of_imp (p := fun event => decide (Copies copy event ∧
    extractTargetKey D event proj.targetKey = k)) (fun x hx hpx => ?_) hnew
    (by simp [hcopies, htarget, hprop.2])
  · rw [hlast, Option.some.injEq] at hlast'
    subst hlast'
    exact ⟨hnew, hdel⟩
  · rw [decide_eq_true_iff] at hpx ⊢
    exact hreg.separate x hx event hmem hpx.1 hprop.1 (hpx.2.trans hprop.2.symm)

include hshown hscan honly hreg in
/-- Offline, the document of the target is the one of the definition that covers the event. -/
theorem lastWhere_writesOf (hmem : event ∈ evs) (hnew : newest evs (versionKey event) = some event)
    (hdel : isDeleted event = false) (hd : definitionOf copy event = some d) :
    lastWhere (fun u => decide (u.1 =
        projectionKey proj (extractTargetKey D event proj.targetKey)))
      (copy.flatMap (writesOf D proj rows)) =
      some (projectionKey proj (extractTargetKey D event proj.targetKey),
        some (materialized D proj.targetKey (extractTargetKey D event proj.targetKey)
          (copyFields event.payload d.fields []))) := by
  obtain ⟨hdmem, hprop⟩ := mem_of_lastWhere hd
  rw [decide_eq_true_iff] at hprop
  have hcopies : Copies copy event := ⟨d, hdmem, Or.inl hprop.1, hprop.2.2⟩
  -- an update of this key by a definition comes from the row of the event
  have hsame : ∀ d' ∈ copy, ∀ u ∈ writesOf D proj rows d',
      u.1 = projectionKey proj (extractTargetKey D event proj.targetKey) →
      d'.sourceStore = event.store ∧ d'.sourceEntity = event.entity ∧ Finds d' event.payload ∧
      u = (projectionKey proj (extractTargetKey D event proj.targetKey),
        some (materialized D proj.targetKey (extractTargetKey D event proj.targetKey)
          (copyFields event.payload d'.fields []))) := by
    intro d' hd' u hu hkey
    obtain ⟨x, hx, hxnew, hxs, hxe, hxf, rfl⟩ :=
      exists_event_of_mem_writesOf hshown hscan hreg hd' hu
    have hkeys := hreg.separate x hx event hmem ⟨d', hd', Or.inl hxs, hxf⟩ hcopies
      (projectionKey_inj hkey)
    rw [hkeys, hnew, Option.some.injEq] at hxnew
    subst hxnew
    exact ⟨hxs, hxe, hxf, rfl⟩
  have hdef : lastWhere (fun d' => (writesOf D proj rows d').any fun u => decide (u.1 =
      projectionKey proj (extractTargetKey D event proj.targetKey))) copy = some d := by
    rw [← hd, definitionOf]
    refine lastWhere_congr fun d' hd' => ?_
    rw [Bool.eq_iff_iff, List.any_eq_true, decide_eq_true_iff]
    constructor
    · rintro ⟨u, hu, hkey⟩
      obtain ⟨hs, he, hf, -⟩ := hsame d' hd' u hu (of_decide_eq_true hkey)
      exact ⟨hs, he, hf⟩
    · rintro ⟨hs, he, hf⟩
      exact ⟨_, mem_writesOf hshown honly hscan hmem hnew hdel hs he hf, by simp⟩
  rw [lastWhere_flatMap, hdef, Option.bind_some]
  have hu := mem_writesOf hshown honly hscan hmem hnew hdel hprop.1 hprop.2.1 hprop.2.2
  cases hlast : lastWhere (fun u => decide (u.1 =
      projectionKey proj (extractTargetKey D event proj.targetKey))) (writesOf D proj rows d) with
  | none => exact absurd (by simp) (lastWhere_eq_none.1 hlast _ hu)
  | some u =>
    obtain ⟨hu', hkey⟩ := mem_of_lastWhere hlast
    obtain ⟨-, -, -, rfl⟩ := hsame d hdmem u hu' (of_decide_eq_true hkey)
    rfl

end Agreement

/-- **Pattern M, online and offline.**  Whatever commands the source stores have processed, and in
whatever order the projector gets the events of different stores, the entries of a projection of
pattern M are those that the reconciler makes from the payload tables, provided the history is
regular. -/
theorem projections_agree (D : Deps) (registry : ProjectionRegistry) (proj : ProjectionConfig)
    (bs : String → List Batch) (evs : List EventEnvelope) (rows : String → List PayloadRow)
    (prior : Entries) (hvalid : registry.validate = .ok ()) (hproj : proj ∈ registry.projections)
    (hpattern : proj.pattern = .M)
    (hstore : ∀ s ∈ proj.sourceStores, ∀ b ∈ bs s, ∀ cmd ∈ b.commands, cmd.store = s)
    (hread : ∀ s ∈ proj.sourceStores, ∀ i it, (run D s (bs s)).applied[i]? = some it →
      ReadsBack D (eventAt i it))
    (hfeeds : Feeds D proj.sourceStores bs evs)
    (hscan : ∀ s ∈ proj.sourceStores, Scans (run D s (bs s)).db s (rows s))
    (hsize : ∀ j, (D.toVec j).length < 2 ^ 63)
    (hreg : Regular D proj (proj.copyFields.getD []) evs rows prior) :
    AgreesM D proj evs rows prior := by
  obtain ⟨copy, hcopy⟩ := (ProjectionRegistry.sound_of_validate hvalid hproj).copies hpattern
  rw [hcopy, Option.getD_some] at hreg
  have hshown : ∀ s ∈ proj.sourceStores,
      Shown D s (run D s (bs s)).db (evs.filter fun event => decide (event.store = s)) := by
    intro s hs
    rw [hfeeds.each s hs]
    exact shown_run (hstore s hs) (hread s hs)
  have hoffline : ∀ u ∈ copy.flatMap (writesOf D proj rows), Word u.1.toList := by
    intro u hu
    obtain ⟨d, hd, hu⟩ := List.mem_flatMap.1 hu
    obtain ⟨event, hev, -, hs, -, hf, rfl⟩ := exists_event_of_mem_writesOf hshown hscan hreg hd hu
    obtain ⟨hname, hkey⟩ := hreg.sendable event hev ⟨d, hd, Or.inl hs, hf⟩
    exact word_projectionKey hname hkey
  intro k
  rw [updates_online hsize hcopy hreg.sendable, updates_offline hsize hcopy hoffline, settle_eq,
    settle_eq, lastWhere_filterMap,
    lastWhere_congr fun event _ => Bool.eq_iff_iff.2 ((any_writeM k event).trans
      (decide_eq_true_iff (p := Copies copy event ∧
        extractTargetKey D event proj.targetKey = k)).symm)]
  cases hlast : lastWhere (fun event => decide (Copies copy event ∧
      extractTargetKey D event proj.targetKey = k)) evs with
  | none =>
    have hno : ∀ event ∈ evs, Copies copy event → extractTargetKey D event proj.targetKey ≠ k :=
      fun event hev hc hk => lastWhere_eq_none.1 hlast event hev (by simp [hc, hk])
    have hoff : lastWhere (fun u => decide (u.1 = projectionKey proj k))
        (copy.flatMap (writesOf D proj rows)) = none := by
      refine lastWhere_eq_none.2 fun u hu hkey => ?_
      obtain ⟨d, hd, hu⟩ := List.mem_flatMap.1 hu
      obtain ⟨event, hev, -, hs, -, hf, rfl⟩ := exists_event_of_mem_writesOf hshown hscan hreg hd hu
      exact hno event hev ⟨d, hd, Or.inl hs, hf⟩ (projectionKey_inj (of_decide_eq_true hkey))
    have hprior : prior (projectionKey proj k) = none := by
      by_contra hne
      obtain ⟨event, hev, hc, hk⟩ := hreg.fresh k hne
      exact hno event hev hc hk
    rw [hoff, hprior]
    rfl
  | some event =>
    obtain ⟨hnew, hdel⟩ := newest_of_lastWhere hreg hlast
    obtain ⟨hmem, hprop⟩ := mem_of_lastWhere hlast
    rw [decide_eq_true_iff] at hprop
    obtain ⟨hc, rfl⟩ := hprop
    obtain ⟨d, hd, hall⟩ := hreg.covered event hmem hnew hc
    rw [lastWhere_writesOf hshown hfeeds.only hscan hreg hmem hnew hdel hd,
      ← copied_eq_of_covered hd hall, Option.bind_some, writeM,
      if_neg fun he => (isEmpty_copiedOnline copy event).1 he hc]
    rfl

/-! ### Runs to evaluate -/

/-- The names of the users. -/
def sampleProjection : ProjectionConfig where
  name := "user_names"
  pattern := .M
  sourceStores := ["main"]
  targetKey := "user_id"
  ttlSeconds := 60
  copyFields := some [⟨"main", "user", ["name"]⟩]

theorem regular_sampleBatches :
    Regular sampleFeedDeps sampleProjection (sampleProjection.copyFields.getD []) [sampleUserEvent]
      (sampleRows sampleBatches) (fun _ => none) := by
  have hnew : newest [sampleUserEvent] (versionKey sampleUserEvent) = some sampleUserEvent := by
    simp [newest, lastWhere]
  have hdef : definitionOf (sampleProjection.copyFields.getD []) sampleUserEvent =
      some ⟨"main", "user", ["name"]⟩ := rfl
  refine ⟨?_, ?_, ?_, ?_, fun k hk => absurd rfl hk, ?_⟩
  · intro event hev hc
    obtain rfl := List.mem_singleton.1 hev
    exact ⟨_, hnew, by decide, hc, rfl⟩
  · intro event hev event' hev' _ _ _
    rw [List.mem_singleton.1 hev, List.mem_singleton.1 hev']
  · intro event hev _ _
    obtain rfl := List.mem_singleton.1 hev
    refine ⟨_, hdef, fun d hd _ f hf _ => ?_⟩
    rw [List.mem_singleton.1 hd] at hf
    exact hf
  · intro d hd hs
    rw [List.mem_singleton.1 hd] at hs
    exact absurd (List.mem_singleton_self _) hs
  · intro event hev _
    rw [List.mem_singleton.1 hev]
    decide +kernel

theorem projections_agree_on_an_upsert :
    ProjectionRegistry.validate ⟨[sampleProjection]⟩ = .ok () ∧
    AgreesM sampleFeedDeps sampleProjection [sampleUserEvent] (sampleRows sampleBatches)
      (fun _ => none) := by
  have hvalid : ProjectionRegistry.validate ⟨[sampleProjection]⟩ = .ok () := by decide +kernel
  refine ⟨hvalid, projections_agree sampleFeedDeps ⟨[sampleProjection]⟩ sampleProjection
    (fun _ => sampleBatches) _ _ _ hvalid (List.mem_singleton_self _) rfl ?_ ?_ ?_ ?_
    (Deps.length_bounded _) regular_sampleBatches⟩
  · intro s hs
    rw [List.mem_singleton.1 hs]
    decide
  · intro s hs
    rw [List.mem_singleton.1 hs]
    exact readsBack_sampleBatches
  · refine ⟨fun event hev => ?_, fun s hs => ?_⟩
    · rw [List.mem_singleton.1 hev]
      exact List.mem_singleton_self _
    · rw [List.mem_singleton.1 hs, feed_sampleBatches]
      rfl
  · intro s hs
    rw [List.mem_singleton.1 hs]
    exact ⟨_, rfl, List.Perm.refl _⟩

/-- The entry of a user who was deleted stays online and is not made offline. -/
theorem deleted_row_stays_online :
    ¬ ∀ (D : Deps) (registry : ProjectionRegistry) (proj : ProjectionConfig)
        (bs : String → List Batch) (evs : List EventEnvelope) (rows : String → List PayloadRow)
        (prior : Entries), registry.validate = .ok () → proj ∈ registry.projections →
        proj.pattern = .M →
        (∀ s ∈ proj.sourceStores, ∀ b ∈ bs s, ∀ cmd ∈ b.commands, cmd.store = s) →
        (∀ s ∈ proj.sourceStores, ∀ i it, (run D s (bs s)).applied[i]? = some it →
          ReadsBack D (eventAt i it)) →
        Feeds D proj.sourceStores bs evs →
        (∀ s ∈ proj.sourceStores, Scans (run D s (bs s)).db s (rows s)) →
        (∀ j, (D.toVec j).length < 2 ^ 63) →
        AgreesM D proj evs rows prior := by
  intro h
  have hagrees := h sampleFeedDeps ⟨[sampleProjection]⟩ sampleProjection
    (fun _ => sampleUpsertAndDelete) [sampleUserEvent, sampleDeleteEvent]
    (sampleRows sampleUpsertAndDelete) (fun _ => none) (by decide +kernel)
    (List.mem_singleton_self _) rfl ?_ ?_ ?_ ?_ (Deps.length_bounded _) "1"
  · have honline : (([sampleUserEvent, sampleDeleteEvent].foldl
        (afterM sampleFeedDeps sampleProjection) (fun _ => none))
        (projectionKey sampleProjection "1")).isSome = true := by
      decide +kernel
    have hoffline : (rebuiltM sampleFeedDeps sampleProjection
        (fun s => .ok (sampleRows sampleUpsertAndDelete s)) (fun _ => none)
        (projectionKey sampleProjection "1")).isSome = false := by
      decide +kernel
    rw [hagrees, hoffline] at honline
    cases honline
  · intro s hs
    rw [List.mem_singleton.1 hs]
    decide
  · intro s hs
    rw [List.mem_singleton.1 hs]
    exact readsBack_sampleUpsertAndDelete
  · refine ⟨by decide, fun s hs => ?_⟩
    rw [List.mem_singleton.1 hs, feed_sampleUpsertAndDelete]
    rfl
  · intro s hs
    rw [List.mem_singleton.1 hs]
    exact ⟨_, rfl, List.Perm.refl _⟩

end Reconciler

end Ixmati
