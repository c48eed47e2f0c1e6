import Ixmati.Projector.PatternR
import Ixmati.Reconciler.Rebuild

/-!
# Pattern R online and offline

`rebuild_pattern_r` goes through the rows of the first source store, looks each reference up in the rows
of the other one, writes the entry and registers its target in the reverse index, which it has cleared
before.  `exec_rebuildEntity` puts this as operations on the cache, so that both sides register in the same
way (`Projector.Listed`).

A row that the reconciler reads shows the last event on it, and its entry is the one that the projector
leaves for that event (`Projector.finalEntry`).
-/

namespace Ixmati

open WriteEngine History Ixmati.System Projector

open Cache (Entries Script Word Plain Sendable)

namespace Reconciler

variable {D : Deps} {proj : ProjectionConfig} {s₁ : String} {others : List String}
  {rows : String → List PayloadRow}

/-! ### The entities of a store -/

theorem mem_insertEntity {entities : List (String × Json)} {key : String} {value : Json}
    {p : String × Json} :
    p ∈ insertEntity entities key value ↔ (p ∈ entities ∧ p.1 ≠ key) ∨ p = (key, value) := by
  simp [insertEntity, List.mem_filter]

theorem entitiesOf_unread {l : List PayloadRow} {row : PayloadRow}
    (h : D.fromSlice row.payload = none) : entitiesOf D (l ++ [row]) = entitiesOf D l := by
  simp [entitiesOf, List.foldl_append, h]

theorem entitiesOf_read {l : List PayloadRow} {row : PayloadRow} {value : Json}
    (h : D.fromSlice row.payload = some value) :
    entitiesOf D (l ++ [row]) = insertEntity (entitiesOf D l) row.key value := by
  simp [entitiesOf, List.foldl_append, h]

theorem exists_row_of_mem {l : List PayloadRow} {p : String × Json} (h : p ∈ entitiesOf D l) :
    ∃ row ∈ l, row.key = p.1 ∧ D.fromSlice row.payload = some p.2 := by
  induction l using List.reverseRecOn with
  | nil => simp [entitiesOf] at h
  | append_singleton l row ih =>
    cases hread : D.fromSlice row.payload with
    | none =>
      rw [entitiesOf_unread hread] at h
      obtain ⟨r, hr, hp⟩ := ih h
      exact ⟨r, List.mem_append_left _ hr, hp⟩
    | some value =>
      rw [entitiesOf_read hread] at h
      rcases mem_insertEntity.1 h with ⟨h, -⟩ | rfl
      · obtain ⟨r, hr, hp⟩ := ih h
        exact ⟨r, List.mem_append_left _ hr, hp⟩
      · exact ⟨row, by simp, rfl, hread⟩

theorem exists_mem_of_row {l : List PayloadRow} {row : PayloadRow} (hrow : row ∈ l) {value : Json}
    (hread : D.fromSlice row.payload = some value) : ∃ v, (row.key, v) ∈ entitiesOf D l := by
  induction l using List.reverseRecOn with
  | nil => simp at hrow
  | append_singleton l r ih =>
    rcases List.mem_append.1 hrow with hrow | hrow
    · obtain ⟨v, hv⟩ := ih hrow
      cases hr : D.fromSlice r.payload with
      | none =>
        rw [entitiesOf_unread hr]
        exact ⟨v, hv⟩
      | some value' =>
        rw [entitiesOf_read hr]
        by_cases hkey : row.key = r.key
        · exact ⟨value', mem_insertEntity.2 (Or.inr (by rw [hkey]))⟩
        · exact ⟨v, mem_insertEntity.2 (Or.inl ⟨hv, hkey⟩)⟩
    · rw [List.mem_singleton] at hrow
      subst hrow
      rw [entitiesOf_read hread]
      exact ⟨value, mem_insertEntity.2 (Or.inr rfl)⟩

/-! ### The rebuild as operations -/

theorem storeData_eq (rows : String → List PayloadRow) (stores : List String) :
    storeData D (fun s => .ok (rows s)) stores =
      .ok (stores.map fun s => (s, entitiesOf D (rows s))) := by
  induction stores with
  | nil => rfl
  | cons s stores ih =>
    rw [storeData, ih]
    rfl

theorem lookup_map {β : Type*} (f : String → β) {stores : List String} {s : String}
    (h : s ∈ stores) : (stores.map fun s => (s, f s)).lookup s = some (f s) := by
  induction stores with
  | nil => simp at h
  | cons x stores ih =>
    rw [List.map_cons, List.lookup_cons]
    by_cases hx : s = x
    · subst hx
      simp
    · rw [beq_eq_false_iff_ne.2 hx]
      exact ih ((List.mem_cons.1 h).resolve_left hx)

/-- The component of a source store in the document of a row. -/
def rebuilt (D : Deps) (rows : String → List PayloadRow) (s₁ : String) (entity : String × Json)
    (store : String) : Option Json :=
  if store = s₁ then some entity.2
  else (entitiesOf D (rows store)).lookup (referenceKeyFromValue D entity.2 store entity.1)

/-- The operations for a row of the first source store. -/
def rebuildOperations (D : Deps) (proj : ProjectionConfig) (rows : String → List PayloadRow)
    (s₁ : String) (others : List String) (entity : String × Json) : List Operation :=
  let projKey := eventKeyFromValue D entity.2 proj.targetKey entity.1
  (others.map fun store =>
    Operation.register (indexOf proj (store, inferEntityFromStore store,
      referenceKeyFromValue D entity.2 store entity.1)) projKey) ++
  [.write (projectionKey proj projKey)
    (some (joined D (s₁ :: others) (rebuilt D rows s₁ entity)))]

/-- The fields that the other source stores add to a document. -/
def addFields (component : String → Option Json) (stores : List String)
    (fields : List (String × Json)) : List (String × Json) :=
  stores.foldl (fun into s =>
    match component s with
    | some value => Json.insertField s value into
    | none => into) fields

theorem joined_eq (stores : List String) (component : String → Option Json) :
    joined D stores component = D.toVec (.object (addFields component stores [])) := rfl

theorem addFields_of_some {component : String → Option Json} {s : String} {value : Json}
    (h : component s = some value) (stores : List String) (fields : List (String × Json)) :
    addFields component (s :: stores) fields =
      addFields component stores (Json.insertField s value fields) := by
  unfold addFields
  rw [List.foldl_cons, h]

/-- The reconciler registers as the projector does. -/
theorem exec_registerTarget (index projKey : String) (e : Entries) :
    (registerTarget D index projKey).exec Cache.ideal e =
      ((), (Operation.register index projKey).apply D e) := by
  unfold registerTarget
  simp only [Operation.apply]
  rw [map_eq_pure_bind, Prog.exec_bind, Prog.exec_bind, Script.exec_getRaw]
  show Prog.exec Cache.ideal e
    (if projKey ∉ dependents D e index ∧ (dependents D e index).length < 100 then _ else _) = _
  by_cases hin : projKey ∈ dependents D e index
  · rw [if_neg (fun h => h.1 hin), if_pos hin]
    rfl
  by_cases hlen : (dependents D e index).length < 100
  · have hroom : ¬ (dependents D e index).length ≥ maxDependents := Nat.not_le.2 hlen
    rw [if_pos ⟨hin, hlen⟩, if_neg hin, if_neg hroom]
    rfl
  · have hfull : (dependents D e index).length ≥ maxDependents := Nat.not_lt.1 hlen
    rw [if_neg (fun h => hlen h.2), if_neg hin, if_pos hfull]
    rfl

theorem exec_rebuildReferences {data : List (String × List (String × Json))} (hs₁ : s₁ ∉ others)
    (hdata : ∀ s ∈ others, data.lookup s = some (entitiesOf D (rows s))) (entity : String × Json)
    (projKey : String) (e : Entries) (fields : List (String × Json)) :
    (rebuildReferences D proj data entity.1 entity.2 projKey others fields).exec Cache.ideal e =
      (addFields (rebuilt D rows s₁ entity) others fields,
        (others.map fun store =>
          Operation.register (indexOf proj (store, inferEntityFromStore store,
            referenceKeyFromValue D entity.2 store entity.1)) projKey).foldl (Operation.apply D) e) := by
  induction others generalizing e fields with
  | nil => rfl
  | cons s stores ih =>
    have hne : s ≠ s₁ := fun heq => hs₁ (heq ▸ List.mem_cons_self ..)
    have hcomp : rebuilt D rows s₁ entity s =
        (entitiesOf D (rows s)).lookup (referenceKeyFromValue D entity.2 s entity.1) := if_neg hne
    rw [rebuildReferences, hdata s (List.mem_cons_self ..)]
    dsimp only
    rw [Prog.exec_bind, exec_registerTarget, ih (fun h => hs₁ (List.mem_cons_of_mem _ h))
      fun x hx => hdata x (List.mem_cons_of_mem _ hx)]
    unfold addFields
    rw [List.foldl_cons, hcomp]
    rfl

theorem exec_rebuildEntity (hstores : proj.sourceStores = s₁ :: others) (hs₁ : s₁ ∉ others)
    (entity : String × Json) (e : Entries) :
    (rebuildEntity D proj s₁ (proj.sourceStores.map fun s => (s, entitiesOf D (rows s))) entity).exec
        Cache.ideal e =
      ((), (rebuildOperations D proj rows s₁ others entity).foldl (Operation.apply D) e) := by
  have hdata : ∀ s ∈ others,
      (proj.sourceStores.map fun s => (s, entitiesOf D (rows s))).lookup s =
        some (entitiesOf D (rows s)) := by
    intro s hs
    refine lookup_map (fun s => entitiesOf D (rows s)) ?_
    rw [hstores]
    exact List.mem_cons_of_mem _ hs
  have hdrop : proj.sourceStores.drop 1 = others := by rw [hstores]; rfl
  unfold rebuildEntity
  obtain ⟨key, payload⟩ := entity
  dsimp only
  have hjoined : joined D (s₁ :: others) (rebuilt D rows s₁ (key, payload)) =
      D.toVec (.object (addFields (rebuilt D rows s₁ (key, payload)) others
        (Json.insertField s₁ payload []))) := by
    have hcomp : rebuilt D rows s₁ (key, payload) s₁ = some payload := if_pos rfl
    rw [joined_eq, addFields_of_some hcomp]
  rw [hdrop, Prog.exec_bind, exec_rebuildReferences hs₁ hdata (key, payload), rebuildOperations,
    List.foldl_append, hjoined]
  rfl

/-- The operations of a rebuild. -/
def rebuildAll (D : Deps) (proj : ProjectionConfig) (rows : String → List PayloadRow) (s₁ : String)
    (others : List String) (order : List (String × Json) → List (String × Json)) : List Operation :=
  (order (entitiesOf D (rows s₁))).flatMap (rebuildOperations D proj rows s₁ others)

/-- The cache without the reverse index of the projection. -/
def withoutIndex (proj : ProjectionConfig) (e : Entries) : Entries :=
  (Cache.Command.delPrefix ("ridx:" ++ proj.name ++ ":")).apply e

/-- The loop over the entities, with the data of all source stores. -/
theorem rebuildPatternR_eq (hstores : proj.sourceStores = s₁ :: others)
    (order : List (String × Json) → List (String × Json)) :
    rebuildPatternR D proj (fun s => .ok (rows s)) order = (do
      Script.deleteByPrefix ("ridx:" ++ proj.name ++ ":")
      forM (order (entitiesOf D (rows s₁)))
        (rebuildEntity D proj s₁ (proj.sourceStores.map fun s => (s, entitiesOf D (rows s))))
      return .ok (entitiesOf D (rows s₁)).length) := by
  have hlookup : (proj.sourceStores.map fun s => (s, entitiesOf D (rows s))).lookup s₁ =
      some (entitiesOf D (rows s₁)) := by
    refine lookup_map (fun s => entitiesOf D (rows s)) ?_
    rw [hstores]
    exact List.mem_cons_self ..
  unfold rebuildPatternR
  simp only [storeData_eq]
  split
  · rename_i hnil
    rw [hstores] at hnil
    cases hnil
  · rename_i primaryStore rest hcons
    rw [hstores] at hcons
    obtain ⟨rfl, rfl⟩ := List.cons.inj hcons
    simp only [hlookup]

/-- The rebuild carries its operations out on the cache without the reverse index. -/
theorem exec_rebuildPatternR (hstores : proj.sourceStores = s₁ :: others) (hs₁ : s₁ ∉ others)
    (order : List (String × Json) → List (String × Json)) (prior : Entries) :
    ((rebuildPatternR D proj (fun s => .ok (rows s)) order).exec Cache.ideal prior).2 =
      (rebuildAll D proj rows s₁ others order).foldl (Operation.apply D) (withoutIndex proj prior) := by
  rw [rebuildPatternR_eq hstores, Prog.exec_bind, Script.exec_deleteByPrefix, Prog.exec_bind,
    Prog.exec_forM (I := fun _ => True)
      (fun entity _ e _ => ⟨exec_rebuildEntity hstores hs₁ entity e, trivial⟩) trivial,
    rebuildAll, List.foldl_flatMap]
  rfl

/-! ### On the wire -/

/-- The names that the reconciler builds its keys of for a row do not interfere. -/
def SendableEntity (D : Deps) (proj : ProjectionConfig) (entity : String × Json) : Prop :=
  Plain (eventKeyFromValue D entity.2 proj.targetKey entity.1) ∧
    ∀ s ∈ proj.sourceStores.drop 1, Plain (referenceKeyFromValue D entity.2 s entity.1)

section Wire

variable (hsize : ∀ j, (D.toVec j).length < 2 ^ 63) (hname : Word proj.name.toList)
  (hwords : ∀ s ∈ proj.sourceStores, Word s.toList)

include hsize in
theorem asks_registerTarget {index projKey : String} {e : Entries} (h : Sendable index) :
    (registerTarget D index projKey).Asks Cache.Command.WellFormed Cache.ideal e := by
  unfold registerTarget
  rw [map_eq_pure_bind, Prog.asks_bind, Prog.asks_bind, Script.asks_getRaw]
  refine ⟨⟨h.get, trivial⟩, ?_⟩
  split_ifs
  · exact Script.asks_setRaw.2 (h.set (hsize _))
  · trivial

include hsize hname in
theorem asks_rebuildReferences {data : List (String × List (String × Json))} {stores : List String}
    {key projKey : String} {payload : Json} {fields : List (String × Json)} {e : Entries}
    (hstores : ∀ s ∈ stores, Word s.toList ∧ Plain (referenceKeyFromValue D payload s key)) :
    (rebuildReferences D proj data key payload projKey stores fields).Asks Cache.Command.WellFormed
      Cache.ideal e := by
  induction stores generalizing fields e with
  | nil => trivial
  | cons s stores ih =>
    have ih' := fun fields e => @ih fields e
      fun x hx => hstores x (List.mem_cons_of_mem _ hx)
    obtain ⟨hword, hplain⟩ := hstores s List.mem_cons_self
    rw [rebuildReferences]
    cases hlookup : data.lookup s with
    | none => exact ih' fields e
    | some entities =>
      dsimp only
      rw [Prog.asks_bind]
      exact ⟨asks_registerTarget hsize (sendable_dependencyIndexKey hname hword
        (word_inferEntityFromStore hword) hplain), ih' _ _⟩

include hsize hname hwords in
theorem asks_rebuildEntity {data : List (String × List (String × Json))} {entity : String × Json}
    {e : Entries} (h : SendableEntity D proj entity) :
    (rebuildEntity D proj s₁ data entity).Asks Cache.Command.WellFormed Cache.ideal e := by
  obtain ⟨key, payload⟩ := entity
  unfold rebuildEntity
  dsimp only
  rw [Prog.asks_bind, Script.asks_setProjection]
  refine ⟨asks_rebuildReferences hsize hname fun s hs => ⟨hwords s (List.mem_of_mem_drop hs), h.2 s hs⟩,
    ?_⟩
  exact (Cache.sendable_projection hname h.1).set (hsize _)

theorem token_index (hname : Word proj.name.toList) :
    (Cache.Command.delPrefix ("ridx:" ++ proj.name ++ ":")).WellFormed := by
  have hsend : Sendable ("ridx:" ++ proj.name ++ ":" ++ "") := by
    refine Plain.sendable (by decide) ("ridx:" ++ proj.name)
      (Cache.word_append.2 ⟨by decide, hname⟩) ?_
    rw [String.toList_append]
    rfl
  rw [String.append_empty] at hsend
  exact hsend.1

include hsize hname hwords in
/-- **The rebuild on the wire** carries its operations out. -/
theorem rebuiltR_eq (hstores : proj.sourceStores = s₁ :: others) (hs₁ : s₁ ∉ others)
    {order : List (String × Json) → List (String × Json)} (horder : ∀ l, (order l).Perm l)
    (hsend : ∀ entity ∈ entitiesOf D (rows s₁), SendableEntity D proj entity) (prior : Entries) :
    rebuiltR D proj (fun s => .ok (rows s)) order prior =
      (rebuildAll D proj rows s₁ others order).foldl (Operation.apply D) (withoutIndex proj prior) := by
  rw [rebuiltR, Script.exec_wire, exec_rebuildPatternR hstores hs₁]
  rw [rebuildPatternR_eq hstores, Prog.asks_bind, Script.asks_deleteByPrefix, Prog.asks_bind]
  refine ⟨token_index hname, ?_, trivial⟩
  exact Prog.asks_forM (I := fun _ => True)
    (fun entity _ e _ => ⟨exec_rebuildEntity hstores hs₁ entity e, trivial⟩)
    (fun entity hentity _ _ => asks_rebuildEntity hsize hname hwords
      (hsend entity ((horder _).mem_iff.1 hentity))) trivial

end Wire

theorem withoutIndex_entry {key : String} (h : IsEntry key) (e : Entries) :
    withoutIndex proj e key = e key := by
  refine if_neg fun hprefix => ?_
  rw [List.isPrefixOf_iff_prefix] at hprefix
  have hindex : OfIndex proj key := hprefix
  exact hindex.isIndex.not_isEntry h

theorem withoutIndex_index {key : String} (h : OfIndex proj key) (e : Entries) :
    withoutIndex proj e key = none := by
  refine if_pos ?_
  rw [List.isPrefixOf_iff_prefix]
  exact h

theorem keyed_rebuildOperations {entity : String × Json} {op : Operation}
    (h : op ∈ rebuildOperations D proj rows s₁ others entity) : op.Keyed := by
  unfold rebuildOperations at h
  rcases List.mem_append.1 h with h | h
  · obtain ⟨store, -, rfl⟩ := List.mem_map.1 h
    exact isIndex_dependencyIndexKey ..
  · rw [List.mem_singleton.1 h]
    exact isEntry_projectionKey ..

/-- The update of the entries that a row makes. -/
def rebuildWrite (D : Deps) (proj : ProjectionConfig) (rows : String → List PayloadRow) (s₁ : String)
    (others : List String) (entity : String × Json) : String × Option Bytes :=
  (projectionKey proj (eventKeyFromValue D entity.2 proj.targetKey entity.1),
    some (joined D (s₁ :: others) (rebuilt D rows s₁ entity)))

theorem foldl_rebuildOperations (entities : List (String × Json)) (e : Entries) {key : String}
    (hkey : IsEntry key) :
    (entities.flatMap (rebuildOperations D proj rows s₁ others)).foldl (Operation.apply D) e key =
      settle e (entities.map (rebuildWrite D proj rows s₁ others)) key := by
  induction entities using List.reverseRecOn with
  | nil => rfl
  | append_singleton entities entity ih =>
    rw [List.flatMap_append, List.flatMap_singleton, List.foldl_append, List.map_append, List.map_singleton,
      settle_append, settle_cons, settle_nil, rebuildOperations, List.foldl_append]
    show Function.update _ _ _ _ = Function.update _ _ _ _
    by_cases hk : key = (rebuildWrite D proj rows s₁ others entity).1
    · rw [hk, Function.update_self (rebuildWrite D proj rows s₁ others entity).1]
      exact Function.update_self ..
    · refine (Function.update_of_ne hk _ _).trans ?_
      rw [Function.update_of_ne hk, ← ih]
      exact foldl_register_entry (fun store => (indexOf proj (store, inferEntityFromStore store,
        referenceKeyFromValue D entity.2 store entity.1), _)) (fun _ => isIndex_dependencyIndexKey ..)
        others _ hkey

/-! ### The same entries -/

/-- Two entries of the reverse index list the same targets. -/
def SameTargets (D : Deps) (value value' : Option Bytes) : Prop :=
  (value.isSome ↔ value'.isSome) ∧ ∀ t, t ∈ targetsIn D value ↔ t ∈ targetsIn D value'

/-- The entries of the projection are the same, and those of its reverse index as sets. -/
structure AgreesR (D : Deps) (proj : ProjectionConfig) (online offline : Entries) : Prop where
  entries : ∀ k, online (projectionKey proj k) = offline (projectionKey proj k)
  index : ∀ key, OfIndex proj key → SameTargets D (online key) (offline key)

/-- The event is the last one on its row and left it there. -/
def Live (evs : List EventEnvelope) (event : EventEnvelope) : Prop :=
  newest evs (versionKey event) = some event ∧ isDeleted event = false

/-- What is asked of the events and the cache. -/
structure JoinedR (D : Deps) (proj : ProjectionConfig) (s₁ : String) (others : List String)
    (evs : List EventEnvelope) (prior : Entries) : Prop extends RegularR D proj s₁ others evs where
  /-- The names that keys are built of do not interfere with the protocol of the cache. -/
  named : Word proj.name.toList ∧ ∀ s ∈ proj.sourceStores, Word s.toList
  sendable : ∀ event ∈ evs, SendableR D proj event
  /-- The source stores are different ones. -/
  two_stores : s₁ ∉ others
  /-- Rows of the first store have different keys. -/
  keys : ∀ o ∈ evs, ∀ o' ∈ evs, Live evs o → Live evs o' → o.store = s₁ → o'.store = s₁ →
    o.key = o'.key → o.entity = o'.entity
  /-- Only rows of the entity that the store is named after have a key that is referenced. -/
  referenced : ∀ o ∈ evs, Live evs o → o.store = s₁ → ∀ w ∈ evs, Live evs w → w.store ∈ others →
    w.key = resolveLookupKey D o w.store → w.entity = inferEntityFromStore w.store
  /-- Before the rebuild there are no entries but those of rows. -/
  fresh : ∀ k, prior (projectionKey proj k) ≠ none →
    ∃ o ∈ evs, Live evs o ∧ o.store = s₁ ∧ target D proj o = k

section Agreement

variable {evs : List EventEnvelope} {prior : Entries} {bs : String → List Batch}
  {order : List (String × Json) → List (String × Json)}
  (hstores : proj.sourceStores = s₁ :: others)
  (honly : ∀ event ∈ evs, event.store ∈ proj.sourceStores)
  (hshown : ∀ s ∈ proj.sourceStores,
    Shown D s (run D s (bs s)).db (evs.filter fun event => decide (event.store = s)))
  (hscan : ∀ s ∈ proj.sourceStores, Scans (run D s (bs s)).db s (rows s))
  (horder : ∀ l, (order l).Perm l)
  (hreg : JoinedR D proj s₁ others evs prior)
  (hsize : ∀ j, (D.toVec j).length < 2 ^ 63)

include hstores hshown hscan hreg in
/-- The entities of the first store are its live events. -/
theorem mem_entitiesOf {entity : String × Json} :
    entity ∈ entitiesOf D (rows s₁) ↔
      ∃ o ∈ evs, Live evs o ∧ o.store = s₁ ∧ (o.key, o.payload) = entity := by
  have hs : s₁ ∈ proj.sourceStores := by simp [hstores]
  have hevent : ∀ p ∈ entitiesOf D (rows s₁),
      ∃ o ∈ evs, Live evs o ∧ o.store = s₁ ∧ (o.key, o.payload) = p := by
    intro p hp
    obtain ⟨row, hrow, hkey, hread⟩ := exists_row_of_mem hp
    obtain ⟨o, hnew, hholds⟩ := (hshown s₁ hs).exists_event (hscan s₁ hs) hrow
    obtain ⟨hmem, hvk⟩ := mem_of_newest hnew
    refine ⟨o, hmem, ⟨by rw [hvk, hnew], hholds.kept⟩, congrArg Prod.fst hvk, ?_⟩
    have hpay : o.payload = p.2 := by simpa [hread] using hholds.payload.symm
    rw [hholds.key, hkey, hpay]
  constructor
  · exact hevent entity
  · rintro ⟨o, ho, hlive, hst, rfl⟩
    have hnew : newest evs (s₁, o.entity, o.key) = some o := hst ▸ hlive.1
    obtain ⟨row, hrow, hholds⟩ := (hshown s₁ hs).exists_row (hscan s₁ hs) hnew hlive.2
    obtain ⟨v, hv⟩ := exists_mem_of_row hrow hholds.payload
    obtain ⟨o', ho', hlive', hst', heq⟩ := hevent _ hv
    have hkey : o'.key = o.key := (congrArg Prod.fst heq).trans hholds.key.symm
    have hrows : versionKey o' = versionKey o := by
      rw [versionKey, versionKey, hst, hst', hkey, hreg.keys o' ho' o ho hlive' hlive hst' hst hkey]
    have hsame := hlive'.1
    rw [hrows, hlive.1, Option.some.injEq] at hsame
    rw [hsame, heq]
    exact hv

include hstores hshown hscan hreg in
/-- What the reconciler finds under a reference is what remains of the row. -/
theorem lookup_entitiesOf {o : EventEnvelope} (ho : o ∈ evs) (hlive : Live evs o) (hst : o.store = s₁)
    {s : String} (hs : s ∈ others) :
    (entitiesOf D (rows s)).lookup (resolveLookupKey D o s) = document evs (reference D o s) := by
  have hs' : s ∈ proj.sourceStores := by simp [hstores, hs]
  -- a row with the key is the row that is referenced
  have hevent : ∀ v, (resolveLookupKey D o s, v) ∈ entitiesOf D (rows s) →
      document evs (reference D o s) = some v := by
    intro v hv
    obtain ⟨row, hrow, hkey, hread⟩ := exists_row_of_mem hv
    obtain ⟨w, hnew, hholds⟩ := (hshown s hs').exists_event (hscan s hs') hrow
    obtain ⟨hmem, hvk⟩ := mem_of_newest hnew
    have hwst : w.store = s := congrArg Prod.fst hvk
    have hwkey : w.key = resolveLookupKey D o s := hholds.key.trans hkey
    have hentity := hreg.referenced o ho hlive hst w hmem ⟨by rw [hvk, hnew], hholds.kept⟩
      (hwst ▸ hs) (by rw [hwst, hwkey])
    have hrowref : (s, row.entity, row.key) = reference D o s := by
      rw [reference, ← hholds.entity, hentity, hwst, hkey]
    rw [document, ← hrowref, hnew, Option.bind_some, left, hholds.kept]
    have hpay : w.payload = v := by simpa [hread] using hholds.payload.symm
    simp [hpay]
  cases hlookup : (entitiesOf D (rows s)).lookup (resolveLookupKey D o s) with
  | some v =>
    refine (hevent v ?_).symm
    obtain ⟨l, l', hl, -⟩ := List.lookup_eq_some_iff.1 hlookup
    rw [hl]
    simp
  | none =>
    cases hdoc : document evs (reference D o s) with
    | none => rfl
    | some v =>
      -- the row is there, so it would have been found
      obtain ⟨w, hnew, hleft⟩ := Option.bind_eq_some_iff.1 hdoc
      have hdel : isDeleted w = false := by
        unfold left at hleft
        split_ifs at hleft with hd
        simpa using hd
      obtain ⟨row, hrow, hholds⟩ := (hshown s hs').exists_row (hscan s hs') hnew hdel
      obtain ⟨v', hv'⟩ := exists_mem_of_row hrow hholds.payload
      have hkey : row.key = resolveLookupKey D o s :=
        hholds.key.symm.trans (congrArg (fun row => row.2.2) (mem_of_newest hnew).2)
      rw [hkey] at hv'
      have hne := List.lookup_eq_none_iff.1 hlookup _ hv'
      simp at hne

include hstores hshown hscan hreg in
/-- The document that the reconciler makes of a row is the one that remains. -/
theorem rebuilt_eq {o : EventEnvelope} (ho : o ∈ evs) (hlive : Live evs o) (hst : o.store = s₁) :
    joined D (s₁ :: others) (rebuilt D rows s₁ (o.key, o.payload)) =
      joined D proj.sourceStores (remaining evs D s₁ o) := by
  rw [hstores]
  refine joined_congr fun s hs => ?_
  unfold rebuilt remaining
  split_ifs with heq
  · rfl
  · have hs' : s ∈ others := (List.mem_cons.1 hs).resolve_left heq
    exact lookup_entitiesOf hstores hshown hscan hreg ho hlive hst hs'

include hstores hshown hscan horder hreg in
/-- The updates that the reconciler makes of an entry. -/
theorem mem_writes {u : String × Option Bytes} :
    u ∈ (order (entitiesOf D (rows s₁))).map (rebuildWrite D proj rows s₁ others) ↔
      ∃ o ∈ evs, Live evs o ∧ o.store = s₁ ∧
        u = (projectionKey proj (target D proj o),
          some (joined D proj.sourceStores (remaining evs D s₁ o))) := by
  have hwrite : ∀ o ∈ evs, Live evs o → o.store = s₁ →
      rebuildWrite D proj rows s₁ others (o.key, o.payload) =
        (projectionKey proj (target D proj o),
          some (joined D proj.sourceStores (remaining evs D s₁ o))) := by
    intro o ho hlive hst
    rw [rebuildWrite, rebuilt_eq hstores hshown hscan hreg ho hlive hst]
    rfl
  simp only [List.mem_map, (horder _).mem_iff, mem_entitiesOf hstores hshown hscan hreg]
  constructor
  · rintro ⟨_, ⟨o, ho, hlive, hst, rfl⟩, rfl⟩
    exact ⟨o, ho, hlive, hst, hwrite o ho hlive hst⟩
  · rintro ⟨o, ho, hlive, hst, rfl⟩
    exact ⟨_, ⟨o, ho, hlive, hst, rfl⟩, hwrite o ho hlive hst⟩

include hstores hshown hscan horder hreg hsize in
/-- The reconciler carries its operations out. -/
theorem offline_eq :
    rebuiltR D proj (fun s => .ok (rows s)) order prior =
      (rebuildAll D proj rows s₁ others order).foldl (Operation.apply D) (withoutIndex proj prior) := by
  refine rebuiltR_eq hsize hreg.named.1 hreg.named.2 hstores hreg.two_stores horder (fun entity h => ?_)
    prior
  obtain ⟨o, ho, -, hst, rfl⟩ := (mem_entitiesOf hstores hshown hscan hreg).1 h
  exact (hreg.sendable o ho).primary (by rw [hstores, List.head?_cons, hst])

include hstores hshown hscan horder hreg hsize in
/-- The entries that the reconciler leaves. -/
theorem offline_entry (k : String) :
    rebuiltR D proj (fun s => .ok (rows s)) order prior (projectionKey proj k) =
      ((lastWhere (fun u => decide (u.1 = projectionKey proj k))
        ((order (entitiesOf D (rows s₁))).map (rebuildWrite D proj rows s₁ others))).map
          Prod.snd).getD (prior (projectionKey proj k)) := by
  rw [offline_eq hstores hshown hscan horder hreg hsize, rebuildAll,
    foldl_rebuildOperations _ _ (isEntry_projectionKey ..), settle_eq,
    withoutIndex_entry (isEntry_projectionKey ..)]

include hstores hshown hscan horder hreg hsize in
theorem offline_of_none {k : String}
    (hnone : ∀ o ∈ evs, Live evs o → o.store = s₁ → target D proj o ≠ k) :
    rebuiltR D proj (fun s => .ok (rows s)) order prior (projectionKey proj k) = none := by
  have hprior : prior (projectionKey proj k) = none := by
    by_contra hne
    obtain ⟨o, ho, hlive, hst, heq⟩ := hreg.fresh k hne
    exact hnone o ho hlive hst heq
  have hno : lastWhere (fun u => decide (u.1 = projectionKey proj k))
      ((order (entitiesOf D (rows s₁))).map (rebuildWrite D proj rows s₁ others)) = none := by
    refine lastWhere_eq_none.2 fun u hu hkey => ?_
    obtain ⟨o, ho, hlive, hst, rfl⟩ := (mem_writes hstores hshown hscan horder hreg).1 hu
    exact hnone o ho hlive hst (projectionKey_inj (of_decide_eq_true hkey))
  rw [offline_entry hstores hshown hscan horder hreg hsize, hno, hprior]
  rfl

include hstores hshown hscan horder hreg hsize in
theorem offline_of_live {o : EventEnvelope} (ho : o ∈ evs) (hlive : Live evs o) (hst : o.store = s₁) :
    rebuiltR D proj (fun s => .ok (rows s)) order prior
        (projectionKey proj (target D proj o)) =
      some (joined D proj.sourceStores (remaining evs D s₁ o)) := by
  rw [offline_entry hstores hshown hscan horder hreg hsize]
  cases hlast : lastWhere (fun u => decide (u.1 = projectionKey proj (target D proj o)))
      ((order (entitiesOf D (rows s₁))).map (rebuildWrite D proj rows s₁ others)) with
  | none =>
    have hu := (mem_writes hstores hshown hscan horder hreg).2 ⟨o, ho, hlive, hst, rfl⟩
    exact absurd (decide_eq_true rfl) (lastWhere_eq_none.1 hlast _ hu)
  | some u =>
    obtain ⟨hu, hkey⟩ := mem_of_lastWhere hlast
    obtain ⟨o', ho', hlive', hst', rfl⟩ := (mem_writes hstores hshown hscan horder hreg).1 hu
    have hrow := hreg.same_row ho ⟨hst, hlive.2⟩ ho' hst' (projectionKey_inj (of_decide_eq_true hkey))
    have hsame := hlive'.1
    rw [hrow, hlive.1, Option.some.injEq] at hsame
    rw [hsame]
    rfl

include hstores hshown hscan horder hreg hsize in
/-- The reconciler leaves the entry that the projector leaves for a row. -/
theorem offline_final {o : EventEnvelope} (ho : o ∈ evs) (hent : Enters s₁ o) :
    rebuiltR D proj (fun s => .ok (rows s)) order prior
        (projectionKey proj (target D proj o)) =
      finalEntry D proj s₁ evs (versionKey o) := by
  obtain ⟨last, hlast, htarget, -, -⟩ := hreg.lasting o ho hent
  obtain ⟨hmem, hvk⟩ := mem_of_newest hlast
  have hst : last.store = s₁ := (congrArg Prod.fst hvk).trans hent.1
  rw [finalEntry, hlast, Option.bind_some]
  cases hd : isDeleted last with
  | true =>
    -- no row that is there has the target
    rw [if_pos rfl]
    refine offline_of_none hstores hshown hscan horder hreg hsize fun o' ho' hlive hst' heq => ?_
    have hrow := hreg.same_row ho hent ho' hst' heq
    have hsame := hlive.1
    rw [hrow, hlast, Option.some.injEq] at hsame
    have hkept := hlive.2
    rw [← hsame, hd] at hkept
    cases hkept
  | false =>
    rw [if_neg (by simp), ← htarget]
    exact offline_of_live hstores hshown hscan horder hreg hsize hmem ⟨by rw [hvk, hlast], hd⟩ hst

include hstores hshown hscan horder hreg in
/-- The reconciler registers what the events have registered. -/
theorem mem_rebuildAll {steps : Steps} (hsteps : steps.events = evs) {index t : String} :
    Operation.register index t ∈ rebuildAll D proj rows s₁ others order ↔
      Operation.register index t ∈ registrations D proj steps := by
  have hops : ∀ o : EventEnvelope,
      Operation.register index t ∈ rebuildOperations D proj rows s₁ others (o.key, o.payload) ↔
        target D proj o = t ∧ ∃ s ∈ others, indexOf proj (reference D o s) = index := by
    intro o
    simp only [rebuildOperations, List.mem_append, List.mem_map, List.mem_singleton, reduceCtorEq,
      or_false, Operation.register.injEq]
    constructor
    · rintro ⟨s, hs, hindex, ht⟩
      exact ⟨ht, s, hs, hindex⟩
    · rintro ⟨ht, s, hs, hindex⟩
      exact ⟨s, hs, hindex, ht⟩
  rw [mem_registrations hstores, hsteps, rebuildAll, List.mem_flatMap]
  simp only [(horder _).mem_iff, mem_entitiesOf hstores hshown hscan hreg]
  constructor
  · rintro ⟨_, ⟨o, ho, hlive, hst, rfl⟩, hop⟩
    exact ⟨o, ho, ⟨hst, hlive.2⟩, (hops o).1 hop⟩
  · rintro ⟨o, ho, hent, ht, s, hs, hindex⟩
    -- the row is still there and references the same row
    obtain ⟨last, hlast, htarget, hdel, hkeys⟩ := hreg.lasting o ho hent
    obtain ⟨hmem, hvk⟩ := mem_of_newest hlast
    have hkept : isDeleted last = false := by
      refine Bool.eq_false_iff.2 fun hd => ?_
      rw [hdel hd] at hs
      exact List.not_mem_nil hs
    refine ⟨_, ⟨last, hmem, ⟨by rw [hvk, hlast], hkept⟩, (congrArg Prod.fst hvk).trans hent.1, rfl⟩,
      (hops last).2 ⟨htarget.trans ht, s, hs, ?_⟩⟩
    rw [← hindex, reference, hkeys s hs, reference]

include hstores hshown hscan horder hreg hsize in
theorem listed_offline {steps : Steps} (hsteps : steps.events = evs)
    (hm : Manageable D (registrations D proj steps)) :
    Listed D proj (rebuildAll D proj rows s₁ others order)
      (rebuiltR D proj (fun s => .ok (rows s)) order prior) := by
  have hm' : Manageable D (rebuildAll D proj rows s₁ others order) :=
    hm.mono fun _ _ => (mem_rebuildAll hstores hshown hscan horder hreg hsteps).1
  rw [offline_eq hstores hshown hscan horder hreg hsize]
  refine (Listed.nil fun index hindex => withoutIndex_index hindex prior).foldl (fun op hop => ?_) hm'
    fun op hop => hop
  obtain ⟨entity, -, hop⟩ := List.mem_flatMap.1 hop
  exact keyed_rebuildOperations hop

end Agreement

/-- Entries that list the same registrations. -/
theorem sameTargets_of_listed {l l' : List Operation} {e e' : Entries} {key : String}
    (hkey : OfIndex proj key) (h : Listed D proj l e) (h' : Listed D proj l' e')
    (hm : Manageable D l)
    (hiff : ∀ t, Operation.register key t ∈ l' ↔ Operation.register key t ∈ l) :
    SameTargets D (e key) (e' key) := by
  obtain ⟨targets, he, hnd, hmem⟩ := h key hkey
  obtain ⟨targets', he', hnd', hmem'⟩ := h' key hkey
  have hsame : ∀ t, t ∈ targets ↔ t ∈ targets' := fun t => by rw [hmem, hmem', hiff]
  have hnil : targets = [] ↔ targets' = [] := by
    simp only [List.eq_nil_iff_forall_not_mem, hsame]
  rw [he, he']
  refine ⟨?_, fun t => ?_⟩
  · unfold indexEntry
    by_cases ht : targets = []
    · rw [if_pos ht, if_pos (hnil.1 ht)]
    · rw [if_neg ht, if_neg fun ht' => ht (hnil.2 ht')]
      simp
  · rw [targetsIn_indexEntry (hm.read key targets hnd fun t ht => (hmem t).1 ht),
      targetsIn_indexEntry (hm.read key targets' hnd' fun t ht => (hiff t).1 ((hmem' t).1 ht)), hsame]

/-- An event registers the target under the key. -/
def RegisteredR (D : Deps) (proj : ProjectionConfig) (s₁ : String) (others : List String)
    (evs : List EventEnvelope) (key t : String) : Prop :=
  ∃ o ∈ evs, Enters s₁ o ∧ target D proj o = t ∧
    ∃ s ∈ others, indexOf proj (reference D o s) = key

/-- **Pattern R, online and offline.**  Whatever batches the source stores have processed, whenever the
projector has processed their events, each once, in the order of the outbox and with what is under `c:` up
to date, and whatever is in the cache when the reconciler starts, the entries that the projector leaves
for a projection of pattern R are those that the reconciler makes, and so is the reverse index, provided
the history is regular. -/
theorem joins_agree (D : Deps) (registry : ProjectionRegistry) (proj : ProjectionConfig) (s₁ : String)
    (others : List String) (as : List Act) (st : Online) (rows : String → List PayloadRow)
    (order : List (String × Json) → List (String × Json)) (prior : Entries)
    (hsize : ∀ j, (D.toVec j).length < 2 ^ 63)
    (hvalid : registry.validate = .ok ()) (hproj : proj ∈ registry.projections)
    (hstores : proj.sourceStores = s₁ :: others)
    (hmeet : StepsMeet (Online.step D proj) (CacheUpToDate D proj) Online.start as)
    (hrun : runFrom (Online.step D proj) Online.start as = some st)
    (hall : ∀ s ∈ proj.sourceStores, st.processedOf s = feed D (run D s (st.batches s)))
    (hsrc : Sourced D proj st.batches)
    (hscan : ∀ s ∈ proj.sourceStores, Scans (run D s (st.batches s)).db s (rows s))
    (horder : ∀ l, (order l).Perm l)
    (hfew : ∀ (key : String) (targets : List String), targets.Nodup →
      (∀ t ∈ targets, RegisteredR D proj s₁ others st.processed key t) → targets.length < 100)
    (hlists : ∀ (key : String) (targets : List String), targets.Nodup →
      (∀ t ∈ targets, RegisteredR D proj s₁ others st.processed key t) →
      readStrings D (writeStrings D targets) = some targets)
    (hreg : JoinedR D proj s₁ others st.processed prior) :
    AgreesR D proj st.cache (rebuiltR D proj (fun s => .ok (rows s)) order prior) := by
  obtain ⟨-, ⟨-, htwo⟩, -, -⟩ := ProjectionRegistry.sound_of_validate hvalid hproj
  have hlen : others.length ≤ 1 := by
    rw [hstores, List.length_cons] at htwo
    omega
  obtain ⟨steps, ht⟩ := traced_of_run hmeet hrun hsrc
  have hsteps : steps.events = st.processed := ht.processed.symm
  have hm : Manageable D (registrations D proj steps) := by
    refine ⟨fun key targets hnd hmem => hfew key targets hnd fun t h => ?_,
      fun key targets hnd hmem => hlists key targets hnd fun t h => ?_⟩
    · rw [RegisteredR, ← hsteps, ← mem_registrations hstores]
      exact hmem t h
    · rw [RegisteredR, ← hsteps, ← mem_registrations hstores]
      exact hmem t h
  have hend : OnWay D proj s₁ others st.processed steps [] (steps.applied D proj) := by
    rw [← hsteps]
    exact onWay_end hstores hreg.two_stores hlen (hsteps ▸ hreg.toRegularR)
      (ht.upToDate hsrc hall) hm
  have hwire : AgreeOffRows (steps.cache D proj) (steps.applied D proj) :=
    cache_eq_applied hsize hstores hm (hsteps ▸ hreg.sendable) (List.append_nil steps).symm
  have hshown : ∀ s ∈ proj.sourceStores, Shown D s (run D s (st.batches s)).db
      (st.processed.filter fun event => decide (event.store = s)) := by
    intro s hs
    have hfeed := hall s hs
    unfold Online.processedOf at hfeed
    rw [hfeed]
    exact hsrc.shown hs
  rw [ht.cache]
  refine ⟨fun k => ?_, fun key hkey => ?_⟩
  · rw [hwire _ (isEntry_projectionKey proj k).not_isRow]
    by_cases hk : ∃ o ∈ st.processed, Enters s₁ o ∧ target D proj o = k
    · obtain ⟨o, ho, hent, rfl⟩ := hk
      rw [hend.final (hsteps ▸ ho) hent, offline_final hstores hshown hscan horder hreg hsize ho hent]
    · rw [hend.absent k fun o ho hent heq => hk ⟨o, hsteps ▸ ho, hent, heq⟩]
      exact (offline_of_none hstores hshown hscan horder hreg hsize fun o ho hlive hst heq =>
        hk ⟨o, ho, ⟨hst, hlive.2⟩, heq⟩).symm
  · rw [hwire _ hkey.isIndex.not_isRow]
    exact sameTargets_of_listed hkey hend.listed
      (listed_offline hstores hshown hscan horder hreg hsize hsteps hm) hm
      fun t => mem_rebuildAll hstores hshown hscan horder hreg hsteps

/-! ### Runs to evaluate -/

theorem targets_of_one {evs : List EventEnvelope} {t key : String}
    (h : ∀ o ∈ evs, Enters s₁ o → target D proj o = t) {targets : List String}
    (hnd : targets.Nodup) (hreg : ∀ t ∈ targets, RegisteredR D proj s₁ others evs key t) :
    targets = [] ∨ targets = [t] := by
  refine targets_eq_of_forall hnd fun x hx => ?_
  obtain ⟨o, ho, hent, rfl, -⟩ := hreg x hx
  exact h o ho hent

/-- The batches of the store `users` are committed first. -/
def sampleAccountFirst : String → List Batch :=
  Function.update (fun _ => []) "users" sampleAccountBatches

/-- The account is processed before the user. -/
def sampleOnline : Online where
  batches := sampleStores sampleBatches
  processed := [sampleAccountEvent, sampleUserEvent]
  cache := afterR sampleFeedDeps sampleJoin
    (withRows (sampleRowEntries (sampleStores sampleBatches))
      (afterR sampleFeedDeps sampleJoin (withRows (sampleRowEntries sampleAccountFirst) fun _ => none)
        sampleAccountEvent)) sampleUserEvent

/-- The steps that lead there. -/
def sampleOnlineActs : List Act :=
  [.commit "users" ⟨fun _ => sampleAmbient, [sampleAccount]⟩,
    .process "users" (sampleRowEntries sampleAccountFirst),
    .commit "main" ⟨fun _ => sampleAmbient, [sampleUpsert "a" 1]⟩,
    .process "main" (sampleRowEntries (sampleStores sampleBatches))]

theorem stepsMeet_sampleOnline :
    StepsMeet (Online.step sampleFeedDeps sampleJoin) (CacheUpToDate sampleFeedDeps sampleJoin)
        Online.start sampleOnlineActs ∧
      runFrom (Online.step sampleFeedDeps sampleJoin) Online.start sampleOnlineActs =
        some sampleOnline := by
  refine stepsMeet_cons trivial rfl (stepsMeet_cons (showsRows_sample _)
    (Online.step_process sampleAccountEvent (by decide) ?_) (stepsMeet_cons trivial rfl
    (stepsMeet_cons (showsRows_sample _)
      (Online.step_process sampleUserEvent (by decide) ?_) ⟨trivial, congrArg some ?_⟩)))
  · exact congrArg (·[0]?) feed_sampleAccountBatches
  · exact congrArg (·[0]?) feed_sampleBatches
  · rw [sampleOnline, Online.mk.injEq]
    dsimp only [Online.start]
    exact ⟨rfl, rfl, rfl⟩

theorem sourced_sampleStores {bs : List Batch} (hnamed : ∀ b ∈ bs, ∀ cmd ∈ b.commands, cmd.store = "main")
    (hread : ∀ i it, (run sampleFeedDeps "main" bs).applied[i]? = some it →
      ReadsBack sampleFeedDeps (eventAt i it)) :
    Sourced sampleFeedDeps sampleJoin (sampleStores bs) := by
  refine ⟨of_mem_sampleJoin hnamed ?_, of_mem_sampleJoin hread readsBack_sampleAccountBatches⟩
  show ∀ b ∈ sampleAccountBatches, ∀ cmd ∈ b.commands, cmd.store = "users"
  decide

theorem joined_sampleOnline :
    JoinedR sampleFeedDeps sampleJoin "main" ["users"] sampleOnline.processed (fun _ => none) := by
  have hmain : ∀ o ∈ sampleOnline.processed, o.store = "main" → o = sampleUserEvent := by
    intro o ho hst
    simp only [sampleOnline, List.mem_cons, List.not_mem_nil, or_false] at ho
    rcases ho with rfl | rfl
    · exact absurd hst (by decide)
    · rfl
  have husers : ∀ w ∈ sampleOnline.processed, w.store ∈ ["users"] → w = sampleAccountEvent := by
    intro w hw hst
    simp only [sampleOnline, List.mem_cons, List.not_mem_nil, or_false] at hw
    rcases hw with rfl | rfl
    · rfl
    · exact absurd hst (by decide)
  refine ⟨⟨?_, ?_, ?_, ?_⟩, by decide, by decide +kernel, by decide, ?_, ?_, fun k hk => absurd rfl hk⟩
  · intro o ho hent
    obtain rfl := hmain o ho hent.1
    exact ⟨sampleUserEvent, rfl, rfl, by decide, fun _ _ => rfl⟩
  · intro o ho hent x hx hst hne
    rw [hmain o ho hent.1, hmain x hx hst] at hne
    exact absurd rfl hne
  · intro o _ _ w hw hst _
    rw [husers w hw hst]
    decide +kernel
  · intro o ho hent _ w hst hnew hafter
    obtain rfl := husers w (mem_of_newest hnew).1 hst
    obtain ⟨pre, post, hsplit, hmem⟩ := hafter
    -- nothing is processed before the account
    cases pre with
    | nil => simp at hmem
    | cons x pre =>
      have htail : [sampleUserEvent] = pre ++ sampleAccountEvent :: post := (List.cons.inj hsplit).2
      have hin : sampleAccountEvent ∈ [sampleUserEvent] := by simp [htail]
      have hstore := congrArg EventEnvelope.store (List.mem_singleton.1 hin)
      exact absurd hstore (by decide)
  · intro o ho o' ho' _ _ hst hst' _
    rw [hmain o ho hst, hmain o' ho' hst']
  · intro o _ _ _ w hw _ hst _
    rw [husers w hw hst]
    decide +kernel

theorem scans_sampleRows (bs : String → List Batch) {s : String}
    (h : (((run sampleFeedDeps s (bs s)).db.payload (tableName s)).isSome)) :
    Scans (run sampleFeedDeps s (bs s)).db s (sampleRows (bs s) s) := by
  obtain ⟨t, ht⟩ := Option.isSome_iff_exists.1 h
  refine ⟨t, ht, ?_⟩
  rw [sampleRows, ht]
  exact List.Perm.refl _

/-- Lists of the one target are read back. -/
theorem read_targets {targets : List String} (h : targets = [] ∨ targets = ["1"]) :
    readStrings sampleFeedDeps (writeStrings sampleFeedDeps targets) = some targets := by
  rcases h with rfl | rfl
  · decide +kernel
  · decide +kernel

theorem few_targets {targets : List String} (h : targets = [] ∨ targets = ["1"]) :
    targets.length < 100 := by
  rcases h with rfl | rfl
  · decide
  · decide

theorem joins_agree_on_an_account_and_a_user :
    ProjectionRegistry.validate ⟨[sampleJoin]⟩ = .ok () ∧
    AgreesR sampleFeedDeps sampleJoin sampleOnline.cache
      (rebuiltR sampleFeedDeps sampleJoin (fun s => .ok (sampleRows (sampleOnline.batches s) s)) id
        fun _ => none) := by
  have hvalid : ProjectionRegistry.validate ⟨[sampleJoin]⟩ = .ok () := by decide +kernel
  have hone : ∀ o ∈ sampleOnline.processed, Enters "main" o →
      target sampleFeedDeps sampleJoin o = "1" := by
    decide +kernel
  refine ⟨hvalid, joins_agree sampleFeedDeps ⟨[sampleJoin]⟩ sampleJoin "main" ["users"]
    sampleOnlineActs sampleOnline _ id _ (Deps.length_bounded _) hvalid (List.mem_singleton_self _) rfl
    stepsMeet_sampleOnline.1 stepsMeet_sampleOnline.2 (of_mem_sampleJoin ?_ ?_)
    (sourced_sampleStores (by decide) readsBack_sampleBatches)
    (of_mem_sampleJoin ?_ ?_) (fun l => List.Perm.refl l)
    (fun key targets hnd h => few_targets (targets_of_one hone hnd h))
    (fun key targets hnd h => read_targets (targets_of_one hone hnd h)) joined_sampleOnline⟩
  · exact feed_sampleBatches.symm
  · exact feed_sampleAccountBatches.symm
  · exact scans_sampleRows sampleOnline.batches (by decide +kernel)
  · exact scans_sampleRows sampleOnline.batches (by decide +kernel)

/-- The entry of a user who was deleted comes back online with the account, and is not made
offline. -/
theorem deleted_row_comes_back :
    ¬ ∀ (D : Deps) (registry : ProjectionRegistry) (proj : ProjectionConfig) (s₁ : String)
        (others : List String) (as : List Act) (st : Online) (rows : String → List PayloadRow)
        (order : List (String × Json) → List (String × Json)) (prior : Entries),
        (∀ j, (D.toVec j).length < 2 ^ 63) →
        registry.validate = .ok () → proj ∈ registry.projections → proj.pattern = .R →
        proj.sourceStores = s₁ :: others →
        StepsMeet (Online.step D proj) (CacheUpToDate D proj) Online.start as →
        runFrom (Online.step D proj) Online.start as = some st →
        (∀ s ∈ proj.sourceStores, st.processedOf s = feed D (run D s (st.batches s))) →
        Sourced D proj st.batches →
        (∀ s ∈ proj.sourceStores, Scans (run D s (st.batches s)).db s (rows s)) →
        (∀ l, (order l).Perm l) →
        (∀ (key : String) (targets : List String), targets.Nodup →
          (∀ t ∈ targets, RegisteredR D proj s₁ others st.processed key t) → targets.length < 100) →
        (∀ (key : String) (targets : List String), targets.Nodup →
          (∀ t ∈ targets, RegisteredR D proj s₁ others st.processed key t) →
          readStrings D (writeStrings D targets) = some targets) →
        (∀ event ∈ st.processed, SendableR D proj event) →
        AgreesR D proj st.cache (rebuiltR D proj (fun s => .ok (rows s)) order prior) := by
  intro h
  have hone : ∀ o ∈ sampleDeletion.processed, Enters "main" o →
      target sampleFeedDeps sampleJoin o = "1" := by
    decide +kernel
  have hagrees := (h sampleFeedDeps ⟨[sampleJoin]⟩ sampleJoin "main" ["users"]
    sampleDeletionActs sampleDeletion (fun s => sampleRows (sampleDeletion.batches s) s) id (fun _ => none)
    (Deps.length_bounded _) (by decide +kernel) (List.mem_singleton_self _) rfl rfl
    stepsMeet_sampleDeletion.1 stepsMeet_sampleDeletion.2 (of_mem_sampleJoin ?_ ?_)
    (sourced_sampleStores (by decide) readsBack_sampleUpsertAndDelete)
    (of_mem_sampleJoin ?_ ?_) (fun l => List.Perm.refl l)
    (fun key targets hnd h => few_targets (targets_of_one hone hnd h))
    (fun key targets hnd h => read_targets (targets_of_one hone hnd h)) (by decide +kernel)).entries "1"
  · have honline :
        (sampleDeletion.cache (projectionKey sampleJoin "1")).isSome = true := by
      decide +kernel
    have hoffline : (rebuiltR sampleFeedDeps sampleJoin
        (fun s => .ok (sampleRows (sampleDeletion.batches s) s)) id (fun _ => none)
        (projectionKey sampleJoin "1")).isSome = false := by
      decide +kernel
    rw [hagrees, hoffline] at honline
    cases honline
  · exact feed_sampleUpsertAndDelete.symm
  · exact feed_sampleAccountBatches.symm
  · exact scans_sampleRows sampleDeletion.batches (by decide +kernel)
  · exact scans_sampleRows sampleDeletion.batches (by decide +kernel)

end Reconciler

end Ixmati
