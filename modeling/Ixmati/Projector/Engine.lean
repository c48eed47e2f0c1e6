import Ixmati.Cache.Calls
import Ixmati.Core.Projection
import Ixmati.Lib.Backlog
import Mathlib.Data.List.DropRight

/-!
# The projector's engine

`ProjectorEngine::process_event_async` with its two patterns, `pattern_r.rs` and `pattern_m.rs`, as
scripts of calls of the cache client (`Cache.Script`).  A read model is kept under `p:<name>:<key>`.
Pattern R also keeps a reverse index: under `ridx:<name>:<store>:<entity>:<key>` the projection keys of
all primary entities that reference that one, at most `maxDependents`.

The scripts run on the wire (`afterM`, `afterR`, `afterEvent`), where a key with a space or a line break
in it, or with white space at its end, is not the key that the server takes.

By `exec_processMAsync` an event writes at most one entry of a projection of pattern M, and what it
writes depends on the event alone.
-/

namespace Ixmati

open Cache (Entries Script)

namespace Projector

/-! ### Keys -/

/-- `CacheClient::projection_key`. -/
def projectionKey (proj : ProjectionConfig) (key : String) : String :=
  (Cache.Name.projection proj.name key).toKey

theorem projectionKey_inj {proj : ProjectionConfig} {k k' : String}
    (h : projectionKey proj k = projectionKey proj k') : k = k' := by
  simpa [projectionKey, Cache.Name.toKey] using h

/-- What `CacheClient::get` finds for an entity. -/
abbrev Lookup := String → String → String → Option Bytes

/-- `CacheClient::get`. -/
def cacheGet (e : Entries) : Lookup := fun store entity key =>
  e (Cache.Name.entity store entity key).toKey

/-- `MAX_DEPENDENTS`. -/
def maxDependents : ℕ := 100

/-- `dependency_index_key`. -/
def dependencyIndexKey (proj : ProjectionConfig) (store entity key : String) : String :=
  "ridx:" ++ proj.name ++ ":" ++ store ++ ":" ++ entity ++ ":" ++ key

/-- `infer_entity_from_store`. -/
def inferEntityFromStore (storeName : String) : String :=
  String.ofList (storeName.toList.rdropWhile (· = 's'))

/-- `resolve_lookup_key`. -/
def resolveLookupKey (D : Deps) (event : EventEnvelope) (storeName : String) : String :=
  event.payload.fieldText D (inferEntityFromStore storeName ++ "_id") event.key

/-- `event_key_from_payload`. -/
def eventKeyFromPayload (D : Deps) (event : EventEnvelope) (targetKey : String) : String :=
  event.payload.fieldText D targetKey event.key

/-- `extract_target_key`. -/
def extractTargetKey (D : Deps) (event : EventEnvelope) (targetKey : String) : String :=
  event.payload.fieldText D targetKey event.key

/-- `is_deleted`. -/
def isDeleted (event : EventEnvelope) : Bool :=
  ".deleted".toList.isSuffixOf event.eventType.toList ||
    ".eliminado".toList.isSuffixOf event.eventType.toList

/-! ### Pattern M -/

/-- Copy the listed fields that the payload has. -/
def copyFields (payload : Json) (fields : List String) (into : List (String × Json)) :
    List (String × Json) :=
  fields.foldl (fun into name =>
    match payload.get? name with
    | some value => Json.insertField name value into
    | none => into) into

/-- The document of a projection of pattern M: the copied fields and the target key. -/
def materialized (D : Deps) (targetField targetKey : String) (copied : List (String × Json)) : Bytes :=
  D.toVec (.object (Json.insertField targetField (.string targetKey) copied))

/-- The fields that `process_m_async` copies: a definition counts when the store or the entity is
its own. -/
def copiedOnline (copy : List CopyField) (event : EventEnvelope) : List (String × Json) :=
  copy.foldl (fun into def_ =>
    if def_.sourceStore = event.store ∨ def_.sourceEntity = event.entity then
      copyFields event.payload def_.fields into
    else into) []

/-- `process_m_async`. -/
def processMAsync (D : Deps) (proj : ProjectionConfig) (event : EventEnvelope) : Script Unit :=
  match proj.copyFields with
  | none => pure ()
  | some copy =>
    let targetKey := extractTargetKey D event proj.targetKey
    let copied := copiedOnline copy event
    if copied.isEmpty then pure ()
    else
      Script.setProjection proj.name targetKey (materialized D proj.targetKey targetKey copied)

/-- The cache after `process_m_async`. -/
def afterM (D : Deps) (proj : ProjectionConfig) (e : Entries) (event : EventEnvelope) : Entries :=
  ((processMAsync D proj event).exec Cache.wire e).2

/-- What an event writes to a projection of pattern M. -/
def writeM (D : Deps) (proj : ProjectionConfig) (copy : List CopyField) (event : EventEnvelope) :
    Option (String × Option Bytes) :=
  if (copiedOnline copy event).isEmpty then none
  else
    some (projectionKey proj (extractTargetKey D event proj.targetKey),
      some (materialized D proj.targetKey (extractTargetKey D event proj.targetKey)
        (copiedOnline copy event)))

theorem exec_processMAsync {D : Deps} {proj : ProjectionConfig} {copy : List CopyField}
    (hc : proj.copyFields = some copy) (e : Entries) (event : EventEnvelope) :
    (processMAsync D proj event).exec Cache.ideal e =
      ((), settle e (writeM D proj copy event).toList) := by
  unfold processMAsync writeM
  simp only [hc]
  split_ifs <;> rfl

/-! ### The copied fields -/

theorem ordered_copyFields (payload : Json) (fields : List String) {into : List (String × Json)}
    (h : Json.Ordered into) : Json.Ordered (copyFields payload fields into) := by
  unfold copyFields
  refine List.foldlRecOn fields _ h fun into h name _ => ?_
  split
  · exact Json.ordered_insertField h _ _
  · exact h

theorem lookup_copyFields (payload : Json) (fields : List String) (into : List (String × Json))
    (f : String) :
    (copyFields payload fields into).lookup f =
      if f ∈ fields then (payload.get? f).or (into.lookup f) else into.lookup f := by
  induction fields generalizing into with
  | nil => rfl
  | cons name fields ih =>
    have hstep : ((match payload.get? name with
        | some value => Json.insertField name value into
        | none => into) : List (String × Json)).lookup f =
        if f = name then (payload.get? f).or (into.lookup f) else into.lookup f := by
      cases hname : payload.get? name with
      | none => by_cases hf : f = name <;> simp [hf, hname]
      | some value =>
        rw [Json.lookup_insertField]
        by_cases hf : f = name <;> simp [hf, hname]
    unfold copyFields at ih ⊢
    rw [List.foldl_cons, ih, hstep]
    by_cases hf : f = name
    · cases hg : payload.get? f <;> simp [hf]
    · simp [hf]

/-- The definition counts online for the event. -/
def Concerns (d : CopyField) (event : EventEnvelope) : Prop :=
  d.sourceStore = event.store ∨ d.sourceEntity = event.entity

instance (d : CopyField) (event : EventEnvelope) : Decidable (Concerns d event) :=
  inferInstanceAs (Decidable (_ ∨ _))

/-- A field is copied online if a definition that counts lists it. -/
theorem lookup_copiedOnline (copy : List CopyField) (event : EventEnvelope) (f : String) :
    (copiedOnline copy event).lookup f =
      if ∃ d ∈ copy, Concerns d event ∧ f ∈ d.fields then event.payload.get? f else none := by
  unfold copiedOnline
  induction copy using List.reverseRecOn with
  | nil => simp
  | append_singleton copy d ih =>
    rw [List.foldl_append, List.foldl_cons, List.foldl_nil]
    simp only [List.mem_append, List.mem_singleton, or_and_right, exists_or, exists_eq_left]
    by_cases hd : Concerns d event
    · rw [if_pos (show d.sourceStore = event.store ∨ d.sourceEntity = event.entity from hd),
        lookup_copyFields, ih]
      by_cases hf : f ∈ d.fields
      · rw [if_pos hf, if_pos (Or.inr ⟨hd, hf⟩)]
        split_ifs <;> cases event.payload.get? f <;> rfl
      · rw [if_neg hf]
        simp only [hf, and_false, or_false]
    · rw [if_neg (show ¬ (d.sourceStore = event.store ∨ d.sourceEntity = event.entity) from hd), ih]
      simp only [hd, false_and, or_false]

theorem ordered_copiedOnline (copy : List CopyField) (event : EventEnvelope) :
    Json.Ordered (copiedOnline copy event) := by
  unfold copiedOnline
  refine List.foldlRecOn copy _ List.Pairwise.nil fun into h d _ => ?_
  split_ifs
  · exact ordered_copyFields _ _ h
  · exact h

/-! ### Pattern R -/

/-- The document of a projection of pattern R: the component of each source store that has one. -/
def joined (D : Deps) (stores : List String) (component : String → Option Json) : Bytes :=
  D.toVec (.object (stores.foldl (fun into s =>
    match component s with
    | some value => Json.insertField s value into
    | none => into) []))

/-- The targets in the value of an entry of the reverse index. -/
def targetsIn (D : Deps) (value : Option Bytes) : List String := (value.bind (readStrings D)).getD []

/-- The dependents that an entry of the reverse index lists. -/
def dependents (D : Deps) (e : Entries) (indexKey : String) : List String := targetsIn D (e indexKey)

/-- The loop that makes the fields of a document, one store after the other. -/
def collectFields (stores : List String) (component : String → Script (Option Json)) :
    Script (List (String × Json)) :=
  stores.foldlM (fun into s => do
    let found ← component s
    return match found with
      | some value => Json.insertField s value into
      | none => into) []

/-- `get`, as a document. -/
def getDocument (D : Deps) (store entity key : String) : Script (Option Json) := do
  let cached ← Script.get store entity key
  return cached.bind D.fromSlice

/-- One round of the loop of `register_dependencies`. -/
def registerDependency (D : Deps) (proj : ProjectionConfig) (event : EventEnvelope)
    (projKey store : String) : Script Unit := do
  let indexKey := dependencyIndexKey proj store (inferEntityFromStore store)
    (resolveLookupKey D event store)
  let targets ← targetsIn D <$> Script.getRaw indexKey
  if projKey ∈ targets then pure ()
  else if targets.length ≥ maxDependents then pure ()
  else Script.setRaw indexKey (writeStrings D (targets ++ [projKey]))

/-- `register_dependencies`. -/
def registerDependencies (D : Deps) (proj : ProjectionConfig) (event : EventEnvelope)
    (projKey : String) : Script Unit :=
  forM (proj.sourceStores.drop 1) (registerDependency D proj event projKey)

/-- One round of the loop of `refresh_references_for_secondary_event`. -/
def refreshReference (D : Deps) (proj : ProjectionConfig) (event : EventEnvelope)
    (targetKey : String) : Script Unit :=
  let projKey := projectionKey proj targetKey
  if isDeleted event then Script.delRaw projKey
  else do
    let fields ← collectFields proj.sourceStores fun s =>
      -- the event is authoritative for its own store
      if s = event.store then pure (some event.payload)
      else getDocument D s (inferEntityFromStore s) targetKey
    Script.setRaw projKey (D.toVec (.object fields))

/-- `refresh_references_for_secondary_event`. -/
def refreshReferences (D : Deps) (proj : ProjectionConfig) (event : EventEnvelope) : Script Unit := do
  let targets ← targetsIn D <$>
    Script.getRaw (dependencyIndexKey proj event.store event.entity event.key)
  forM targets (refreshReference D proj event)

/-- `process_r_async`. -/
def processRAsync (D : Deps) (proj : ProjectionConfig) (event : EventEnvelope) : Script Unit :=
  match proj.sourceStores.head? with
  | none => pure ()
  | some primaryStore =>
    if event.store ≠ primaryStore then refreshReferences D proj event
    else do
      let fields ← collectFields proj.sourceStores fun s =>
        if s = event.store then pure (some event.payload)
        else getDocument D s (inferEntityFromStore s) (resolveLookupKey D event s)
      let projKey := eventKeyFromPayload D event proj.targetKey
      if isDeleted event then Script.delRaw (projectionKey proj projKey)
      else do
        Script.setProjection proj.name projKey (D.toVec (.object fields))
        registerDependencies D proj event projKey

/-- The cache after `process_r_async`. -/
def afterR (D : Deps) (proj : ProjectionConfig) (e : Entries) (event : EventEnvelope) : Entries :=
  ((processRAsync D proj event).exec Cache.wire e).2

/-! ### The engine -/

/-- `ProjectorEngine::process_event_async`. -/
def processEventAsync (D : Deps) (registry : ProjectionRegistry) (event : EventEnvelope) :
    Script Unit :=
  forM (registry.forStore event.store) fun proj =>
    match proj.pattern with
    | .R => processRAsync D proj event
    | .M => processMAsync D proj event

/-- The cache after `process_event_async`. -/
def afterEvent (D : Deps) (registry : ProjectionRegistry) (e : Entries) (event : EventEnvelope) :
    Entries :=
  ((processEventAsync D registry event).exec Cache.wire e).2

end Projector

end Ixmati
