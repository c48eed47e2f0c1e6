import Ixmati.Projector.Engine
import Ixmati.Writer.Tables

/-!
# The reconciler

`Reconciler::rebuild_pattern_r` and `rebuild_pattern_m`: the read models made anew from the payload
tables, as scripts of calls of the cache client.  A rebuild returns the number of entities or the error
it stopped at.  The scripts run on the wire (`rebuiltM`, `rebuiltR`).

`rowsOf` gives the rows of a payload table in the order in which SQLite returns them, or the error of
a store that cannot be opened or read.  A `HashMap` is a list of its entries; the order in which one
is iterated is not specified, and is passed as `order`.
-/

namespace Ixmati

open Cache (Entries Script)

namespace Reconciler

open Projector

/-- `singular_entity`. -/
def singularEntity (storeName : String) : String :=
  String.ofList (storeName.toList.rdropWhile (· = 's'))

/-- `event_key_from_value`. -/
def eventKeyFromValue (D : Deps) (payload : Json) (targetKey fallback : String) : String :=
  payload.fieldText D targetKey fallback

/-- `reference_key_from_value`. -/
def referenceKeyFromValue (D : Deps) (payload : Json) (storeName fallback : String) : String :=
  payload.fieldText D (singularEntity storeName ++ "_id") fallback

/-! ### Pattern M -/

/-- A row in the loop of `rebuild_pattern_m` over the rows of a definition. -/
def rebuildRowM (D : Deps) (proj : ProjectionConfig) (fields : List String) (count : ℕ)
    (row : PayloadRow) : Script ℕ :=
  let payload := (D.fromSlice row.payload).getD .null
  let targetKey := eventKeyFromValue D payload proj.targetKey row.key
  let copied := copyFields payload fields []
  if copied.isEmpty then pure count
  else do
    Script.setProjection proj.name targetKey (materialized D proj.targetKey targetKey copied)
    return count + 1

/-- The loop of `rebuild_pattern_m` over the definitions. -/
def rebuildDefinitions (D : Deps) (proj : ProjectionConfig)
    (rowsOf : String → Except String (List PayloadRow)) :
    List CopyField → ℕ → Script (Except String ℕ)
  | [], count => return .ok count
  | d :: ds, count =>
    match rowsOf d.sourceStore with
    | .error message => return .error message
    | .ok rows => do
      let count ← (rows.filter fun row => decide (row.entity = d.sourceEntity)).foldlM
        (rebuildRowM D proj d.fields) count
      rebuildDefinitions D proj rowsOf ds count

/-- `Reconciler::rebuild_pattern_m`. -/
def rebuildPatternM (D : Deps) (proj : ProjectionConfig)
    (rowsOf : String → Except String (List PayloadRow)) : Script (Except String ℕ) :=
  match proj.copyFields with
  | none => return .error "pattern M requires copy_fields"
  | some copy => rebuildDefinitions D proj rowsOf copy 0

/-- The cache after `rebuild_pattern_m`. -/
def rebuiltM (D : Deps) (proj : ProjectionConfig)
    (rowsOf : String → Except String (List PayloadRow)) (e : Entries) : Entries :=
  ((rebuildPatternM D proj rowsOf).exec Cache.wire e).2

/-! ### Pattern R -/

/-- `HashMap::insert`. -/
def insertEntity (entities : List (String × Json)) (key : String) (value : Json) :
    List (String × Json) :=
  entities.filter (fun p => decide (p.1 ≠ key)) ++ [(key, value)]

/-- The entities of a store by key; rows that cannot be read are left out, and the entity name is
ignored. -/
def entitiesOf (D : Deps) (rows : List PayloadRow) : List (String × Json) :=
  rows.foldl (fun entities row =>
    match D.fromSlice row.payload with
    | some value => insertEntity entities row.key value
    | none => entities) []

/-- `store_data`, for the stores up to one that cannot be read. -/
def storeData (D : Deps) (rowsOf : String → Except String (List PayloadRow)) :
    List String → Except String (List (String × List (String × Json)))
  | [] => .ok []
  | s :: stores => do
    let rows ← rowsOf s
    let rest ← storeData D rowsOf stores
    return (s, entitiesOf D rows) :: rest

/-- The reconciler registers a target in an entry of the reverse index. -/
def registerTarget (D : Deps) (indexKey projKey : String) : Script Unit := do
  let targets ← targetsIn D <$> Script.getRaw indexKey
  if projKey ∉ targets ∧ targets.length < 100 then
    Script.setRaw indexKey (writeStrings D (targets ++ [projKey]))
  else pure ()

/-- The loop over the other source stores for one primary entity. -/
def rebuildReferences (D : Deps) (proj : ProjectionConfig)
    (data : List (String × List (String × Json))) (key : String) (payload : Json)
    (projKey : String) : List String → List (String × Json) → Script (List (String × Json))
  | [], fields => return fields
  | s :: stores, fields =>
    match data.lookup s with
    | none => rebuildReferences D proj data key payload projKey stores fields
    | some others => do
      let lookupKey := referenceKeyFromValue D payload s key
      let fields :=
        match others.lookup lookupKey with
        | some other => Json.insertField s other fields
        | none => fields
      registerTarget D
        ("ridx:" ++ proj.name ++ ":" ++ s ++ ":" ++ singularEntity s ++ ":" ++ lookupKey) projKey
      rebuildReferences D proj data key payload projKey stores fields

/-- The loop over the primary entities. -/
def rebuildEntity (D : Deps) (proj : ProjectionConfig) (primaryStore : String)
    (data : List (String × List (String × Json))) (entity : String × Json) : Script Unit := do
  let (key, payload) := entity
  let projKey := eventKeyFromValue D payload proj.targetKey key
  let fields ← rebuildReferences D proj data key payload projKey (proj.sourceStores.drop 1)
    (Json.insertField primaryStore payload [])
  Script.setProjection proj.name projKey (D.toVec (.object fields))

/-- `Reconciler::rebuild_pattern_r`. -/
def rebuildPatternR (D : Deps) (proj : ProjectionConfig)
    (rowsOf : String → Except String (List PayloadRow))
    (order : List (String × Json) → List (String × Json)) : Script (Except String ℕ) := do
  Script.deleteByPrefix ("ridx:" ++ proj.name ++ ":")
  match storeData D rowsOf proj.sourceStores with
  | .error message => return .error message
  | .ok data =>
    match proj.sourceStores with
    | [] => return .ok 0
    | primaryStore :: _ =>
      match data.lookup primaryStore with
      | none => return .error ("no data for primary store '" ++ primaryStore ++ "'")
      | some primaryData => do
        forM (order primaryData) (rebuildEntity D proj primaryStore data)
        return .ok primaryData.length

/-- The cache after `rebuild_pattern_r`. -/
def rebuiltR (D : Deps) (proj : ProjectionConfig)
    (rowsOf : String → Except String (List PayloadRow))
    (order : List (String × Json) → List (String × Json)) (e : Entries) : Entries :=
  ((rebuildPatternR D proj rowsOf order).exec Cache.wire e).2

end Reconciler

end Ixmati
