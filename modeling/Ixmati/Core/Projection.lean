import Ixmati.Core.Document

/-!
# Projections

The configuration of the read models, `projection.rs` of `ixmati-core`: a projection of pattern R
joins an entity of its first source store with the one that it references in the second, a
projection of pattern M copies fields.  `validate` lists what is wrong with a registry.
-/

namespace Ixmati

/-- How a projection is made. -/
inductive ProjectionPattern where
  | R
  | M
  deriving DecidableEq

/-- The fields that a projection of pattern M copies from the entities of a store. -/
structure CopyField where
  sourceStore : String
  sourceEntity : String
  fields : List String

/-- A projection. -/
structure ProjectionConfig where
  name : String
  pattern : ProjectionPattern
  sourceStores : List String
  targetKey : String
  ttlSeconds : UInt64
  copyFields : Option (List CopyField)

/-- The configured projections. -/
structure ProjectionRegistry where
  projections : List ProjectionConfig

namespace ProjectionRegistry

/-- The projections that an event of the store concerns. -/
def forStore (r : ProjectionRegistry) (store : String) : List ProjectionConfig :=
  r.projections.filter fun p => decide (store ∈ p.sourceStores)

/-- What is wrong with the fields to copy. -/
def copyFieldErrors (name : String) (field : CopyField) : List String :=
  (if field.sourceStore = "" then
    ["projection '" ++ name ++ "': copy_field source_store must not be empty"] else []) ++
  (if field.fields = [] then
    ["projection '" ++ name ++ "': copy_field must specify at least one field"] else [])

/-- What is wrong with a projection. -/
def projectionErrors (proj : ProjectionConfig) : List String :=
  (if proj.name = "" then ["projection name must not be empty"] else []) ++
  (if proj.sourceStores = [] then
    ["projection '" ++ proj.name ++ "': at least one source_store required"] else []) ++
  (if proj.sourceStores.length > 2 then
    ["projection '" ++ proj.name ++ "': max 2 source_stores allowed"] else []) ++
  (if proj.targetKey = "" then
    ["projection '" ++ proj.name ++ "': target_key must not be empty"] else []) ++
  (if proj.ttlSeconds = 0 then
    ["projection '" ++ proj.name ++ "': ttl_seconds must be positive"] else []) ++
  (if proj.pattern = .M ∧ proj.copyFields.isNone then
    ["projection '" ++ proj.name ++ "': pattern M requires copy_fields"] else []) ++
  (proj.copyFields.getD []).flatMap (copyFieldErrors proj.name)

/-- `ProjectionRegistry::validate`. -/
def validate (r : ProjectionRegistry) : Except (List String) Unit :=
  let errors := r.projections.flatMap projectionErrors
  if errors.isEmpty then .ok () else .error errors

/-- What an accepted registry says about each of its projections. -/
structure Sound (proj : ProjectionConfig) : Prop where
  named : proj.name ≠ ""
  sources : proj.sourceStores ≠ [] ∧ proj.sourceStores.length ≤ 2
  target : proj.targetKey ≠ ""
  copies : proj.pattern = .M → ∃ fields, proj.copyFields = some fields

theorem sound_of_validate {r : ProjectionRegistry} (h : r.validate = .ok ()) {proj : ProjectionConfig}
    (hp : proj ∈ r.projections) : Sound proj := by
  have hnone : projectionErrors proj = [] := by
    unfold validate at h
    simp only [List.isEmpty_iff, List.flatMap_eq_nil_iff] at h
    split_ifs at h with hall
    exact hall proj hp
  simp only [projectionErrors, List.append_eq_nil_iff, ite_eq_right_iff, List.cons_ne_nil, imp_false]
    at hnone
  obtain ⟨⟨⟨⟨⟨⟨hname, hsome⟩, htwo⟩, htarget⟩, -⟩, hcopy⟩, -⟩ := hnone
  refine ⟨hname, ⟨hsome, by omega⟩, htarget, fun hM => ?_⟩
  cases hc : proj.copyFields with
  | none => exact absurd ⟨hM, by rw [hc]; rfl⟩ hcopy
  | some fields => exact ⟨fields, rfl⟩

end ProjectionRegistry

end Ixmati
