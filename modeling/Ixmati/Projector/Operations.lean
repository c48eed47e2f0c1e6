import Ixmati.Projector.Engine
import Mathlib.Data.List.Flatten

/-!
# What an event does to the cache

For the engine an event is a list of operations on the cache, and which operations these are depends on
the event, the registry and the `c:` entries only: to write an entry, to register a target in an entry
of the reverse index, or to write one entry for each target that is registered.

* `processEventAsync_eq` : the engine carries the operations of the event out one after the other;
* `keyed_operations` : operations write under `p:`, and change the reverse index under `ridx:` by
  registering only.
-/

namespace Ixmati

open Cache (Entries Script)

namespace Projector

/-- An operation on the cache. -/
inductive Operation where
  /-- Set an entry or delete it. -/
  | write (key : String) (value : Option Bytes)
  /-- Register a target in an entry of the reverse index. -/
  | register (index target : String)
  /-- Write an entry for each registered target. -/
  | refresh (index : String) (entry : String → String × Option Bytes)

/-- Carry an operation out. -/
def Operation.apply (D : Deps) (e : Entries) : Operation → Entries
  | .write key value => Function.update e key value
  | .register index target =>
    let targets := dependents D e index
    if target ∈ targets then e
    else if targets.length ≥ maxDependents then e
    else Function.update e index (some (writeStrings D (targets ++ [target])))
  | .refresh index entry => settle e ((dependents D e index).map entry)

/-! ### The operations of an event -/

/-- The component of a source store in the document that an event of the first source store makes. -/
def component (D : Deps) (lookup : Lookup) (event : EventEnvelope) (store : String) : Option Json :=
  if store = event.store then some event.payload
  else (lookup store (inferEntityFromStore store) (resolveLookupKey D event store)).bind D.fromSlice

/-- The component of a source store in the document that an event of another source store makes for a
target. -/
def refreshed (D : Deps) (lookup : Lookup) (event : EventEnvelope) (target store : String) :
    Option Json :=
  if store = event.store then some event.payload
  else (lookup store (inferEntityFromStore store) target).bind D.fromSlice

/-- What an event of another source store writes for a target. -/
def refreshEntry (D : Deps) (proj : ProjectionConfig) (lookup : Lookup) (event : EventEnvelope)
    (target : String) : String × Option Bytes :=
  (projectionKey proj target,
    if isDeleted event then none
    else some (joined D proj.sourceStores (refreshed D lookup event target)))

/-- The operations of an event on a projection of pattern R. -/
def operationsR (D : Deps) (proj : ProjectionConfig) (lookup : Lookup) (event : EventEnvelope) :
    List Operation :=
  match proj.sourceStores.head? with
  | none => []
  | some primaryStore =>
    let projKey := eventKeyFromPayload D event proj.targetKey
    if event.store ≠ primaryStore then
      [.refresh (dependencyIndexKey proj event.store event.entity event.key)
        (refreshEntry D proj lookup event)]
    else if isDeleted event then [.write (projectionKey proj projKey) none]
    else
      .write (projectionKey proj projKey)
          (some (joined D proj.sourceStores (component D lookup event))) ::
        (proj.sourceStores.drop 1).map fun store =>
          .register (dependencyIndexKey proj store (inferEntityFromStore store)
            (resolveLookupKey D event store)) projKey

/-- The operations of an event on a projection of pattern M. -/
def operationsM (D : Deps) (proj : ProjectionConfig) (event : EventEnvelope) : List Operation :=
  match proj.copyFields with
  | none => []
  | some copy => (writeM D proj copy event).toList.map fun u => .write u.1 u.2

/-- The operations of an event on a projection. -/
def operationsOf (D : Deps) (lookup : Lookup) (event : EventEnvelope) (proj : ProjectionConfig) :
    List Operation :=
  match proj.pattern with
  | .R => operationsR D proj lookup event
  | .M => operationsM D proj event

/-- The operations of an event. -/
def operations (D : Deps) (registry : ProjectionRegistry) (lookup : Lookup) (event : EventEnvelope) :
    List Operation :=
  (registry.forStore event.store).flatMap (operationsOf D lookup event)

variable {D : Deps} {proj : ProjectionConfig} {lookup : Lookup} {event : EventEnvelope}

/-! ### Documents -/

section Collect

variable {stores : List String} {script : String → Script (Option Json)} {f : String → Option Json}
  {e : Entries} {ok : Cache.Command → Prop}

/-- The fields of a document whose components are known. -/
theorem exec_collectFields (h : ∀ s ∈ stores, (script s).exec Cache.ideal e = (f s, e)) :
    ((collectFields stores script).exec Cache.ideal e).2 = e ∧
      D.toVec (.object ((collectFields stores script).exec Cache.ideal e).1) = joined D stores f := by
  unfold collectFields joined
  generalize ([] : List (String × Json)) = into
  induction stores generalizing into with
  | nil => exact ⟨rfl, rfl⟩
  | cons s stores ih =>
    rw [List.foldlM_cons, Prog.exec_bind, Prog.exec_bind, h s List.mem_cons_self, List.foldl_cons]
    exact ih (fun x hx => h x (List.mem_cons_of_mem _ hx)) _

theorem asks_collectFields (h : ∀ s ∈ stores, (script s).exec Cache.ideal e = (f s, e))
    (hok : ∀ s ∈ stores, (script s).Asks ok Cache.ideal e) :
    (collectFields stores script).Asks ok Cache.ideal e := by
  unfold collectFields
  generalize ([] : List (String × Json)) = into
  induction stores generalizing into with
  | nil => trivial
  | cons s stores ih =>
    rw [List.foldlM_cons, Prog.asks_bind, Prog.asks_bind, Prog.exec_bind, h s List.mem_cons_self]
    exact ⟨⟨hok s List.mem_cons_self, trivial⟩, ih (fun x hx => h x (List.mem_cons_of_mem _ hx))
      (fun x hx => hok x (List.mem_cons_of_mem _ hx)) _⟩

end Collect

theorem exec_component (event : EventEnvelope) (e : Entries) (store : String) :
    (if store = event.store then pure (some event.payload)
      else getDocument D store (inferEntityFromStore store) (resolveLookupKey D event store) :
        Script (Option Json)).exec Cache.ideal e =
      (component D (cacheGet e) event store, e) := by
  unfold component
  split_ifs <;> rfl

theorem exec_refreshed (event : EventEnvelope) (e : Entries) (target store : String) :
    (if store = event.store then pure (some event.payload)
      else getDocument D store (inferEntityFromStore store) target :
        Script (Option Json)).exec Cache.ideal e =
      (refreshed D (cacheGet e) event target store, e) := by
  unfold refreshed
  split_ifs <;> rfl

/-! ### The keys that operations are about -/

/-- The key of an entry of a projection. -/
def IsEntry (key : String) : Prop := key.toList.head? = some 'p'

/-- The key of an entry of the reverse index. -/
def IsIndex (key : String) : Prop := key.toList.head? = some 'r'

/-- The operation writes entries of projections and registers in the reverse index. -/
def Operation.Keyed : Operation → Prop
  | .write key _ => IsEntry key
  | .register index _ => IsIndex index
  | .refresh index entry => IsIndex index ∧ ∀ target, IsEntry (entry target).1

theorem isEntry_projectionKey (proj : ProjectionConfig) (key : String) :
    IsEntry (projectionKey proj key) := by
  simp [IsEntry, projectionKey, Cache.Name.toKey, String.toList_append]

theorem isIndex_dependencyIndexKey (proj : ProjectionConfig) (store entity key : String) :
    IsIndex (dependencyIndexKey proj store entity key) := by
  simp [IsIndex, dependencyIndexKey, String.toList_append]

theorem keyed_operationsR {op : Operation} (h : op ∈ operationsR D proj lookup event) : op.Keyed := by
  unfold operationsR at h
  cases hhead : proj.sourceStores.head? with
  | none => simp [hhead] at h
  | some primaryStore =>
    simp only [hhead] at h
    split_ifs at h
    · rw [List.mem_singleton.1 h]
      exact ⟨isIndex_dependencyIndexKey .., fun _ => isEntry_projectionKey ..⟩
    · rw [List.mem_singleton.1 h]
      exact isEntry_projectionKey ..
    · rcases List.mem_cons.1 h with rfl | h
      · exact isEntry_projectionKey ..
      · obtain ⟨store, -, rfl⟩ := List.mem_map.1 h
        exact isIndex_dependencyIndexKey ..

theorem keyed_operationsM {op : Operation} (h : op ∈ operationsM D proj event) : op.Keyed := by
  unfold operationsM at h
  cases hc : proj.copyFields with
  | none => simp [hc] at h
  | some copy =>
    simp only [hc] at h
    obtain ⟨u, hu, rfl⟩ := List.mem_map.1 h
    unfold writeM at hu
    split_ifs at hu
    · simp at hu
    · rw [Option.mem_toList.1 hu |> Option.some.inj |>.symm]
      exact isEntry_projectionKey ..

theorem keyed_operationsOf {op : Operation} (h : op ∈ operationsOf D lookup event proj) :
    op.Keyed := by
  unfold operationsOf at h
  cases hp : proj.pattern with
  | R => exact keyed_operationsR (by simpa [hp] using h)
  | M => exact keyed_operationsM (by simpa [hp] using h)

theorem keyed_operations {registry : ProjectionRegistry} {op : Operation}
    (h : op ∈ operations D registry lookup event) : op.Keyed := by
  obtain ⟨proj, -, hop⟩ := List.mem_flatMap.1 h
  exact keyed_operationsOf hop

/-- Other keys are left alone. -/
theorem Operation.apply_of_other {op : Operation} (h : op.Keyed) {key : String}
    (hentry : ¬ IsEntry key) (hindex : ¬ IsIndex key) (e : Entries) : op.apply D e key = e key := by
  cases op with
  | write k v =>
    have hne : key ≠ k := fun heq => hentry (heq ▸ h)
    exact Function.update_of_ne hne _ _
  | register index target =>
    have hne : key ≠ index := fun heq => hindex (heq ▸ h)
    simp only [apply]
    split_ifs
    · rfl
    · rfl
    · exact Function.update_of_ne hne _ _
  | refresh index entry =>
    refine settle_of_not_mem fun hmem => hentry ?_
    obtain ⟨u, hu, rfl⟩ := List.mem_map.1 hmem
    obtain ⟨target, -, rfl⟩ := List.mem_map.1 hu
    exact h.2 target

theorem foldl_of_other {ops : List Operation} (h : ∀ op ∈ ops, op.Keyed) {key : String}
    (hentry : ¬ IsEntry key) (hindex : ¬ IsIndex key) (e : Entries) :
    ops.foldl (Operation.apply D) e key = e key := by
  induction ops generalizing e with
  | nil => rfl
  | cons op ops ih =>
    rw [List.foldl_cons, ih fun op' h' => h op' (List.mem_cons_of_mem _ h'),
      Operation.apply_of_other (h op (List.mem_cons_self ..)) hentry hindex]

/-- The `c:` entries are left alone. -/
theorem cacheGet_foldl {ops : List Operation} (h : ∀ op ∈ ops, op.Keyed) (e : Entries) :
    cacheGet (ops.foldl (Operation.apply D) e) = cacheGet e := by
  funext store entity key
  refine foldl_of_other h ?_ ?_ e
  · simp [IsEntry, Cache.Name.toKey, String.toList_append]
  · simp [IsIndex, Cache.Name.toKey, String.toList_append]

/-! ### Scripts as operations -/

theorem exec_registerDependency (projKey : String) (e : Entries) (store : String) :
    (registerDependency D proj event projKey store).exec Cache.ideal e =
      ((), (Operation.register (dependencyIndexKey proj store (inferEntityFromStore store)
        (resolveLookupKey D event store)) projKey).apply D e) := by
  unfold registerDependency
  simp only [Operation.apply]
  rw [map_eq_pure_bind, Prog.exec_bind, Prog.exec_bind, Script.exec_getRaw]
  show Prog.exec Cache.ideal e (if projKey ∈ dependents D e _ then _
    else if (dependents D e _).length ≥ maxDependents then _ else _) = _
  split_ifs <;> rfl

theorem exec_registerDependencies (projKey : String) (e : Entries) :
    (registerDependencies D proj event projKey).exec Cache.ideal e =
      ((), ((proj.sourceStores.drop 1).map fun store =>
        Operation.register (dependencyIndexKey proj store (inferEntityFromStore store)
          (resolveLookupKey D event store)) projKey).foldl (Operation.apply D) e) := by
  rw [List.foldl_map]
  exact Prog.exec_forM (I := fun _ => True)
    (fun store _ e _ => ⟨exec_registerDependency projKey e store, trivial⟩) trivial

/-- A target is refreshed. -/
theorem exec_refreshReference (e : Entries) (target : String) :
    (refreshReference D proj event target).exec Cache.ideal e =
      ((), Function.update e (refreshEntry D proj (cacheGet e) event target).1
        (refreshEntry D proj (cacheGet e) event target).2) := by
  unfold refreshReference refreshEntry
  split_ifs with hdel
  · rfl
  · have hfields := exec_collectFields (D := D)
      fun s (_ : s ∈ proj.sourceStores) => exec_refreshed (D := D) event e target s
    rw [Prog.exec_bind, hfields.1, ← hfields.2]
    rfl

theorem exec_refreshReferences (e : Entries) :
    (refreshReferences D proj event).exec Cache.ideal e =
      ((), (Operation.refresh (dependencyIndexKey proj event.store event.entity event.key)
        (refreshEntry D proj (cacheGet e) event)).apply D e) := by
  unfold refreshReferences
  rw [Prog.exec_bind, map_eq_pure_bind, Prog.exec_bind, Script.exec_getRaw]
  show Prog.exec Cache.ideal e (forM (dependents D e _) _) = ((), List.foldl _ e _)
  rw [List.foldl_map]
  -- the entries that are written are no `c:` entries
  refine Prog.exec_forM (I := fun e' => cacheGet e' = cacheGet e) (fun target _ e' he' => ?_) rfl
  rw [exec_refreshReference, he']
  refine ⟨rfl, ?_⟩
  rw [← he']
  funext store entity key
  refine Function.update_of_ne (fun heq => ?_) _ _
  have hentry := isEntry_projectionKey proj target
  rw [show projectionKey proj target = _ from heq.symm] at hentry
  simp [IsEntry, Cache.Name.toKey, String.toList_append] at hentry

/-- Pattern R carries the operations out. -/
theorem exec_processRAsync (e : Entries) :
    (processRAsync D proj event).exec Cache.ideal e =
      ((), (operationsR D proj (cacheGet e) event).foldl (Operation.apply D) e) := by
  unfold processRAsync operationsR
  cases proj.sourceStores.head? with
  | none => rfl
  | some primaryStore =>
    have hfields := exec_collectFields (D := D)
      fun s (_ : s ∈ proj.sourceStores) => exec_component (D := D) event e s
    simp only
    split_ifs with hstore hdel
    · exact exec_refreshReferences e
    · rw [Prog.exec_bind, hfields.1]
      rfl
    · rw [Prog.exec_bind, hfields.1, Prog.exec_bind, Script.exec_setProjection, hfields.2,
        exec_registerDependencies]
      rfl

/-- Pattern M carries the operations out. -/
theorem exec_processMAsync_operations (e : Entries) :
    (processMAsync D proj event).exec Cache.ideal e =
      ((), (operationsM D proj event).foldl (Operation.apply D) e) := by
  cases hc : proj.copyFields with
  | none =>
    simp only [processMAsync, operationsM, hc]
    rfl
  | some copy =>
    rw [exec_processMAsync hc, operationsM, hc, List.foldl_map]
    rfl

/-- **The engine carries the operations of an event out**: the `c:` entries are the same throughout,
so they can be looked up before. -/
theorem exec_processEventAsync (D : Deps) (registry : ProjectionRegistry) (e : Entries)
    (event : EventEnvelope) :
    (processEventAsync D registry event).exec Cache.ideal e =
      ((), (operations D registry (cacheGet e) event).foldl (Operation.apply D) e) := by
  unfold processEventAsync operations
  rw [List.foldl_flatMap]
  refine Prog.exec_forM (I := fun e' => cacheGet e' = cacheGet e) (fun proj _ e' he' => ?_) rfl
  rw [← he']
  refine ⟨?_, cacheGet_foldl (fun op hop => keyed_operationsOf hop) e'⟩
  unfold operationsOf
  cases proj.pattern with
  | R => exact exec_processRAsync e'
  | M => exact exec_processMAsync_operations e'

/-! ### Registering -/

/-- The value of an entry of the reverse index after a target is registered. -/
def registerIn (D : Deps) (value : Option Bytes) (target : String) : Option Bytes :=
  if target ∈ targetsIn D value then value
  else if (targetsIn D value).length ≥ maxDependents then value
  else some (writeStrings D (targetsIn D value ++ [target]))

theorem apply_register (e : Entries) (index target : String) :
    (Operation.register index target).apply D e =
      Function.update e index (registerIn D (e index) target) := by
  show (if target ∈ targetsIn D (e index) then e
    else if (targetsIn D (e index)).length ≥ maxDependents then e else _) = _
  unfold registerIn
  split_ifs
  · exact (Function.update_eq_self index e).symm
  · exact (Function.update_eq_self index e).symm
  · rfl

/-- The list that is written when a target is registered is read back. -/
def ReadsList (D : Deps) (value : Option Bytes) (target : String) : Prop :=
  readStrings D (writeStrings D (targetsIn D value ++ [target])) = some (targetsIn D value ++ [target])

theorem targetsIn_registerIn {value : Option Bytes} {target : String} (h : ReadsList D value target) :
    targetsIn D (registerIn D value target) = targetsIn D value ∨
      targetsIn D (registerIn D value target) = targetsIn D value ++ [target] := by
  unfold registerIn
  split_ifs
  · exact Or.inl rfl
  · exact Or.inl rfl
  · right
    show ((readStrings D (writeStrings D (targetsIn D value ++ [target]))).getD []) = _
    rw [h, Option.getD_some]

/-- Registering a target a second time changes nothing. -/
theorem registerIn_registerIn {value : Option Bytes} {target : String} (h : ReadsList D value target) :
    registerIn D (registerIn D value target) target = registerIn D value target := by
  by_cases hmem : target ∈ targetsIn D value
  · have hsame : registerIn D value target = value := if_pos hmem
    rw [hsame, hsame]
  by_cases hfull : (targetsIn D value).length ≥ maxDependents
  · have hsame : registerIn D value target = value := by
      rw [registerIn, if_neg hmem, if_pos hfull]
    rw [hsame, hsame]
  · have hnew : registerIn D value target =
        some (writeStrings D (targetsIn D value ++ [target])) := by
      rw [registerIn, if_neg hmem, if_neg hfull]
    have htargets : targetsIn D (registerIn D value target) = targetsIn D value ++ [target] := by
      rw [hnew]
      show ((readStrings D (writeStrings D (targetsIn D value ++ [target]))).getD []) = _
      rw [h, Option.getD_some]
    rw [registerIn.eq_def D (registerIn D value target), if_pos]
    rw [htargets]
    simp

/-- The two kinds of keys. -/
theorem IsIndex.not_isEntry {key : String} (h : IsIndex key) : ¬ IsEntry key := by
  intro h'
  rw [IsIndex, h'] at h
  exact absurd h (by decide)

/-- Operations other than registering leave the reverse index alone. -/
theorem apply_index {op : Operation} (hk : op.Keyed) (e : Entries) {index : String}
    (hindex : IsIndex index) (hreg : ∀ target, op ≠ .register index target) :
    op.apply D e index = e index := by
  cases op with
  | write key value =>
    have hne : index ≠ key := fun heq => hindex.not_isEntry (heq ▸ hk)
    exact Function.update_of_ne hne _ _
  | register index' target =>
    have hne : index ≠ index' := fun heq => hreg target (by rw [heq])
    rw [apply_register]
    exact Function.update_of_ne hne _ _
  | refresh index' entry =>
    refine settle_of_not_mem fun hmem => hindex.not_isEntry ?_
    obtain ⟨u, hu, rfl⟩ := List.mem_map.1 hmem
    obtain ⟨target, -, rfl⟩ := List.mem_map.1 hu
    exact hk.2 target

end Projector

end Ixmati
