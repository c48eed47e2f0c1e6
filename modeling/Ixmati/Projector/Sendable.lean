import Ixmati.Projector.Operations

/-!
# Events whose calls can be sent

A call of the cache client is one line, and the key in it must not interfere with the protocol
(`Cache.Command.WellFormed`).  The keys that the projector builds are made of the names of the
projection and of its source stores, and of keys and entities in the events.  If these are such that the
keys can be sent (`SendableR`, `SendableM`), the projector carries the operations of an event out on the
wire as on a map (`afterR_eq`, `afterM_eq`, `afterEvent_eq`).
-/

namespace Ixmati

open Cache (Entries Script Word Plain Sendable)

namespace Projector

variable {D : Deps} {proj : ProjectionConfig} {event : EventEnvelope} {e : Entries}

/-! ### Keys -/

theorem word_inferEntityFromStore {store : String} (h : Word store.toList) :
    Word (inferEntityFromStore store).toList := by
  have hsub : ∀ c ∈ (inferEntityFromStore store).toList, c ∈ store.toList := by
    intro c hc
    rw [inferEntityFromStore, String.toList_ofList] at hc
    exact (List.rdropWhile_prefix (· = 's') store.toList).subset hc
  exact ⟨fun hc => h.1 (hsub _ hc), fun hc => h.2 (hsub _ hc)⟩

theorem sendable_projectionKey {key : String} (hname : Word proj.name.toList) (hkey : Plain key) :
    Sendable (projectionKey proj key) :=
  Cache.sendable_projection hname hkey

theorem sendable_dependencyIndexKey {store entity key : String} (hname : Word proj.name.toList)
    (hstore : Word store.toList) (hentity : Word entity.toList) (hkey : Plain key) :
    Sendable (dependencyIndexKey proj store entity key) := by
  refine hkey.sendable ("ridx:" ++ proj.name ++ ":" ++ store ++ ":" ++ entity) ?_ ?_
  · simp only [Cache.word_append]
    exact ⟨⟨⟨⟨⟨by decide, hname⟩, by decide⟩, hstore⟩, by decide⟩, hentity⟩
  · simp only [String.toList_append]
    rfl

/-! ### Pattern R -/

/-- The names in an event, from which pattern R builds its keys, do not interfere. -/
structure SendableR (D : Deps) (proj : ProjectionConfig) (event : EventEnvelope) : Prop where
  name : Word proj.name.toList
  stores : ∀ s ∈ proj.sourceStores, Word s.toList
  primary : proj.sourceStores.head? = some event.store →
    Plain (eventKeyFromPayload D event proj.targetKey) ∧
      ∀ s ∈ proj.sourceStores.drop 1, Plain (resolveLookupKey D event s)
  secondary : proj.sourceStores.head? ≠ some event.store →
    Word event.store.toList ∧ Word event.entity.toList ∧ Plain event.key

instance (D : Deps) (proj : ProjectionConfig) (event : EventEnvelope) :
    Decidable (SendableR D proj event) :=
  decidable_of_iff
    (Word proj.name.toList ∧ (∀ s ∈ proj.sourceStores, Word s.toList) ∧
      (proj.sourceStores.head? = some event.store →
        Plain (eventKeyFromPayload D event proj.targetKey) ∧
          ∀ s ∈ proj.sourceStores.drop 1, Plain (resolveLookupKey D event s)) ∧
      (proj.sourceStores.head? ≠ some event.store →
        Word event.store.toList ∧ Word event.entity.toList ∧ Plain event.key))
    ⟨fun ⟨a, b, c, d⟩ => ⟨a, b, c, d⟩, fun ⟨a, b, c, d⟩ => ⟨a, b, c, d⟩⟩

/-- The targets that pattern R finds for an event do not interfere either. -/
def FindsPlain (D : Deps) (proj : ProjectionConfig) (e : Entries) (event : EventEnvelope) : Prop :=
  proj.sourceStores.head? ≠ some event.store →
    ∀ t ∈ dependents D e (dependencyIndexKey proj event.store event.entity event.key), Plain t

variable (hsize : ∀ j, (D.toVec j).length < 2 ^ 63)

theorem asks_getDocument {store entity key : String}
    (h : Sendable (Cache.Name.entity store entity key).toKey) :
    (getDocument D store entity key).Asks Cache.Command.WellFormed Cache.ideal e := by
  unfold getDocument
  rw [Prog.asks_bind, Script.asks_get]
  exact ⟨h.get, trivial⟩

include hsize in
theorem asks_registerDependency {projKey store : String} (hname : Word proj.name.toList)
    (hstore : Word store.toList) (hkey : Plain (resolveLookupKey D event store)) :
    (registerDependency D proj event projKey store).Asks Cache.Command.WellFormed Cache.ideal e := by
  have hsend := sendable_dependencyIndexKey hname hstore (word_inferEntityFromStore hstore) hkey
  unfold registerDependency
  dsimp only
  rw [map_eq_pure_bind, Prog.asks_bind, Prog.asks_bind, Script.asks_getRaw]
  refine ⟨⟨hsend.get, trivial⟩, ?_⟩
  split_ifs
  · trivial
  · trivial
  · exact Script.asks_setRaw.2 (hsend.set (hsize _))

include hsize in
theorem asks_refreshReference {target : String} (hname : Word proj.name.toList)
    (hstores : ∀ s ∈ proj.sourceStores, Word s.toList) (htarget : Plain target) :
    (refreshReference D proj event target).Asks Cache.Command.WellFormed Cache.ideal e := by
  have hsend : Sendable (projectionKey proj target) := sendable_projectionKey hname htarget
  unfold refreshReference
  split_ifs
  · exact Script.asks_delRaw.2 hsend.del
  · rw [Prog.asks_bind, Script.asks_setRaw]
    refine ⟨asks_collectFields (fun s _ => exec_refreshed (D := D) event e target s) fun s hs => ?_,
      hsend.set (hsize _)⟩
    split_ifs
    · trivial
    · exact asks_getDocument (Cache.sendable_entity (hstores s hs)
        (word_inferEntityFromStore (hstores s hs)) htarget)

include hsize in
theorem asks_refreshReferences (h : SendableR D proj event) (hfinds : FindsPlain D proj e event)
    (hother : proj.sourceStores.head? ≠ some event.store) :
    (refreshReferences D proj event).Asks Cache.Command.WellFormed Cache.ideal e := by
  obtain ⟨hstore, hentity, hkey⟩ := h.secondary hother
  unfold refreshReferences
  rw [Prog.asks_bind, map_eq_pure_bind, Prog.asks_bind, Script.asks_getRaw, Prog.exec_bind,
    Script.exec_getRaw]
  refine ⟨⟨(sendable_dependencyIndexKey h.name hstore hentity hkey).get, trivial⟩, ?_⟩
  exact Prog.asks_forM (I := fun _ => True) (fun t _ e _ => ⟨exec_refreshReference e t, trivial⟩)
    (fun t ht e _ => asks_refreshReference hsize h.name h.stores (hfinds hother t ht)) trivial

include hsize in
theorem asks_processRAsync (h : SendableR D proj event) (hfinds : FindsPlain D proj e event) :
    (processRAsync D proj event).Asks Cache.Command.WellFormed Cache.ideal e := by
  unfold processRAsync
  cases hhead : proj.sourceStores.head? with
  | none => trivial
  | some primaryStore =>
    simp only
    by_cases hstore : event.store = primaryStore
    · rw [if_neg (not_not.2 hstore)]
      obtain ⟨htarget, hkeys⟩ := h.primary (by rw [hhead, hstore])
      have hfields : (collectFields proj.sourceStores fun s =>
          if s = event.store then pure (some event.payload)
          else getDocument D s (inferEntityFromStore s) (resolveLookupKey D event s)).Asks
            Cache.Command.WellFormed Cache.ideal e := by
        refine asks_collectFields (fun s _ => exec_component (D := D) event e s) fun s hs => ?_
        split_ifs with heq
        · trivial
        · -- the other source stores come after the first one
          have hdrop : s ∈ proj.sourceStores.drop 1 := by
            cases hs' : proj.sourceStores with
            | nil => simp [hs'] at hhead
            | cons x xs =>
              rw [hs', List.head?_cons, Option.some.injEq] at hhead
              rw [hs'] at hs
              exact (List.mem_cons.1 hs).resolve_left fun hx => heq (by rw [hx, hhead, hstore])
          exact asks_getDocument (Cache.sendable_entity (h.stores s hs)
            (word_inferEntityFromStore (h.stores s hs)) (hkeys s hdrop))
      have hsend := Cache.sendable_projection h.name htarget
      rw [Prog.asks_bind]
      refine ⟨hfields, ?_⟩
      split_ifs
      · exact Script.asks_delRaw.2 hsend.del
      · rw [Prog.asks_bind, Script.asks_setProjection]
        refine ⟨hsend.set (hsize _), ?_⟩
        exact Prog.asks_forM (I := fun _ => True)
          (fun s _ e _ => ⟨exec_registerDependency _ e s, trivial⟩)
          (fun s hs e _ => asks_registerDependency hsize h.name
            (h.stores s (List.mem_of_mem_drop hs)) (hkeys s hs)) trivial
    · rw [if_pos hstore]
      refine asks_refreshReferences hsize h hfinds ?_
      rw [hhead]
      exact fun heq => hstore (Option.some.inj heq).symm

include hsize in
/-- **Pattern R on the wire** carries the operations of the event out. -/
theorem afterR_eq (h : SendableR D proj event) (hfinds : FindsPlain D proj e event) :
    afterR D proj e event = (operationsR D proj (cacheGet e) event).foldl (Operation.apply D) e := by
  rw [afterR, Script.exec_wire (asks_processRAsync hsize h hfinds), exec_processRAsync]

/-! ### Pattern M -/

/-- The key that pattern M builds for an event can stand in a line. -/
def SendableM (D : Deps) (proj : ProjectionConfig) (event : EventEnvelope) : Prop :=
  Word proj.name.toList ∧ Word (extractTargetKey D event proj.targetKey).toList

instance (D : Deps) (proj : ProjectionConfig) (event : EventEnvelope) :
    Decidable (SendableM D proj event) :=
  inferInstanceAs (Decidable (_ ∧ _))

theorem word_projectionKey {key : String} (hname : Word proj.name.toList) (hkey : Word key.toList) :
    Word (projectionKey proj key).toList :=
  Cache.word_append.2 ⟨Cache.word_append.2 ⟨Cache.word_append.2 ⟨by decide, hname⟩, by decide⟩, hkey⟩

include hsize in
theorem asks_processMAsync (h : ∀ copy, proj.copyFields = some copy →
      (copiedOnline copy event).isEmpty = false → SendableM D proj event) :
    (processMAsync D proj event).Asks Cache.Command.WellFormed Cache.ideal e := by
  unfold processMAsync
  cases hc : proj.copyFields with
  | none => trivial
  | some copy =>
    simp only
    split_ifs with hempty
    · trivial
    · obtain ⟨hname, hkey⟩ := h copy hc (by simpa using hempty)
      exact Script.asks_setProjection.2 ⟨word_projectionKey hname hkey, hsize _⟩

include hsize in
/-- **Pattern M on the wire** writes what the event says. -/
theorem afterM_eq {copy : List CopyField} (hc : proj.copyFields = some copy)
    (h : (copiedOnline copy event).isEmpty = false → SendableM D proj event) :
    afterM D proj e event = settle e (writeM D proj copy event).toList := by
  have hasks : (processMAsync D proj event).Asks Cache.Command.WellFormed Cache.ideal e :=
    asks_processMAsync hsize fun copy' hc' hne => by
      rw [hc, Option.some.injEq] at hc'
      exact h (hc' ▸ hne)
  rw [afterM, Script.exec_wire hasks, exec_processMAsync hc]

/-! ### The engine -/

/-- The names from which a pattern builds its keys for an event do not interfere. -/
def SendableOf (D : Deps) (proj : ProjectionConfig) (event : EventEnvelope) : Prop :=
  match proj.pattern with
  | .R => SendableR D proj event
  | .M => ∀ copy, proj.copyFields = some copy →
      (copiedOnline copy event).isEmpty = false → SendableM D proj event

include hsize in
/-- **The engine on the wire** carries the operations of the event out, if the names do not interfere in
any state that these lead through. -/
theorem afterEvent_eq {registry : ProjectionRegistry} {I : Entries → Prop}
    (hsend : ∀ proj ∈ registry.forStore event.store, SendableOf D proj event)
    (hfinds : ∀ proj ∈ registry.forStore event.store, proj.pattern = .R →
      ∀ e, I e → FindsPlain D proj e event)
    (hkeep : ∀ op ∈ operations D registry (cacheGet e) event, ∀ e, I e → I (op.apply D e)) (hI : I e) :
    afterEvent D registry e event =
      (operations D registry (cacheGet e) event).foldl (Operation.apply D) e := by
  have hasks : (processEventAsync D registry event).Asks Cache.Command.WellFormed Cache.ideal e := by
    unfold processEventAsync
    refine Prog.asks_forM (I := fun e' => cacheGet e' = cacheGet e ∧ I e')
      (g := fun e' proj => (operationsOf D (cacheGet e) event proj).foldl (Operation.apply D) e')
      (fun proj hproj e' he' => ⟨?_, ?_, ?_⟩) (fun proj hproj e' he' => ?_) ⟨rfl, hI⟩
    · rw [← he'.1]
      unfold operationsOf
      cases proj.pattern with
      | R => exact exec_processRAsync e'
      | M => exact exec_processMAsync_operations e'
    · rw [cacheGet_foldl (fun op hop => keyed_operationsOf hop), he'.1]
    · refine List.foldlRecOn _ _ he'.2 fun e' he' op hop => hkeep op ?_ e' he'
      exact List.mem_flatMap.2 ⟨proj, hproj, hop⟩
    · have hof := hsend proj hproj
      unfold SendableOf at hof
      cases hp : proj.pattern with
      | R =>
        simp only [hp] at hof ⊢
        exact asks_processRAsync hsize hof (hfinds proj hproj hp e' he'.2)
      | M =>
        simp only [hp] at hof ⊢
        exact asks_processMAsync hsize hof
  rw [afterEvent, Script.exec_wire hasks, exec_processEventAsync]

end Projector

end Ixmati
