import Ixmati.Lib.Run
import Ixmati.Projector.Feed
import Ixmati.Projector.Index
import Ixmati.Projector.Sendable

/-!
# Pattern R online

The source stores of a projection of pattern R process batches, and the projector processes their
events, each store's in the order of its outbox, some time after they are committed.  What is under
`c:` when it does so is part of the step (`withRows`); it is up to date if it shows the payload tables
as they are at that time (`ShowsRows`).

The projector runs on the wire (`Steps.cache`).  If the names in the events do not interfere with the
protocol this is what the operations of the events do (`Steps.applied`, `cache_eq_applied`).

An event of the first source store writes the entry of its own row, and an event of another one writes
the entries of the rows that reference its row.  So the entry of a row is decided by the last event on
the row itself or on the row it references, and is right when that event is processed, because then what
is looked up is what remains (`UpToDate`).  `OnWay.entries` is the invariant: an entry is right, or an
event that is about it is still to come.
-/

namespace Ixmati

open WriteEngine History Ixmati.System

open Cache (Entries)

namespace Projector

/-! ### The run -/

/-- The batches that the stores have processed, the events that the projector has processed, and the
cache. -/
structure Online where
  batches : String → List Batch
  processed : List EventEnvelope
  cache : Entries

/-- The key of an entry that shows a row. -/
def IsRow (key : String) : Prop := key.toList.head? = some 'c'

instance : DecidablePred IsRow := fun key => inferInstanceAs (Decidable (key.toList.head? = some 'c'))

/-- The cache with other `c:` entries. -/
def withRows (rows e : Entries) : Entries := fun key => if IsRow key then rows key else e key

/-- A step: a store processes a batch, or the projector the next event of a store, with what is under
`c:` then. -/
inductive Act where
  | commit (store : String) (b : Batch)
  | process (store : String) (rows : Entries)

/-- The documents in the payload tables of the stores. -/
def stored (D : Deps) (bs : String → List Batch) : Lookup := fun store entity key =>
  payloads (run D store (bs store)).db store (entity, key)

namespace Online

/-- Nothing has been processed. -/
def start : Online where
  batches := fun _ => []
  processed := []
  cache := fun _ => none

/-- The events of a store that have been processed. -/
def processedOf (st : Online) (store : String) : List EventEnvelope :=
  st.processed.filter fun event => decide (event.store = store)

/-- One step. -/
def step (D : Deps) (proj : ProjectionConfig) (st : Online) : Act → Option Online
  | .commit store b =>
    some { st with batches := Function.update st.batches store (st.batches store ++ [b]) }
  | .process store rows =>
    if store ∈ proj.sourceStores then
      (feed D (run D store (st.batches store)))[(st.processedOf store).length]?.map fun event =>
        { st with
          processed := st.processed ++ [event]
          cache := afterR D proj (withRows rows st.cache) event }
    else none

end Online

/-- The `c:` entries that the projector may look up show the payload tables. -/
def ShowsRows (D : Deps) (proj : ProjectionConfig) (bs : String → List Batch) (rows : Entries) : Prop :=
  ∀ s ∈ proj.sourceStores, ∀ key,
    cacheGet rows s (inferEntityFromStore s) key = stored D bs s (inferEntityFromStore s) key

/-- The `c:` entries are up to date. -/
def CacheUpToDate (D : Deps) (proj : ProjectionConfig) (st : Online) : Act → Prop
  | .commit .. => True
  | .process _ rows => ShowsRows D proj st.batches rows

/-! ### What the projector finds -/

/-- The document that remains of a row. -/
def document (evs : List EventEnvelope) (row : String × String × String) : Option Json :=
  (newest evs row).bind left

variable {D : Deps} {proj : ProjectionConfig} {bs : String → List Batch}

theorem Online.step_process {st : Online} {store : String} {rows : Entries} (event : EventEnvelope)
    (hstore : store ∈ proj.sourceStores)
    (hev : (feed D (run D store (st.batches store)))[(st.processedOf store).length]? = some event) :
    Online.step D proj st (.process store rows) =
      some { st with
        processed := st.processed ++ [event]
        cache := afterR D proj (withRows rows st.cache) event } := by
  rw [Online.step, if_pos hstore, hev]
  rfl

/-- The events with what was under `c:` when the projector processed them. -/
abbrev Steps := List (Entries × EventEnvelope)

/-- The events. -/
def Steps.events (steps : Steps) : List EventEnvelope := steps.map Prod.snd

/-- What the projector makes of the events. -/
def Steps.cache (D : Deps) (proj : ProjectionConfig) (steps : Steps) : Entries :=
  steps.foldl (fun e x => afterR D proj (withRows x.1 e) x.2) fun _ => none

/-- What the operations of an event do. -/
def appliedR (D : Deps) (proj : ProjectionConfig) (lookup : Lookup) (e : Entries)
    (event : EventEnvelope) : Entries :=
  (operationsR D proj lookup event).foldl (Operation.apply D) e

/-- What the operations of the events do. -/
def Steps.applied (D : Deps) (proj : ProjectionConfig) (steps : Steps) : Entries :=
  steps.foldl (fun e x => appliedR D proj (cacheGet x.1) e x.2) fun _ => none

/-- What is looked up is what remains, if no event on the row is still to come. -/
structure UpToDate (D : Deps) (proj : ProjectionConfig) (steps : Steps) : Prop where
  ofStores : ∀ event ∈ steps.events, event.store ∈ proj.sourceStores
  current : ∀ pre x post, steps = pre ++ x :: post → ∀ s ∈ proj.sourceStores, ∀ key,
    (∀ y ∈ Steps.events post, versionKey y ≠ (s, inferEntityFromStore s, key)) →
    (cacheGet x.1 s (inferEntityFromStore s) key).bind D.fromSlice =
      document steps.events (s, inferEntityFromStore s, key)

/-- The run, with what was committed when each event was processed. -/
structure Traced (D : Deps) (proj : ProjectionConfig) (st : Online) (steps : Steps) : Prop where
  processed : st.processed = steps.events
  cache : st.cache = steps.cache D proj
  ofStores : ∀ event ∈ steps.events, event.store ∈ proj.sourceStores
  done : ∀ s ∈ proj.sourceStores, st.processedOf s <+: feed D (run D s (st.batches s))
  committed : ∀ pre x post, steps = pre ++ x :: post →
    ∃ bs', (∀ s, bs' s <+: st.batches s) ∧ ShowsRows D proj bs' x.1 ∧ ∀ s ∈ proj.sourceStores,
      (Steps.events (pre ++ [x])).filter (fun event => decide (event.store = s)) <+:
        feed D (run D s (bs' s))

/-- The commands name the store they are processed by, and the events of the store are read back. -/
structure Sourced (D : Deps) (proj : ProjectionConfig) (bs : String → List Batch) : Prop where
  named : ∀ s ∈ proj.sourceStores, ∀ b ∈ bs s, ∀ cmd ∈ b.commands, cmd.store = s
  read : ∀ s ∈ proj.sourceStores, ∀ i it, (run D s (bs s)).applied[i]? = some it →
    ReadsBack D (eventAt i it)

theorem Sourced.mono {bs' : String → List Batch} (h : Sourced D proj bs')
    (hle : ∀ s, bs s <+: bs' s) : Sourced D proj bs := by
  refine ⟨fun s hs b hb => h.named s hs b ((hle s).subset hb), fun s hs i it hit => ?_⟩
  refine h.read s hs i it ?_
  obtain ⟨more, hmore⟩ := applied_mono (D := D) (s := s) (hle s)
  rw [← hmore, List.getElem?_append_left (List.getElem?_eq_some_iff.1 hit).1]
  exact hit

theorem Sourced.shown (h : Sourced D proj bs) {s : String} (hs : s ∈ proj.sourceStores) :
    Shown D s (run D s (bs s)).db (feed D (run D s (bs s))) :=
  shown_run (h.named s hs) (h.read s hs)

theorem Steps.cache_append (steps : Steps) (x : Entries × EventEnvelope) :
    Steps.cache D proj (steps ++ [x]) = afterR D proj (withRows x.1 (steps.cache D proj)) x.2 := by
  simp [Steps.cache]

theorem Steps.applied_append (steps : Steps) (x : Entries × EventEnvelope) :
    Steps.applied D proj (steps ++ [x]) =
      appliedR D proj (cacheGet x.1) (steps.applied D proj) x.2 := by
  simp [Steps.applied]

theorem prefix_concat {α : Type*} {front whole : List α} {x : α} (h : front <+: whole)
    (hx : whole[front.length]? = some x) : front ++ [x] <+: whole := by
  obtain ⟨rest, rfl⟩ := h
  rw [List.getElem?_append_right (Nat.le_refl _), Nat.sub_self] at hx
  cases rest with
  | nil => simp at hx
  | cons y rest =>
    obtain rfl : y = x := by simpa using hx
    exact ⟨rest, by simp⟩

/-- Where a list with one more entry is split. -/
theorem split_concat {α : Type*} {l pre post : List α} {x y : α} (h : l ++ [x] = pre ++ y :: post) :
    (l = pre ∧ x = y ∧ post = []) ∨ ∃ post', l = pre ++ y :: post' ∧ post = post' ++ [x] := by
  rcases List.eq_nil_or_concat post with rfl | ⟨post', z, rfl⟩
  · obtain ⟨hl, hx⟩ := List.append_inj' h rfl
    exact Or.inl ⟨hl, by simpa using hx, rfl⟩
  · have hassoc : pre ++ y :: post'.concat z = (pre ++ y :: post') ++ [z] := by simp
    rw [hassoc] at h
    obtain ⟨hl, hx⟩ := List.append_inj' h rfl
    obtain rfl : x = z := by simpa using hx
    exact Or.inr ⟨post', hl, List.concat_eq_append⟩

/-- The projector processes the next event of a store. -/
theorem Traced.process {st : Online} {steps : Steps} (h : Traced D proj st steps)
    (hsrc : Sourced D proj st.batches) {store : String} (hstore : store ∈ proj.sourceStores)
    {rows : Entries} (hrows : ShowsRows D proj st.batches rows) {event : EventEnvelope}
    (hev : (feed D (run D store (st.batches store)))[(st.processedOf store).length]? = some event) :
    Traced D proj
      { st with
        processed := st.processed ++ [event]
        cache := afterR D proj (withRows rows st.cache) event }
      (steps ++ [(rows, event)]) := by
  have hofstore : event.store = store :=
    (hsrc.shown hstore).ofStore event (List.mem_of_getElem? hev)
  have hdone : ∀ s ∈ proj.sourceStores,
      (st.processed ++ [event]).filter (fun event => decide (event.store = s)) <+:
        feed D (run D s (st.batches s)) := by
    intro s hs
    rw [List.filter_append]
    by_cases heq : store = s
    · subst heq
      rw [List.filter_cons_of_pos (by simpa using hofstore), List.filter_nil]
      exact prefix_concat (h.done store hs) hev
    · rw [List.filter_cons_of_neg (by simpa [hofstore] using heq), List.filter_nil, List.append_nil]
      exact h.done s hs
  refine ⟨?_, ?_, ?_, hdone, ?_⟩
  · simp [h.processed, Steps.events]
  · rw [Steps.cache_append, ← h.cache]
  · intro x hx
    simp only [Steps.events, List.map_append, List.map_cons, List.map_nil, List.mem_append,
      List.mem_singleton] at hx
    rcases hx with hx | rfl
    · exact h.ofStores x hx
    · rw [hofstore]
      exact hstore
  · intro pre x post hsplit
    rcases split_concat hsplit with ⟨rfl, rfl, -⟩ | ⟨post', hsteps, -⟩
    · refine ⟨st.batches, fun _ => List.prefix_rfl, hrows, fun s hs => ?_⟩
      have hevents : Steps.events (steps ++ [(rows, event)]) = st.processed ++ [event] := by
        simp [h.processed, Steps.events]
      rw [hevents]
      exact hdone s hs
    · exact h.committed pre x post' hsteps

theorem prefix_update (bs : String → List Batch) (store : String) (b : Batch) (s : String) :
    bs s <+: Function.update bs store (bs store ++ [b]) s := by
  by_cases hs : s = store
  · subst hs
    rw [Function.update_self]
    exact List.prefix_append _ _
  · rw [Function.update_of_ne hs]

/-- A store processes a batch. -/
theorem Traced.commit {st : Online} {steps : Steps} (h : Traced D proj st steps) (store : String)
    (b : Batch) :
    Traced D proj { st with batches := Function.update st.batches store (st.batches store ++ [b]) }
      steps := by
  have hle := prefix_update st.batches store b
  refine ⟨h.processed, h.cache, h.ofStores, fun s hs => (h.done s hs).trans (feed_mono (hle s)), ?_⟩
  intro pre x post hsplit
  obtain ⟨bs', hbs', hx, hdone⟩ := h.committed pre x post hsplit
  exact ⟨bs', fun s => (hbs' s).trans (hle s), hx, hdone⟩

/-- Every run is traced. -/
theorem traced_of_run {as : List Act} {st : Online}
    (hmeet : StepsMeet (Online.step D proj) (CacheUpToDate D proj) Online.start as)
    (hrun : runFrom (Online.step D proj) Online.start as = some st) (hsrc : Sourced D proj st.batches) :
    ∃ steps, Traced D proj st steps := by
  refine invariant_of_stepsMeet (I := fun st => Sourced D proj st.batches → ∃ steps, Traced D proj st steps)
    (fun st a st' hI hmeet hstep hsrc' => ?_) (fun _ => ⟨[], rfl, rfl, by simp [Steps.events], ?_, by simp⟩)
    hmeet hrun hsrc
  · cases a with
    | commit store b =>
      obtain rfl := Option.some.inj hstep
      obtain ⟨steps, ht⟩ := hI (hsrc'.mono (prefix_update st.batches store b))
      exact ⟨steps, ht.commit store b⟩
    | process store rows =>
      simp only [Online.step] at hstep
      split_ifs at hstep with hstore
      obtain ⟨event, hev, rfl⟩ := Option.map_eq_some_iff.1 hstep
      obtain ⟨steps, ht⟩ := hI hsrc'
      exact ⟨_, ht.process hsrc' hstore hmeet hev⟩
  · intro s _
    exact List.nil_prefix

/-- **What is looked up is what remains**, when all events have been processed in the end. -/
theorem Traced.upToDate {st : Online} {steps : Steps} (h : Traced D proj st steps)
    (hsrc : Sourced D proj st.batches)
    (hall : ∀ s ∈ proj.sourceStores, st.processedOf s = feed D (run D s (st.batches s))) :
    UpToDate D proj steps := by
  refine ⟨h.ofStores, fun pre x post hsplit s hs key hpost => ?_⟩
  obtain ⟨bs', hbs', hx, hdone⟩ := h.committed pre x post hsplit
  have hevents : steps.events = Steps.events (pre ++ [x]) ++ Steps.events post := by
    simp [hsplit, Steps.events]
  -- what was committed then lies between what was processed then and what is processed now
  obtain ⟨extra, hextra⟩ := hdone s hs
  obtain ⟨later, hlater⟩ := feed_mono (D := D) (s := s) (hbs' s)
  have hfinal := hall s hs
  unfold Online.processedOf at hfinal
  rw [h.processed, hevents, List.filter_append, ← hlater, ← hextra, List.append_assoc,
    List.append_cancel_left_eq] at hfinal
  have hpost' : lastWhere (onRow (inferEntityFromStore s) key)
      ((Steps.events post).filter fun event => decide (event.store = s)) = none := by
    rw [← newest_eq, newest, lastWhere_eq_none]
    exact fun y hy hrow => hpost y hy (of_decide_eq_true hrow)
  have hextra' : lastWhere (onRow (inferEntityFromStore s) key) extra = none := by
    rw [hfinal, lastWhere_append_list] at hpost'
    exact (Option.or_eq_none_iff.1 hpost').2
  rw [hx s hs key]
  refine (((hsrc.mono hbs').shown hs).lookup (inferEntityFromStore s) key).trans ?_
  rw [document, newest_eq, hevents, List.filter_append, lastWhere_append_list, hpost', ← hextra,
    lastWhere_append_list, hextra']

/-! ### What an event does to an entry -/

section Entry

variable {lookup : Lookup} {event : EventEnvelope} {s₁ : String} {others : List String}

/-- The key of the entry that an event of the first source store is about. -/
def target (D : Deps) (proj : ProjectionConfig) (event : EventEnvelope) : String :=
  eventKeyFromPayload D event proj.targetKey

/-- The row of another source store that an event of the first one references. -/
def reference (D : Deps) (event : EventEnvelope) (store : String) : String × String × String :=
  (store, inferEntityFromStore store, resolveLookupKey D event store)

/-- The entry of the reverse index that a row is found under. -/
def indexOf (proj : ProjectionConfig) (row : String × String × String) : String :=
  dependencyIndexKey proj row.1 row.2.1 row.2.2

theorem ofIndex_indexOf (proj : ProjectionConfig) (row : String × String × String) :
    OfIndex proj (indexOf proj row) :=
  ofIndex_dependencyIndexKey ..

theorem appliedR_of_other (hstores : proj.sourceStores = s₁ :: others) (hev : event.store ≠ s₁)
    (e : Entries) (k : String) :
    appliedR D proj lookup e event (projectionKey proj k) =
      if k ∈ dependents D e (indexOf proj (versionKey event)) then
        (refreshEntry D proj lookup event k).2
      else e (projectionKey proj k) := by
  have hstep : appliedR D proj lookup e event =
      settle e ((dependents D e (indexOf proj (versionKey event))).map
        (refreshEntry D proj lookup event)) := by
    rw [appliedR, operationsR, hstores]
    simp only [List.head?_cons]
    rw [if_pos hev]
    rfl
  rw [hstep, settle_eq]
  cases hlast : lastWhere (fun u => decide (u.1 = projectionKey proj k))
      ((dependents D e (indexOf proj (versionKey event))).map (refreshEntry D proj lookup event)) with
  | none =>
    rw [if_neg]
    · rfl
    · intro hk
      exact lastWhere_eq_none.1 hlast _ (List.mem_map_of_mem hk) (decide_eq_true rfl)
  | some u =>
    obtain ⟨hu, hkey⟩ := mem_of_lastWhere hlast
    obtain ⟨t, ht, rfl⟩ := List.mem_map.1 hu
    obtain rfl : t = k := projectionKey_inj (of_decide_eq_true hkey)
    rw [if_pos ht]
    rfl

theorem appliedR_of_deleted (hstores : proj.sourceStores = s₁ :: others) (hev : event.store = s₁)
    (hdel : isDeleted event = true) (e : Entries) (k : String) :
    appliedR D proj lookup e event (projectionKey proj k) =
      if k = target D proj event then none else e (projectionKey proj k) := by
  have hstep : appliedR D proj lookup e event =
      Function.update e (projectionKey proj (target D proj event)) none := by
    rw [appliedR, operationsR, hstores]
    simp only [List.head?_cons]
    rw [if_neg (not_not.2 hev), if_pos hdel]
    rfl
  rw [hstep]
  split_ifs with hk
  · rw [hk, Function.update_self]
  · exact Function.update_of_ne (fun heq => hk (projectionKey_inj heq)) _ _

theorem foldl_register_entry {α : Type*} (f : α → String × String)
    (hf : ∀ x, IsIndex (f x).1) (xs : List α) (e : Entries) {key : String} (hkey : IsEntry key) :
    (xs.map fun x => Operation.register (f x).1 (f x).2).foldl (Operation.apply D) e key = e key := by
  induction xs generalizing e with
  | nil => rfl
  | cons x xs ih =>
    have hne : key ≠ (f x).1 := fun heq => (hf x).not_isEntry (heq ▸ hkey)
    rw [List.map_cons, List.foldl_cons, ih, apply_register, Function.update_of_ne hne]

theorem appliedR_of_upsert (hstores : proj.sourceStores = s₁ :: others) (hev : event.store = s₁)
    (hdel : isDeleted event = false) (e : Entries) (k : String) :
    appliedR D proj lookup e event (projectionKey proj k) =
      if k = target D proj event then
        some (joined D proj.sourceStores (component D lookup event))
      else e (projectionKey proj k) := by
  have hops : operationsR D proj lookup event =
      .write (projectionKey proj (target D proj event))
          (some (joined D proj.sourceStores (component D lookup event))) ::
        others.map fun store =>
          .register (indexOf proj (reference D event store)) (target D proj event) := by
    rw [operationsR, hstores]
    simp only [List.head?_cons]
    rw [if_neg (not_not.2 hev), if_neg (by simp [hdel])]
    rfl
  rw [appliedR, hops, List.foldl_cons]
  refine (foldl_register_entry (fun store => (indexOf proj (reference D event store),
    target D proj event)) (fun _ => isIndex_dependencyIndexKey ..) others _
    (isEntry_projectionKey ..)).trans ?_
  show Function.update _ _ _ _ = _
  split_ifs with hk
  · rw [hk, Function.update_self]
  · exact Function.update_of_ne (fun heq => hk (projectionKey_inj heq)) _ _

theorem mem_operationsR_register (hstores : proj.sourceStores = s₁ :: others) {index t : String} :
    Operation.register index t ∈ operationsR D proj lookup event ↔
      event.store = s₁ ∧ isDeleted event = false ∧ target D proj event = t ∧
        ∃ store ∈ others, indexOf proj (reference D event store) = index := by
  rw [operationsR, hstores]
  simp only [List.head?_cons]
  by_cases hev : event.store = s₁
  · rw [if_neg (not_not.2 hev)]
    cases hdel : isDeleted event with
    | true => simp
    | false =>
      simp only [Bool.false_eq_true, if_false, List.mem_cons, reduceCtorEq, false_or, List.drop_succ_cons,
        List.drop_zero, List.mem_map, Operation.register.injEq, hev, true_and]
      constructor
      · rintro ⟨store, hstore, hindex, ht⟩
        exact ⟨ht, store, hstore, hindex⟩
      · rintro ⟨ht, store, hstore, hindex⟩
        exact ⟨store, hstore, hindex, ht⟩
  · rw [if_pos hev]
    simp [hev]

end Entry

/-! ### The entries -/

/-- An event of the first source store that is not a deletion. -/
def Enters (s₁ : String) (event : EventEnvelope) : Prop :=
  event.store = s₁ ∧ isDeleted event = false

instance (s₁ : String) (event : EventEnvelope) : Decidable (Enters s₁ event) :=
  inferInstanceAs (Decidable (_ ∧ _))

/-- The second event is processed after the first one. -/
def After (evs : List EventEnvelope) (event event' : EventEnvelope) : Prop :=
  ∃ pre post, evs = pre ++ event' :: post ∧ event ∈ pre

/-- What is asked of the events of a projection with the first source store `s₁` and the other ones
`others`, for the entries to be what remains of the rows. -/
structure RegularR (D : Deps) (proj : ProjectionConfig) (s₁ : String) (others : List String)
    (evs : List EventEnvelope) : Prop where
  /-- A row keeps its target and what it references, and is not deleted if it references a row. -/
  lasting : ∀ o ∈ evs, Enters s₁ o → ∃ last, newest evs (versionKey o) = some last ∧
    target D proj last = target D proj o ∧ (isDeleted last = true → others = []) ∧
    ∀ s ∈ others, resolveLookupKey D last s = resolveLookupKey D o s
  /-- No event of another row of the first store has the target of a row. -/
  separate : ∀ o ∈ evs, Enters s₁ o → ∀ x ∈ evs, x.store = s₁ → versionKey x ≠ versionKey o →
    target D proj x ≠ target D proj o
  /-- Only rows of the entity that the store is named after are found under a reference. -/
  indexed : ∀ o ∈ evs, Enters s₁ o → ∀ w ∈ evs, w.store ∈ others →
    indexOf proj (versionKey w) = indexOf proj (reference D o w.store) →
    w.entity = inferEntityFromStore w.store
  /-- If the last event on a row that is referenced comes last, it is not a deletion, and the row that
  references it has the entity that its store is named after, and its target as its key. -/
  refreshed : ∀ o ∈ evs, Enters s₁ o → newest evs (versionKey o) = some o → ∀ w, w.store ∈ others →
    newest evs (reference D o w.store) = some w → After evs o w →
    isDeleted w = false ∧ o.entity = inferEntityFromStore s₁ ∧ o.key = target D proj o

/-- The document that remains of a row and of what it references. -/
def remaining (evs : List EventEnvelope) (D : Deps) (s₁ : String) (last : EventEnvelope)
    (store : String) : Option Json :=
  if store = s₁ then some last.payload else document evs (reference D last store)

/-- The entry of a row, by what remains of it and of what it references. -/
def finalEntry (D : Deps) (proj : ProjectionConfig) (s₁ : String) (evs : List EventEnvelope)
    (row : String × String × String) : Option Bytes :=
  (newest evs row).bind fun last =>
    if isDeleted last then none else some (joined D proj.sourceStores (remaining evs D s₁ last))

/-- The event is about the entry of the row of `o`. -/
def About (D : Deps) (others : List String) (o event : EventEnvelope) : Prop :=
  versionKey event = versionKey o ∨ ∃ s ∈ others, versionKey event = reference D o s

/-- The registrations of the events. -/
def registrations (D : Deps) (proj : ProjectionConfig) (steps : Steps) : List Operation :=
  steps.flatMap fun x => operationsR D proj (cacheGet x.1) x.2

/-- The cache when `pre` has been processed and `post` is still to come. -/
structure OnWay (D : Deps) (proj : ProjectionConfig) (s₁ : String) (others : List String)
    (evs : List EventEnvelope) (pre post : Steps) (e : Entries) : Prop where
  listed : Listed D proj (registrations D proj pre) e
  absent : ∀ k, (∀ o ∈ pre.events, Enters s₁ o → target D proj o ≠ k) →
    e (projectionKey proj k) = none
  entries : ∀ o ∈ pre.events, Enters s₁ o →
    e (projectionKey proj (target D proj o)) = finalEntry D proj s₁ evs (versionKey o) ∨
      ∃ x ∈ post.events, About D others o x

/-- Nothing is to come. -/
theorem OnWay.final {s₁ : String} {others : List String} {evs : List EventEnvelope} {steps : Steps}
    {e : Entries} (h : OnWay D proj s₁ others evs steps [] e) {o : EventEnvelope}
    (ho : o ∈ steps.events) (hent : Enters s₁ o) :
    e (projectionKey proj (target D proj o)) = finalEntry D proj s₁ evs (versionKey o) := by
  refine (h.entries o ho hent).resolve_right ?_
  rintro ⟨x, hx, -⟩
  simp [Steps.events] at hx

theorem newest_of_split {evs pre post : List EventEnvelope} {event : EventEnvelope}
    (hsplit : evs = pre ++ event :: post)
    (hpost : ∀ x ∈ post, versionKey x ≠ versionKey event) :
    newest evs (versionKey event) = some event := by
  have hnone : lastWhere (fun x => decide (versionKey x = versionKey event)) post = none :=
    lastWhere_eq_none.2 fun x hx hrow => hpost x hx (of_decide_eq_true hrow)
  have hassoc : pre ++ event :: post = pre ++ [event] ++ post := by simp
  rw [newest, hsplit, hassoc, lastWhere_append_list, hnone, Option.none_or, lastWhere_append,
    if_pos (decide_eq_true rfl)]

theorem joined_congr {stores : List String} {f g : String → Option Json}
    (h : ∀ s ∈ stores, f s = g s) : joined D stores f = joined D stores g := by
  unfold joined
  congr 2
  refine List.foldl_ext _ _ _ fun into s hs => ?_
  rw [h s hs]

theorem mem_registrations {s₁ : String} {others : List String}
    (hstores : proj.sourceStores = s₁ :: others) {steps : Steps} {index t : String} :
    Operation.register index t ∈ registrations D proj steps ↔
      ∃ o ∈ steps.events, Enters s₁ o ∧ target D proj o = t ∧
        ∃ store ∈ others, indexOf proj (reference D o store) = index := by
  simp only [registrations, List.mem_flatMap, mem_operationsR_register hstores, Steps.events,
    List.mem_map, Enters]
  constructor
  · rintro ⟨x, hx, hst, hdel, ht, hindex⟩
    exact ⟨x.2, ⟨x, hx, rfl⟩, ⟨hst, hdel⟩, ht, hindex⟩
  · rintro ⟨o, ⟨x, hx, rfl⟩, ⟨hst, hdel⟩, ht, hindex⟩
    exact ⟨x, hx, hst, hdel, ht, hindex⟩

theorem indexOf_inj {row row' : String × String × String} (hstore : row.1 = row'.1)
    (hentity : row.2.1 = row'.2.1) (h : indexOf proj row = indexOf proj row') : row = row' := by
  obtain ⟨s, entity, key⟩ := row
  obtain ⟨s', entity', key'⟩ := row'
  simp only at hstore hentity
  subst hstore hentity
  have hkey : key = key' := by simpa [indexOf, dependencyIndexKey] using h
  rw [hkey]

section Steps

variable {s₁ : String} {others : List String} {steps : Steps}
  (hstores : proj.sourceStores = s₁ :: others) (hs₁ : s₁ ∉ others) (hlen : others.length ≤ 1)
  (hreg : RegularR D proj s₁ others steps.events) (hup : UpToDate D proj steps)
  (hm : Manageable D (registrations D proj steps))

include hlen in
theorem eq_of_mem_others {s s' : String} (h : s ∈ others) (h' : s' ∈ others) : s = s' := by
  match others, hlen with
  | [x], _ => rw [List.mem_singleton.1 h, List.mem_singleton.1 h']

theorem OnWay.start : OnWay D proj s₁ others steps.events [] steps (Steps.applied D proj []) := by
  refine ⟨Listed.nil fun _ _ => rfl, fun _ _ => rfl, ?_⟩
  intro o ho
  simp [Steps.events] at ho

/-- Events of the first store with one target are on one row. -/
theorem RegularR.same_row {evs : List EventEnvelope} (h : RegularR D proj s₁ others evs)
    {o x : EventEnvelope} (ho : o ∈ evs) (hent : Enters s₁ o) (hx : x ∈ evs) (hxs : x.store = s₁)
    (heq : target D proj x = target D proj o) : versionKey x = versionKey o := by
  by_contra hne
  exact h.separate o ho hent x hx hxs hne heq

variable {pre post : Steps} {l : Entries} {ev : EventEnvelope}
  (hsplit : steps = pre ++ (l, ev) :: post)

include hsplit in
theorem events_split : steps.events = pre.events ++ ev :: post.events := by
  simp [hsplit, Steps.events]

include hsplit in
theorem mem_events {x : EventEnvelope} (hx : x ∈ pre.events ++ [ev]) : x ∈ steps.events := by
  rw [events_split hsplit]
  simp only [List.mem_append, List.mem_cons, List.not_mem_nil, or_false] at hx ⊢
  exact hx.imp_right Or.inl

include hsplit in
theorem registrations_subset : ∀ op ∈ registrations D proj pre, op ∈ registrations D proj steps := by
  intro op hop
  rw [hsplit, registrations, List.flatMap_append]
  exact List.mem_append_left _ hop

include hstores hup hsplit in
/-- The last event of a row of the first store, when nothing else about its entry is to come. -/
theorem entry_of_row (hev : ev.store = s₁) (hrow : ∀ x ∈ post.events, versionKey x ≠ versionKey ev)
    (href : ∀ x ∈ post.events, ∀ s ∈ others, versionKey x ≠ reference D ev s) (e : Entries) :
    appliedR D proj (cacheGet l) e ev (projectionKey proj (target D proj ev)) =
      finalEntry D proj s₁ steps.events (versionKey ev) := by
  rw [finalEntry, newest_of_split (events_split hsplit) hrow, Option.bind_some]
  cases hdel : isDeleted ev with
  | true => rw [appliedR_of_deleted hstores hev hdel, if_pos rfl, if_pos rfl]
  | false =>
    rw [appliedR_of_upsert hstores hev hdel, if_pos rfl, if_neg (by simp)]
    refine congrArg some (joined_congr fun s hs => ?_)
    unfold component remaining
    rw [hev]
    split_ifs with heq
    · rfl
    · rw [hstores] at hs
      have hs' : s ∈ others := (List.mem_cons.1 hs).resolve_left heq
      refine hup.current pre (l, ev) post hsplit s ?_ _ fun x hx => href x hx s hs'
      rw [hstores]
      exact hs

include hstores hs₁ hlen hreg hup hsplit in
/-- The last event of a row that is referenced, when nothing else about the entry is to come. -/
theorem entry_of_reference {last : EventEnvelope} (hlast : last ∈ pre.events) (hent : Enters s₁ last)
    (hnew : newest steps.events (versionKey last) = some last) (hev : ev.store ∈ others)
    (hevrow : versionKey ev = reference D last ev.store)
    (hrow : ∀ x ∈ post.events, versionKey x ≠ versionKey last)
    (href : ∀ x ∈ post.events, versionKey x ≠ versionKey ev) :
    (refreshEntry D proj (cacheGet l) ev (target D proj last)).2 =
      finalEntry D proj s₁ steps.events (versionKey last) := by
  have hnewev := newest_of_split (events_split hsplit) href
  have hmem : last ∈ steps.events := mem_events hsplit (List.mem_append_left _ hlast)
  obtain ⟨hdel, hentity, hkey⟩ := hreg.refreshed last hmem hent hnew ev hev (hevrow ▸ hnewev)
    ⟨pre.events, post.events, events_split hsplit, hlast⟩
  have hne : s₁ ≠ ev.store := fun heq => hs₁ (heq ▸ hev)
  rw [finalEntry, hnew, Option.bind_some, if_neg (by simp [hent.2]), refreshEntry]
  simp only [hdel, Bool.false_eq_true, if_false]
  refine congrArg some (joined_congr fun s hs => ?_)
  unfold refreshed remaining
  rw [hstores] at hs
  rcases List.mem_cons.1 hs with rfl | hs
  · -- the row that references it is found under its target
    have hrowlast : (s, inferEntityFromStore s, target D proj last) = versionKey last := by
      rw [versionKey, hent.1, hentity, hkey]
    rw [if_neg hne, if_pos rfl]
    refine (hup.current pre (l, ev) post hsplit s (by simp [hstores]) (target D proj last)
      fun x hx => hrowlast ▸ hrow x hx).trans ?_
    rw [hrowlast, document, hnew, Option.bind_some, left, hent.2]
    rfl
  · obtain rfl := eq_of_mem_others hlen hs hev
    rw [if_pos rfl, if_neg (Ne.symm hne), ← hevrow, document, hnewev, Option.bind_some, left, hdel]
    rfl

include hstores hlen hreg hm hsplit in
/-- The event finds the target of a row exactly when it is on the row that is referenced. -/
theorem mem_dependents_iff {e : Entries} (h : Listed D proj (registrations D proj pre) e)
    (hev : ev.store ∈ others) {o : EventEnvelope} (ho : o ∈ pre.events) (hent : Enters s₁ o) :
    target D proj o ∈ dependents D e (indexOf proj (versionKey ev)) ↔
      versionKey ev = reference D o ev.store := by
  have hsub : ∀ x ∈ pre.events, x ∈ steps.events :=
    fun x hx => mem_events hsplit (List.mem_append_left _ hx)
  have hevmem : ev ∈ steps.events := mem_events hsplit (by simp)
  rw [h.mem_dependents hm (registrations_subset hsplit) (ofIndex_indexOf ..), mem_registrations hstores]
  constructor
  · rintro ⟨o', ho', hent', htarget, s, hs, hindex⟩
    obtain rfl := eq_of_mem_others hlen hs hev
    have hentity := hreg.indexed o' (hsub o' ho') hent' ev hevmem hev hindex.symm
    have hrow := hreg.same_row (hsub o ho) hent (hsub o' ho') hent'.1 htarget
    -- rows that have the target in common reference the same row
    have hresolve : resolveLookupKey D o' ev.store = resolveLookupKey D o ev.store := by
      obtain ⟨last, hlast, -, -, hkeys⟩ := hreg.lasting o (hsub o ho) hent
      obtain ⟨last', hlast', -, -, hkeys'⟩ := hreg.lasting o' (hsub o' ho') hent'
      rw [hrow, hlast, Option.some.injEq] at hlast'
      rw [← hkeys' _ hs, ← hlast', hkeys _ hs]
    have hrows : reference D o' ev.store = versionKey ev := indexOf_inj rfl hentity.symm hindex
    rw [← hrows, reference, hresolve, reference]
  · intro hrow
    exact ⟨o, ho, hent, rfl, ev.store, hev, by rw [hrow]⟩

include hstores hup hsplit in
theorem mem_others (hne : ev.store ≠ s₁) : ev.store ∈ others := by
  have hmem := hup.ofStores ev (mem_events hsplit (by simp))
  rw [hstores] at hmem
  exact (List.mem_cons.1 hmem).resolve_left hne

section Event

variable {e : Entries} (h : OnWay D proj s₁ others steps.events pre ((l, ev) :: post) e)

include hm hsplit h in
theorem OnWay.listed_step :
    Listed D proj (registrations D proj (pre ++ [(l, ev)])) (appliedR D proj (cacheGet l) e ev) := by
  have hregs : registrations D proj (pre ++ [(l, ev)]) =
      registrations D proj pre ++ operationsR D proj (cacheGet l) ev := by
    simp [registrations]
  rw [hregs, appliedR]
  refine h.listed.foldl (fun op hop => keyed_operationsR hop) hm fun op hop => ?_
  rw [hsplit, registrations, List.flatMap_append, List.flatMap_cons, ← List.append_assoc]
  exact List.mem_append_left _ hop

include hstores hm hsplit h in
theorem OnWay.absent_step {k : String}
    (hk : ∀ o ∈ pre.events ++ [ev], Enters s₁ o → target D proj o ≠ k) :
    appliedR D proj (cacheGet l) e ev (projectionKey proj k) = none := by
  have hold := h.absent k fun o ho => hk o (List.mem_append_left _ ho)
  by_cases hst : ev.store = s₁
  · cases hdel : isDeleted ev with
    | true =>
      rw [appliedR_of_deleted hstores hst hdel, hold]
      split_ifs <;> rfl
    | false =>
      rw [appliedR_of_upsert hstores hst hdel, if_neg, hold]
      exact Ne.symm (hk ev (by simp) ⟨hst, hdel⟩)
  · rw [appliedR_of_other hstores hst, if_neg, hold]
    rw [h.listed.mem_dependents hm (registrations_subset hsplit) (ofIndex_indexOf ..),
      mem_registrations hstores]
    rintro ⟨o, ho, hent, htarget, -⟩
    exact hk o (List.mem_append_left _ ho) hent htarget

variable {o : EventEnvelope} (hent : Enters s₁ o)
  (hnone : ∀ x ∈ post.events, ¬ About D others o x)

include h hent hnone in
/-- An entry that nothing else is about is right already. -/
theorem OnWay.settled (ho : o ∈ pre.events) (hnot : ¬ About D others o ev) :
    e (projectionKey proj (target D proj o)) = finalEntry D proj s₁ steps.events (versionKey o) := by
  refine (h.entries o ho hent).resolve_right ?_
  rintro ⟨x, hx, hab⟩
  rcases List.mem_cons.1 hx with rfl | hx
  · exact hnot hab
  · exact hnone x hx hab

include hstores hreg hup hsplit hent hnone in
/-- The event is the last one of the row. -/
theorem entry_of_last (ho : o ∈ pre.events ++ [ev]) (hrow : versionKey ev = versionKey o) :
    appliedR D proj (cacheGet l) e ev (projectionKey proj (target D proj o)) =
      finalEntry D proj s₁ steps.events (versionKey o) := by
  obtain ⟨last, hlast, htarget, -, hkeys⟩ := hreg.lasting o (mem_events hsplit ho) hent
  have hrow' : ∀ x ∈ post.events, versionKey x ≠ versionKey ev :=
    fun x hx heq => hnone x hx (Or.inl (heq.trans hrow))
  obtain rfl : ev = last := by
    rw [← hrow, newest_of_split (events_split hsplit) hrow', Option.some.injEq] at hlast
    exact hlast
  have hst : ev.store = s₁ := (congrArg Prod.fst hrow).trans hent.1
  rw [← htarget, ← hrow]
  refine entry_of_row hstores hup hsplit hst hrow' (fun x hx s hs heq => hnone x hx ?_) e
  exact Or.inr ⟨s, hs, by rw [heq, reference, hkeys s hs, reference]⟩

include hstores hs₁ hreg hsplit h hent hnone in
/-- The event is on another row of the first store. -/
theorem OnWay.entry_of_other_row (ho : o ∈ pre.events) (hst : ev.store = s₁)
    (hrow : versionKey ev ≠ versionKey o) :
    appliedR D proj (cacheGet l) e ev (projectionKey proj (target D proj o)) =
      finalEntry D proj s₁ steps.events (versionKey o) := by
  have hnot : ¬ About D others o ev := by
    rintro (heq | ⟨s, hs, heq⟩)
    · exact hrow heq
    · exact hs₁ (by rwa [← hst, show ev.store = s from congrArg Prod.fst heq])
  have hne := hreg.separate o (mem_events hsplit (List.mem_append_left _ ho)) hent ev
    (mem_events hsplit (by simp)) hst hrow
  rw [← h.settled hent hnone ho hnot]
  cases hdel : isDeleted ev with
  | true => rw [appliedR_of_deleted hstores hst hdel, if_neg (Ne.symm hne)]
  | false => rw [appliedR_of_upsert hstores hst hdel, if_neg (Ne.symm hne)]

include hstores hs₁ hlen hreg hup hm hsplit h hent hnone in
/-- The event is on a row of another store. -/
theorem OnWay.entry_of_other_store (ho : o ∈ pre.events) (hst : ev.store ≠ s₁)
    (hrow : versionKey ev ≠ versionKey o) :
    appliedR D proj (cacheGet l) e ev (projectionKey proj (target D proj o)) =
      finalEntry D proj s₁ steps.events (versionKey o) := by
  have hin := mem_others hstores hup hsplit hst
  have hiff := mem_dependents_iff hstores hlen hreg hm hsplit h.listed hin ho hent
  obtain ⟨last, hlast, htarget, hdel, hkeys⟩ :=
    hreg.lasting o (mem_events hsplit (List.mem_append_left _ ho)) hent
  rw [appliedR_of_other hstores hst]
  split_ifs with hdep
  · -- the event is the last one of the row that is referenced
    have hevrow : versionKey ev = reference D last ev.store := by
      rw [hiff.1 hdep, reference, reference, hkeys _ hin]
    obtain ⟨hlastmem, hlastrow⟩ := mem_of_newest hlast
    have hlastent : Enters s₁ last := by
      refine ⟨(congrArg Prod.fst hlastrow).trans hent.1, Bool.eq_false_iff.2 fun hd => ?_⟩
      rw [hdel hd] at hin
      exact List.not_mem_nil hin
    have hlastpre : last ∈ pre.events := by
      rw [events_split hsplit] at hlastmem
      rcases List.mem_append.1 hlastmem with hx | hx
      · exact hx
      rcases List.mem_cons.1 hx with rfl | hx
      · exact absurd hlastrow hrow
      · exact absurd (Or.inl hlastrow) (hnone last hx)
    rw [← htarget, ← hlastrow]
    refine entry_of_reference hstores hs₁ hlen hreg hup hsplit hlastpre hlastent
      (by rw [hlastrow, hlast]) hin hevrow (fun x hx heq => ?_) fun x hx heq => ?_
    · exact hnone x hx (Or.inl (heq.trans hlastrow))
    · exact hnone x hx (Or.inr ⟨ev.store, hin, heq.trans (hiff.1 hdep)⟩)
  · refine h.settled hent hnone ho ?_
    rintro (heq | ⟨s, hs, heq⟩)
    · exact hrow heq
    · obtain rfl : ev.store = s := congrArg Prod.fst heq
      exact hdep (hiff.2 heq)

include hstores hs₁ hlen hreg hup hm hsplit h in
/-- One event. -/
theorem OnWay.step :
    OnWay D proj s₁ others steps.events (pre ++ [(l, ev)]) post (appliedR D proj (cacheGet l) e ev) := by
  have hevents : Steps.events (pre ++ [(l, ev)]) = pre.events ++ [ev] := by simp [Steps.events]
  refine ⟨h.listed_step hm hsplit, fun k hk => ?_, fun o ho hent => ?_⟩
  · rw [hevents] at hk
    exact h.absent_step hstores hm hsplit hk
  · rw [hevents] at ho
    by_cases hcome : ∃ x ∈ post.events, About D others o x
    · exact Or.inr hcome
    left
    have hnone : ∀ x ∈ post.events, ¬ About D others o x := fun x hx hab => hcome ⟨x, hx, hab⟩
    by_cases hrow : versionKey ev = versionKey o
    · exact entry_of_last hstores hreg hup hsplit hent hnone ho hrow
    have ho' : o ∈ pre.events := by
      rcases List.mem_append.1 ho with ho | ho
      · exact ho
      · exact absurd (by rw [List.mem_singleton.1 ho]) hrow
    by_cases hst : ev.store = s₁
    · exact h.entry_of_other_row hstores hs₁ hreg hsplit hent hnone ho' hst hrow
    · exact h.entry_of_other_store hstores hs₁ hlen hreg hup hm hsplit hent hnone ho' hst hrow

end Event

include hstores hs₁ hlen hreg hup hm in
/-- **What is there in the end.** -/
theorem onWay_end :
    OnWay D proj s₁ others steps.events steps [] (steps.applied D proj) := by
  suffices h : ∀ pre post, steps = pre ++ post →
      OnWay D proj s₁ others steps.events pre post (Steps.applied D proj pre) from
    h steps [] (by simp)
  intro pre
  induction pre using List.reverseRecOn with
  | nil =>
    rintro post rfl
    exact OnWay.start
  | append_singleton pre x ih =>
    intro post hsplit
    have hsplit' : steps = pre ++ x :: post := by simpa using hsplit
    rw [Steps.applied_append]
    exact (ih (x :: post) hsplit').step hstores hs₁ hlen hreg hup hm hsplit'

end Steps

/-! ### On the wire -/

section Wire

variable {s₁ : String} {others : List String} {steps pre post : Steps} {e e' : Entries}

/-- The entries agree, up to those that show rows. -/
def AgreeOffRows (e e' : Entries) : Prop := ∀ key, ¬ IsRow key → e key = e' key

theorem IsIndex.not_isRow {key : String} (h : IsIndex key) : ¬ IsRow key := by
  intro h'
  rw [IsRow, h] at h'
  exact absurd h' (by decide)

theorem IsEntry.not_isRow {key : String} (h : IsEntry key) : ¬ IsRow key := by
  intro h'
  rw [IsRow, h] at h'
  exact absurd h' (by decide)

theorem agreeOffRows_withRows (rows e : Entries) : AgreeOffRows (withRows rows e) e :=
  fun _ hkey => if_neg hkey

theorem cacheGet_withRows (rows e : Entries) : cacheGet (withRows rows e) = cacheGet rows := by
  funext store entity key
  exact if_pos (by simp [IsRow, Cache.Name.toKey, String.toList_append])

theorem AgreeOffRows.dependents (h : AgreeOffRows e e') {index : String} (hindex : IsIndex index) :
    dependents D e index = dependents D e' index :=
  congrArg (targetsIn D) (h index hindex.not_isRow)

theorem AgreeOffRows.update (h : AgreeOffRows e e') (key : String) (value : Option Bytes) :
    AgreeOffRows (Function.update e key value) (Function.update e' key value) := by
  intro k hk
  by_cases heq : k = key
  · rw [heq, Function.update_self, Function.update_self]
  · rw [Function.update_of_ne heq, Function.update_of_ne heq]
    exact h k hk

theorem AgreeOffRows.apply (h : AgreeOffRows e e') {op : Operation} (hop : op.Keyed) :
    AgreeOffRows (op.apply D e) (op.apply D e') := by
  cases op with
  | write key value => exact h.update key value
  | register index target =>
    rw [apply_register, apply_register, h index (show IsIndex index from hop).not_isRow]
    exact h.update index _
  | refresh index entry =>
    intro key hkey
    show settle e ((Projector.dependents D e index).map entry) key =
      settle e' ((Projector.dependents D e' index).map entry) key
    rw [settle_eq, settle_eq, h.dependents hop.1, h key hkey]

theorem AgreeOffRows.foldl (h : AgreeOffRows e e') {ops : List Operation}
    (hops : ∀ op ∈ ops, op.Keyed) :
    AgreeOffRows (ops.foldl (Operation.apply D) e) (ops.foldl (Operation.apply D) e') := by
  induction ops generalizing e e' with
  | nil => exact h
  | cons op ops ih =>
    exact ih (h.apply (hops op List.mem_cons_self)) fun op' h' => hops op' (List.mem_cons_of_mem _ h')

theorem registrations_append (pre post : Steps) :
    registrations D proj (pre ++ post) = registrations D proj pre ++ registrations D proj post :=
  List.flatMap_append

/-- In every run, the reverse index lists what has been registered. -/
theorem listed_applied (hm : Manageable D (registrations D proj steps)) (hsplit : steps = pre ++ post) :
    Listed D proj (registrations D proj pre) (pre.applied D proj) := by
  induction pre using List.reverseRecOn generalizing post with
  | nil => exact Listed.nil fun _ _ => rfl
  | append_singleton pre x ih =>
    have hregs : registrations D proj (pre ++ [x]) =
        registrations D proj pre ++ operationsR D proj (cacheGet x.1) x.2 := by
      simp [registrations]
    rw [hregs, Steps.applied_append, appliedR]
    refine (ih (by simpa using hsplit)).foldl (fun op hop => keyed_operationsR hop) hm fun op hop => ?_
    rw [hsplit, registrations_append, hregs]
    exact List.mem_append_left _ hop

/-- The targets in the reverse index are those of events, whose names do not interfere. -/
theorem plain_of_mem_dependents (hstores : proj.sourceStores = s₁ :: others)
    (hm : Manageable D (registrations D proj steps)) (hsplit : steps = pre ++ post)
    (hsend : ∀ event ∈ steps.events, SendableR D proj event) {index t : String}
    (hindex : OfIndex proj index) (ht : t ∈ dependents D (pre.applied D proj) index) : Cache.Plain t := by
  have hsub : ∀ op ∈ registrations D proj pre, op ∈ registrations D proj steps := by
    intro op hop
    rw [hsplit, registrations_append]
    exact List.mem_append_left _ hop
  rw [(listed_applied hm hsplit).mem_dependents hm hsub hindex, mem_registrations hstores] at ht
  obtain ⟨o, ho, hent, rfl, -⟩ := ht
  have ho' : o ∈ steps.events := by
    rw [hsplit, Steps.events, List.map_append]
    exact List.mem_append_left _ ho
  exact ((hsend o ho').primary (by rw [hstores, List.head?_cons, hent.1])).1

/-- **The projector on the wire does what the operations do**, up to the entries that show rows, if the
names in the events do not interfere with the protocol. -/
theorem cache_eq_applied (hsize : ∀ j, (D.toVec j).length < 2 ^ 63)
    (hstores : proj.sourceStores = s₁ :: others) (hm : Manageable D (registrations D proj steps))
    (hsend : ∀ event ∈ steps.events, SendableR D proj event) (hsplit : steps = pre ++ post) :
    AgreeOffRows (Steps.cache D proj pre) (Steps.applied D proj pre) := by
  induction pre using List.reverseRecOn generalizing post with
  | nil => exact fun _ _ => rfl
  | append_singleton pre x ih =>
    have hsplit' : steps = pre ++ x :: post := by simpa using hsplit
    have hpre : AgreeOffRows (withRows x.1 (Steps.cache D proj pre)) (Steps.applied D proj pre) :=
      fun key hkey => (agreeOffRows_withRows _ _ key hkey).trans (ih hsplit' key hkey)
    have hx : x.2 ∈ steps.events := by
      rw [hsplit', Steps.events, List.map_append, List.map_cons]
      simp
    rw [Steps.cache_append, Steps.applied_append, appliedR,
      afterR_eq hsize (hsend x.2 hx) fun _ t ht => ?_, cacheGet_withRows]
    · exact hpre.foldl fun op hop => keyed_operationsR hop
    · rw [hpre.dependents (isIndex_dependencyIndexKey ..)] at ht
      exact plain_of_mem_dependents hstores hm hsplit' hsend (ofIndex_dependencyIndexKey ..) ht

end Wire

/-! ### Runs to evaluate -/

/-- Users with their accounts. -/
def sampleJoin : ProjectionConfig where
  name := "user_view"
  pattern := .R
  sourceStores := ["main", "users"]
  targetKey := "user_id"
  ttlSeconds := 60
  copyFields := none

/-- The batches of the store `main` and that of the store `users`. -/
def sampleStores (bs : List Batch) : String → List Batch :=
  Function.update (Function.update (fun _ => []) "users" sampleAccountBatches) "main" bs

theorem of_mem_sampleJoin {motive : String → Prop} (hmain : motive "main") (husers : motive "users") :
    ∀ s ∈ sampleJoin.sourceStores, motive s := by
  intro s hs
  rcases List.mem_cons.1 hs with rfl | hs
  · exact hmain
  · rw [List.mem_singleton.1 hs]
    exact husers

/-- The `c:` entries that show the rows of the stores, as far as the projection looks them up. -/
def sampleRowEntries (bs : String → List Batch) : Entries := fun key =>
  match stripPrefix "c:main:main:" key.toList with
  | some row => stored sampleFeedDeps bs "main" "main" (String.ofList row)
  | none =>
    match stripPrefix "c:users:user:" key.toList with
    | some row => stored sampleFeedDeps bs "users" "user" (String.ofList row)
    | none => none

theorem showsRows_sample (bs : String → List Batch) :
    ShowsRows sampleFeedDeps sampleJoin bs (sampleRowEntries bs) := by
  refine of_mem_sampleJoin (fun key => ?_) fun key => ?_
  · have hkey : (Cache.Name.entity "main" "main" key).toKey.toList =
        "c:main:main:".toList ++ key.toList := by
      simp [Cache.Name.toKey, String.toList_append]
    show sampleRowEntries bs (Cache.Name.entity "main" "main" key).toKey = _
    rw [sampleRowEntries, hkey, stripPrefix_append]
    simp only [String.ofList_toList]
    rfl
  · have hkey : (Cache.Name.entity "users" "user" key).toKey.toList =
        "c:users:user:".toList ++ key.toList := by
      simp [Cache.Name.toKey, String.toList_append]
    have hnone : stripPrefix "c:main:main:" ("c:users:user:".toList ++ key.toList) = none := rfl
    show sampleRowEntries bs (Cache.Name.entity "users" "user" key).toKey = _
    rw [sampleRowEntries, hkey, hnone, stripPrefix_append]
    simp only [String.ofList_toList]
    rfl

/-- The user is deleted before the account is processed. -/
def sampleStaleRefresh : Steps :=
  [(sampleRowEntries (sampleStores sampleUpsertAndDelete), sampleUserEvent),
    (sampleRowEntries (sampleStores sampleUpsertAndDelete), sampleDeleteEvent),
    (sampleRowEntries (sampleStores sampleUpsertAndDelete), sampleAccountEvent)]

/-- The run. -/
def sampleDeletion : Online where
  batches := sampleStores sampleUpsertAndDelete
  processed := sampleStaleRefresh.events
  cache := sampleStaleRefresh.cache sampleFeedDeps sampleJoin

/-- The steps that lead there. -/
def sampleDeletionActs : List Act :=
  [.commit "users" ⟨fun _ => sampleAmbient, [sampleAccount]⟩,
    .commit "main" ⟨fun _ => sampleAmbient, [sampleUpsert "a" 1, sampleDelete "b" 2]⟩,
    .process "main" (sampleRowEntries (sampleStores sampleUpsertAndDelete)),
    .process "main" (sampleRowEntries (sampleStores sampleUpsertAndDelete)),
    .process "users" (sampleRowEntries (sampleStores sampleUpsertAndDelete))]

theorem stepsMeet_sampleDeletion :
    StepsMeet (Online.step sampleFeedDeps sampleJoin) (CacheUpToDate sampleFeedDeps sampleJoin)
        Online.start sampleDeletionActs ∧
      runFrom (Online.step sampleFeedDeps sampleJoin) Online.start sampleDeletionActs =
        some sampleDeletion := by
  have hrows := showsRows_sample (sampleStores sampleUpsertAndDelete)
  refine stepsMeet_cons trivial rfl (stepsMeet_cons trivial rfl
    (stepsMeet_cons hrows (Online.step_process sampleUserEvent (by decide) ?_)
    (stepsMeet_cons hrows (Online.step_process sampleDeleteEvent (by decide) ?_)
    (stepsMeet_cons hrows (Online.step_process sampleAccountEvent (by decide) ?_)
      ⟨trivial, congrArg some ?_⟩))))
  · exact congrArg (·[0]?) feed_sampleUpsertAndDelete
  · show (feed sampleFeedDeps (run sampleFeedDeps "main" sampleUpsertAndDelete))[1]? = _
    rw [feed_sampleUpsertAndDelete]
    rfl
  · exact congrArg (·[0]?) feed_sampleAccountBatches
  · rw [sampleDeletion, sampleStaleRefresh, Steps.cache, List.foldl_cons, List.foldl_cons,
      List.foldl_cons, List.foldl_nil, Online.mk.injEq]
    dsimp only [Online.start]
    exact ⟨rfl, rfl, rfl⟩

end Projector

end Ixmati
