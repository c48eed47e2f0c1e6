import Ixmati.Projector.PatternR

/-!
# References that are no longer current

The reverse index of a projection of pattern R only grows: a row of the first source store is registered
under every row that it has ever referenced, and stays there when it is deleted or references another row
(`listed_applied`).  So an event of another source store writes the entries of all rows that have ever
referenced its row.

It writes the entries of the right ones if each row that has referenced it still does
(`refreshes_current`).  What it writes then is the old entry with its own component replaced, if the row
is found under its target and the references to the remaining stores have the target as their key: this
is where a refresh looks them up (`refresh_replaces_component`).
-/

namespace Ixmati

open WriteEngine History Ixmati.System

open Cache (Entries)

namespace Projector

variable {D : Deps} {proj : ProjectionConfig} {s₁ : String} {others : List String} {steps pre post : Steps}
  {l : Entries} {ev : EventEnvelope}

/-! ### The index -/

/-- The event of the first source store has been registered under the row of the event. -/
def RegisteredUnder (D : Deps) (proj : ProjectionConfig) (others : List String)
    (o ev : EventEnvelope) : Prop :=
  ∃ s ∈ others, indexOf proj (reference D o s) = indexOf proj (versionKey ev)

/-- What an event of another source store finds in the index. -/
theorem mem_dependents_applied (hstores : proj.sourceStores = s₁ :: others)
    (hm : Manageable D (registrations D proj steps)) (hsplit : steps = pre ++ post) {pk : String} :
    pk ∈ dependents D (pre.applied D proj) (indexOf proj (versionKey ev)) ↔
      ∃ o ∈ pre.events, Enters s₁ o ∧ target D proj o = pk ∧ RegisteredUnder D proj others o ev := by
  have hsub : ∀ op ∈ registrations D proj pre, op ∈ registrations D proj steps := by
    intro op hop
    rw [hsplit, registrations_append]
    exact List.mem_append_left _ hop
  rw [(listed_applied hm hsplit).mem_dependents hm hsub (ofIndex_indexOf ..), mem_registrations hstores]
  rfl

/-! ### The last event of an entry -/

/-- The last event of the first source store with the projection key. -/
def lastPrimary (D : Deps) (proj : ProjectionConfig) (s₁ : String) (evs : List EventEnvelope)
    (pk : String) : Option EventEnvelope :=
  lastWhere (fun o => decide (o.store = s₁ ∧ target D proj o = pk)) evs

/-- The last event with the projection key is not a deletion, and references the key of `ev` in its
store. -/
def RefersTo (D : Deps) (proj : ProjectionConfig) (s₁ : String) (evs : List EventEnvelope)
    (ev : EventEnvelope) (pk : String) : Prop :=
  ∃ o, lastPrimary D proj s₁ evs pk = some o ∧ isDeleted o = false ∧
    resolveLookupKey D o ev.store = ev.key

/-- Events of the other source stores change the entries of rows that reference theirs, and no
others. -/
def RefreshesCurrent (D : Deps) (proj : ProjectionConfig) (s₁ : String) (steps : Steps) : Prop :=
  ∀ pre l ev post, steps = pre ++ (l, ev) :: post → ev.store ≠ s₁ → ∀ pk,
    Steps.cache D proj (pre ++ [(l, ev)]) (projectionKey proj pk) ≠
      Steps.cache D proj pre (projectionKey proj pk) →
    RefersTo D proj s₁ (Steps.events pre) ev pk

/-- When an event of another source store is processed, each row that has been registered under its row
still references it.  The names in the events do not interfere with the protocol of the cache. -/
structure StillReferences (D : Deps) (proj : ProjectionConfig) (s₁ : String) (others : List String)
    (steps : Steps) : Prop where
  sendable : ∀ event ∈ steps.events, SendableR D proj event
  current : ∀ pre l ev post, steps = pre ++ (l, ev) :: post → ev.store ≠ s₁ →
    ∀ o ∈ Steps.events pre, Enters s₁ o → RegisteredUnder D proj others o ev →
      RefersTo D proj s₁ (Steps.events pre) ev (target D proj o)

theorem not_isRow_projectionKey (proj : ProjectionConfig) (key : String) :
    ¬ IsRow (projectionKey proj key) :=
  (isEntry_projectionKey proj key).not_isRow

/-- **Only rows that reference a row are refreshed with it**, in every run in which a row that has once
referenced another one still does so when an event on that one is processed, and no name in an event
interferes with the protocol. -/
theorem refreshes_current (D : Deps) (proj : ProjectionConfig) (s₁ : String) (others : List String)
    (steps : Steps) (hsize : ∀ j, (D.toVec j).length < 2 ^ 63)
    (hstores : proj.sourceStores = s₁ :: others) (hm : Manageable D (registrations D proj steps))
    (h : StillReferences D proj s₁ others steps) : RefreshesCurrent D proj s₁ steps := by
  intro pre l ev post hsplit hev pk hchange
  have hsplit' : steps = (pre ++ [(l, ev)]) ++ post := by simpa using hsplit
  have hkey := not_isRow_projectionKey proj pk
  rw [cache_eq_applied hsize hstores hm h.sendable hsplit' _ hkey,
    cache_eq_applied hsize hstores hm h.sendable hsplit _ hkey, Steps.applied_append,
    appliedR_of_other hstores hev] at hchange
  split_ifs at hchange with hdep
  · obtain ⟨o, ho, hent, rfl, hreg⟩ := (mem_dependents_applied hstores hm hsplit).1 hdep
    exact h.current pre l ev post hsplit hev o ho hent hreg
  · exact absurd rfl hchange

/-- A single target is manageable. -/
theorem manageable_of_one (hstores : proj.sourceStores = s₁ :: others) {t : String}
    (ht : ∀ o ∈ steps.events, Enters s₁ o → target D proj o = t)
    (hnil : readStrings D (writeStrings D []) = some [])
    (hone : readStrings D (writeStrings D [t]) = some [t]) :
    Manageable D (registrations D proj steps) := by
  have hlist : ∀ (index : String) (targets : List String), targets.Nodup →
      (∀ x ∈ targets, Operation.register index x ∈ registrations D proj steps) →
      targets = [] ∨ targets = [t] := by
    intro index targets hnd hreg
    refine targets_eq_of_forall hnd fun x hx => ?_
    obtain ⟨o, ho, hent, rfl, -⟩ := (mem_registrations hstores).1 (hreg x hx)
    exact ht o ho hent
  refine ⟨fun index targets hnd hreg => ?_, fun index targets hnd hreg => ?_⟩
  · rcases hlist index targets hnd hreg with rfl | rfl
    · exact Nat.zero_lt_succ _
    · exact Nat.one_lt_succ_succ _
  · rcases hlist index targets hnd hreg with rfl | rfl
    · exact hnil
    · exact hone

/-- The account is processed after the user. -/
def sampleRefresh : Steps :=
  [(sampleRowEntries (sampleStores sampleBatches), sampleUserEvent),
    (sampleRowEntries (sampleStores sampleBatches), sampleAccountEvent)]

theorem manageable_sample {steps : Steps}
    (h : ∀ o ∈ steps.events, Enters "main" o → target sampleFeedDeps sampleJoin o = "1") :
    Manageable sampleFeedDeps (registrations sampleFeedDeps sampleJoin steps) :=
  manageable_of_one rfl h (by decide +kernel) (by decide +kernel)

/-- What the projector makes of an entry. -/
theorem cache_sample {steps : Steps}
    (h : ∀ o ∈ steps.events, Enters "main" o → target sampleFeedDeps sampleJoin o = "1")
    (hsend : ∀ event ∈ steps.events, SendableR sampleFeedDeps sampleJoin event) (k : String) :
    steps.cache sampleFeedDeps sampleJoin (projectionKey sampleJoin k) =
      steps.applied sampleFeedDeps sampleJoin (projectionKey sampleJoin k) :=
  cache_eq_applied (Deps.length_bounded _) rfl (manageable_sample h) hsend
    (List.append_nil steps).symm _ (not_isRow_projectionKey sampleJoin k)

theorem refreshes_current_of_an_account :
    RefreshesCurrent sampleFeedDeps sampleJoin "main" sampleRefresh := by
  refine refreshes_current _ _ _ ["users"] _ (Deps.length_bounded _) rfl
    (manageable_sample (by decide +kernel)) ⟨by decide +kernel, ?_⟩
  intro pre l ev post hsplit hev o ho hent _
  match pre with
  | [] =>
    obtain ⟨rfl, rfl⟩ := Prod.mk.inj (List.cons.inj hsplit).1
    exact absurd rfl hev
  | [x] =>
    obtain ⟨rfl, htail⟩ := List.cons.inj hsplit
    obtain ⟨rfl, rfl⟩ := Prod.mk.inj (List.cons.inj htail).1
    obtain rfl := List.mem_singleton.1 ho
    exact ⟨sampleUserEvent, by rfl, by decide +kernel, by decide +kernel⟩
  | x :: y :: pre => simp [sampleRefresh] at hsplit

/-- The entry of a deleted user is made again by the account. -/
theorem deleted_user_is_refreshed :
    StepsMeet (Online.step sampleFeedDeps sampleJoin) (CacheUpToDate sampleFeedDeps sampleJoin)
      Online.start sampleDeletionActs ∧
    runFrom (Online.step sampleFeedDeps sampleJoin) Online.start sampleDeletionActs =
      some sampleDeletion ∧
    sampleDeletion.processed = sampleStaleRefresh.events ∧
    sampleDeletion.cache = sampleStaleRefresh.cache sampleFeedDeps sampleJoin ∧
    Manageable sampleFeedDeps (registrations sampleFeedDeps sampleJoin sampleStaleRefresh) ∧
    ¬ RefreshesCurrent sampleFeedDeps sampleJoin "main" sampleStaleRefresh := by
  refine ⟨stepsMeet_sampleDeletion.1, stepsMeet_sampleDeletion.2, rfl, by rw [sampleDeletion],
    manageable_sample (by decide +kernel), fun h => ?_⟩
  obtain ⟨o, hlast, hdel, -⟩ := h [_, _] _ sampleAccountEvent [] rfl (by decide) "1" fun heq => by
    rw [cache_sample (by decide +kernel) (by decide +kernel),
      cache_sample (by decide +kernel) (by decide +kernel)] at heq
    have hsome := congrArg Option.isSome heq
    revert hsome
    decide +kernel
  obtain rfl : sampleDeleteEvent = o := Option.some.inj hlast
  revert hdel
  decide +kernel

/-! ### What a refresh writes -/

/-- The `c:` entries show what the events that have been processed leave in the rows. -/
def Fresh (D : Deps) (proj : ProjectionConfig) (steps : Steps) : Prop :=
  ∀ pre l ev post, steps = pre ++ (l, ev) :: post → ∀ s ∈ proj.sourceStores, s ≠ ev.store → ∀ key,
    (cacheGet l s (inferEntityFromStore s) key).bind D.fromSlice =
      document (Steps.events pre) (s, inferEntityFromStore s, key)

/-- An event of another source store replaces its component in the entries of the rows that reference
its row, and nothing else. -/
def ReplacesComponent (D : Deps) (proj : ProjectionConfig) (s₁ : String) (steps : Steps) : Prop :=
  ∀ pre l ev post, steps = pre ++ (l, ev) :: post → ev.store ≠ s₁ → isDeleted ev = false →
    ∀ pk o, lastPrimary D proj s₁ (Steps.events pre) pk = some o → isDeleted o = false →
      versionKey ev = reference D o ev.store →
      ∃ f, Steps.cache D proj pre (projectionKey proj pk) = some (joined D proj.sourceStores f) ∧
        Steps.cache D proj (pre ++ [(l, ev)]) (projectionKey proj pk) =
          some (joined D proj.sourceStores (Function.update f ev.store (some ev.payload)))

/-- The event `o` is what a refresh with `ev` takes it for: it references the row of `ev`, the last event
on its own row is found under its target, and so are its references to the remaining stores. -/
structure FoundUnderTarget (D : Deps) (proj : ProjectionConfig) (s₁ : String) (others : List String)
    (evs : List EventEnvelope) (ev o : EventEnvelope) : Prop where
  kept : isDeleted o = false
  refers : versionKey ev = reference D o ev.store
  last : newest evs (versionKey o) = some o
  entity : o.entity = inferEntityFromStore s₁
  key : o.key = target D proj o
  remaining : ∀ s ∈ others, s ≠ s₁ → s ≠ ev.store → resolveLookupKey D o s = target D proj o

/-- When an event of another source store is processed, it is not a deletion if a row has been registered
under its row, and the last event with the target of that row is found under it.  The names in the events
do not interfere with the protocol of the cache. -/
structure RefreshesInPlace (D : Deps) (proj : ProjectionConfig) (s₁ : String) (others : List String)
    (steps : Steps) : Prop where
  sendable : ∀ event ∈ steps.events, SendableR D proj event
  inPlace : ∀ pre l ev post, steps = pre ++ (l, ev) :: post → ev.store ≠ s₁ →
    ∀ o₀ ∈ Steps.events pre, Enters s₁ o₀ → RegisteredUnder D proj others o₀ ev →
      isDeleted ev = false ∧ ∃ o, lastPrimary D proj s₁ (Steps.events pre) (target D proj o₀) = some o ∧
        FoundUnderTarget D proj s₁ others (Steps.events pre) ev o

/-- The entries are made of what the events leave. -/
def Composed (D : Deps) (proj : ProjectionConfig) (s₁ : String) (steps : Steps) : Prop :=
  ∀ pk o, lastPrimary D proj s₁ steps.events pk = some o → isDeleted o = false →
    steps.applied D proj (projectionKey proj pk) =
      some (joined D proj.sourceStores (remaining steps.events D s₁ o))

section Compose

theorem events_append (pre : Steps) (l : Entries) (ev : EventEnvelope) :
    Steps.events (pre ++ [(l, ev)]) = pre.events ++ [ev] := by
  simp [Steps.events]

theorem lastPrimary_append (evs : List EventEnvelope) (ev : EventEnvelope) (pk : String) :
    lastPrimary D proj s₁ (evs ++ [ev]) pk =
      if ev.store = s₁ ∧ target D proj ev = pk then some ev else lastPrimary D proj s₁ evs pk := by
  rw [lastPrimary, lastWhere_append]
  simp only [decide_eq_true_eq]
  rfl

theorem lastPrimary_spec {evs : List EventEnvelope} {pk : String} {o : EventEnvelope}
    (h : lastPrimary D proj s₁ evs pk = some o) : o ∈ evs ∧ o.store = s₁ ∧ target D proj o = pk := by
  obtain ⟨hmem, ho⟩ := mem_of_lastWhere h
  exact ⟨hmem, of_decide_eq_true ho⟩

/-- An event on another row leaves the document of a row alone. -/
theorem document_append_of_ne {evs : List EventEnvelope} {row : String × String × String}
    (h : versionKey ev ≠ row) : document (evs ++ [ev]) row = document evs row := by
  rw [document, newest, lastWhere_append, if_neg (by simpa using h)]
  rfl

theorem document_append_self {evs : List EventEnvelope} :
    document (evs ++ [ev]) (versionKey ev) = left ev := by
  rw [document, newest, lastWhere_append, if_pos (by simp), Option.bind_some]

/-- An event of the first source store is on none of the rows that are referenced. -/
theorem remaining_append_of_primary {evs : List EventEnvelope} (hev : ev.store = s₁)
    (o : EventEnvelope) (s : String) :
    remaining (evs ++ [ev]) D s₁ o s = remaining evs D s₁ o s := by
  unfold remaining
  split_ifs with hs
  · rfl
  · refine document_append_of_ne fun hrow => hs ?_
    rw [← hev]
    exact (congrArg Prod.fst hrow).symm

/-- An event on a row that is not referenced. -/
theorem remaining_append_of_ne {evs : List EventEnvelope} {o : EventEnvelope} {s : String}
    (h : s ≠ s₁ → versionKey ev ≠ reference D o s) :
    remaining (evs ++ [ev]) D s₁ o s = remaining evs D s₁ o s := by
  unfold remaining
  split_ifs with hs
  · rfl
  · exact document_append_of_ne (h hs)

section Step

variable (hstores : proj.sourceStores = s₁ :: others) (hm : Manageable D (registrations D proj steps))
  (hfresh : Fresh D proj steps) (hplace : RefreshesInPlace D proj s₁ others steps)
  (hsplit : steps = pre ++ (l, ev) :: post)

include hstores hfresh hsplit in
/-- An event of the first source store. -/
theorem Composed.primary (h : Composed D proj s₁ pre) (hev : ev.store = s₁) :
    Composed D proj s₁ (pre ++ [(l, ev)]) := by
  intro pk o hlast hdel
  rw [events_append] at hlast ⊢
  rw [lastPrimary_append] at hlast
  have hsame : ∀ (o : EventEnvelope) s, remaining (pre.events ++ [ev]) D s₁ o s =
      remaining pre.events D s₁ o s := remaining_append_of_primary hev
  rw [Steps.applied_append]
  split_ifs at hlast with hpk
  · obtain rfl := Option.some.inj hlast
    rw [appliedR_of_upsert hstores hev hdel, if_pos hpk.2.symm]
    refine congrArg some (joined_congr fun s hs => ?_)
    rw [hsame]
    unfold component remaining
    rw [hev]
    split_ifs with heq
    · rfl
    · exact hfresh pre l ev post hsplit s hs (fun h => heq (h.trans hev)) _
  · have hne : pk ≠ target D proj ev := fun heq => hpk ⟨hev, heq.symm⟩
    have hold := h pk o hlast hdel
    rw [← joined_congr fun s _ => hsame o s] at hold
    cases hdel' : isDeleted ev with
    | true => rw [appliedR_of_deleted hstores hev hdel', if_neg hne, hold]
    | false => rw [appliedR_of_upsert hstores hev hdel', if_neg hne, hold]

include hstores hm hfresh hplace hsplit in
/-- An event of another source store. -/
theorem Composed.secondary (h : Composed D proj s₁ pre) (hev : ev.store ≠ s₁) :
    Composed D proj s₁ (pre ++ [(l, ev)]) := by
  intro pk o hlast hdel
  rw [events_append] at hlast ⊢
  rw [lastPrimary_append, if_neg fun hand => hev hand.1] at hlast
  obtain ⟨ho, host, rfl⟩ := lastPrimary_spec hlast
  rw [Steps.applied_append, appliedR_of_other hstores hev]
  split_ifs with hdep
  · obtain ⟨o₀, ho₀, hent, htarget, hreg⟩ := (mem_dependents_applied hstores hm hsplit).1 hdep
    obtain ⟨hlive, o', hlast', hfound⟩ := hplace.inPlace pre l ev post hsplit hev o₀ ho₀ hent hreg
    rw [htarget, hlast] at hlast'
    obtain rfl := Option.some.inj hlast'
    unfold refreshEntry
    simp only [hlive, Bool.false_eq_true, if_false]
    refine congrArg some (joined_congr fun s hs => ?_)
    unfold refreshed remaining
    by_cases hown : s = ev.store
    · -- the component of the event
      subst hown
      rw [if_pos rfl, if_neg hev, ← hfound.refers, document_append_self, left, hlive]
      rfl
    rw [if_neg hown, hfresh pre l ev post hsplit s hs hown]
    by_cases hfirst : s = s₁
    · -- the row itself, under its target
      subst hfirst
      have hrow : (s, inferEntityFromStore s, target D proj o) = versionKey o := by
        rw [versionKey, host, hfound.entity, hfound.key]
      rw [if_pos rfl, hrow, document, hfound.last, Option.bind_some, left, hdel]
      rfl
    · rw [if_neg hfirst]
      have hin : s ∈ others := (List.mem_cons.1 (hstores ▸ hs)).resolve_left hfirst
      have hne : versionKey ev ≠ reference D o s := fun hrow =>
        hown (congrArg Prod.fst hrow).symm
      rw [document_append_of_ne hne, reference, hfound.remaining s hin hfirst hown]
  · -- the row is registered where it references the event's row
    have hnot : ∀ s ∈ proj.sourceStores, s ≠ s₁ → versionKey ev ≠ reference D o s := by
      intro s hs hfirst hrow
      refine hdep ((mem_dependents_applied hstores hm hsplit).2 ⟨o, ho, ⟨host, hdel⟩, rfl, s, ?_, ?_⟩)
      · exact (List.mem_cons.1 (hstores ▸ hs)).resolve_left hfirst
      · rw [hrow]
    rw [h _ o hlast hdel]
    exact congrArg some (joined_congr fun s hs => (remaining_append_of_ne (hnot s hs)).symm)

include hstores hm hfresh hplace in
/-- In every run the entries are made of what the events leave. -/
theorem composed_of_inPlace : ∀ pre post, steps = pre ++ post → Composed D proj s₁ pre := by
  intro pre
  induction pre using List.reverseRecOn with
  | nil =>
    intro post _ pk o hlast
    cases hlast
  | append_singleton pre x ih =>
    intro post hsplit
    have hsplit' : steps = pre ++ x :: post := by simpa using hsplit
    by_cases hev : x.2.store = s₁
    · exact (ih _ hsplit').primary hstores hfresh hsplit' hev
    · exact (ih _ hsplit').secondary hstores hm hfresh hplace hsplit' hev

end Step

/-- **A refresh replaces one component**, in every run in which rows are refreshed where they are, and no
name in an event interferes with the protocol. -/
theorem refresh_replaces_component (D : Deps) (proj : ProjectionConfig) (s₁ : String)
    (others : List String) (steps : Steps) (hsize : ∀ j, (D.toVec j).length < 2 ^ 63)
    (hstores : proj.sourceStores = s₁ :: others) (hm : Manageable D (registrations D proj steps))
    (hfresh : Fresh D proj steps) (hplace : RefreshesInPlace D proj s₁ others steps) :
    ReplacesComponent D proj s₁ steps := by
  intro pre l ev post hsplit hev hlive pk o hlast hdel hrefers
  have hsplit' : steps = (pre ++ [(l, ev)]) ++ post := by simpa using hsplit
  have hkey := not_isRow_projectionKey proj pk
  rw [cache_eq_applied hsize hstores hm hplace.sendable hsplit _ hkey,
    cache_eq_applied hsize hstores hm hplace.sendable hsplit' _ hkey]
  have hcomposed := composed_of_inPlace hstores hm hfresh hplace
  have hlast' : lastPrimary D proj s₁ (Steps.events (pre ++ [(l, ev)])) pk = some o := by
    rw [events_append, lastPrimary_append, if_neg fun hand => hev hand.1, hlast]
  refine ⟨remaining (Steps.events pre) D s₁ o, hcomposed pre _ hsplit pk o hlast hdel, ?_⟩
  rw [hcomposed (pre ++ [(l, ev)]) post hsplit' pk o hlast' hdel, events_append]
  refine congrArg some (joined_congr fun s hs => ?_)
  by_cases hown : s = ev.store
  · subst hown
    rw [Function.update_self, remaining, if_neg hev, ← hrefers, document_append_self, left, hlive]
    rfl
  · rw [Function.update_of_ne hown]
    exact remaining_append_of_ne fun _ hrow => hown (congrArg Prod.fst hrow).symm

end Compose

/-- Users of the store `users` with what the store `main` has of them. -/
def sampleReverseJoin : ProjectionConfig := { sampleJoin with sourceStores := ["users", "main"] }

/-- An event of the store `main` on a row of the entity that the store is named after. -/
def sampleMainEvent : EventEnvelope := { sampleUserEvent with entity := "main" }

/-- The `c:` entry of the account. -/
def sampleAccountEntry : Entries := fun key =>
  if key = "c:users:user:1" then some (sampleFeedDeps.toVec sampleAccountEvent.payload) else none

/-- The account is processed first. -/
def sampleInPlace : Steps :=
  [((fun _ => none), sampleAccountEvent), (sampleAccountEntry, sampleMainEvent)]

/-- A run of two events, split at an event. -/
theorem split_two {α : Type*} {a b x : α} {pre post : List α} (h : [a, b] = pre ++ x :: post) :
    (pre = [] ∧ x = a) ∨ (pre = [a] ∧ x = b) := by
  match pre with
  | [] => exact Or.inl ⟨rfl, (List.cons.inj h).1.symm⟩
  | [y] =>
    obtain ⟨rfl, htail⟩ := List.cons.inj h
    exact Or.inr ⟨rfl, (List.cons.inj htail).1.symm⟩
  | y :: z :: pre => simp at h

theorem fresh_sampleInPlace : Fresh sampleFeedDeps sampleReverseJoin sampleInPlace := by
  intro pre l ev post hsplit s hs hne key
  rcases split_two hsplit with ⟨rfl, hx⟩ | ⟨rfl, hx⟩
  · obtain ⟨rfl, rfl⟩ := Prod.mk.inj hx
    rfl
  · obtain ⟨rfl, rfl⟩ := Prod.mk.inj hx
    have hread : sampleFeedDeps.fromSlice (sampleFeedDeps.toVec sampleAccountEvent.payload) =
        some sampleAccountEvent.payload := fromSlice_sample (.head _)
    obtain rfl : s = "users" :=
      (List.mem_cons.1 hs).resolve_right fun h => hne (List.mem_singleton.1 h)
    by_cases hrow : key = "1"
    · subst hrow
      exact hread
    · have hother : (Cache.Name.entity "users" "user" key).toKey ≠ "c:users:user:1" := by
        intro heq
        have hlist : "c:users:user:".toList ++ key.toList = "c:users:user:".toList ++ "1".toList := by
          simpa [Cache.Name.toKey, String.toList_append] using congrArg String.toList heq
        exact hrow (String.toList_inj.1 (List.append_cancel_left hlist))
      have hnone : document ([] ++ [sampleAccountEvent]) ("users", "user", key) = none :=
        document_append_of_ne fun heq => hrow (Prod.mk.inj (Prod.mk.inj heq).2).2.symm
      refine Eq.trans ?_ hnone.symm
      show (sampleAccountEntry (Cache.Name.entity "users" "user" key).toKey).bind _ = none
      rw [sampleAccountEntry, if_neg hother]
      rfl

theorem refresh_replaces_component_of_a_user :
    ReplacesComponent sampleFeedDeps sampleReverseJoin "users" sampleInPlace := by
  refine refresh_replaces_component _ _ _ ["main"] _ (Deps.length_bounded _) rfl ?_ fresh_sampleInPlace
    ⟨by decide +kernel, ?_⟩
  · exact manageable_of_one rfl (t := "1") (by decide +kernel) (by decide +kernel) (by decide +kernel)
  · intro pre l ev post hsplit hev o ho hent _
    rcases split_two hsplit with ⟨rfl, hx⟩ | ⟨rfl, hx⟩
    · obtain ⟨rfl, rfl⟩ := Prod.mk.inj hx
      exact absurd rfl hev
    · obtain ⟨rfl, rfl⟩ := Prod.mk.inj hx
      obtain rfl := List.mem_singleton.1 ho
      refine ⟨by decide +kernel, sampleAccountEvent, rfl, ?_⟩
      exact ⟨by decide +kernel, by decide +kernel, rfl, by decide +kernel, by decide +kernel,
        by decide +kernel⟩

/-- The batches of the store `main` are committed first. -/
def sampleUserFirst : String → List Batch :=
  Function.update (fun _ => []) "main" sampleBatches

/-- The user is processed before the account is written. -/
def sampleOutOfPlace : Steps :=
  [(sampleRowEntries sampleUserFirst, sampleUserEvent),
    (sampleRowEntries (Function.update sampleUserFirst "users" sampleAccountBatches),
      sampleAccountEvent)]

/-- The run. -/
def sampleUserThenAccount : Online where
  batches := Function.update sampleUserFirst "users" sampleAccountBatches
  processed := sampleOutOfPlace.events
  cache := sampleOutOfPlace.cache sampleFeedDeps sampleJoin

/-- The steps that lead there. -/
def sampleUserThenAccountActs : List Act :=
  [.commit "main" ⟨fun _ => sampleAmbient, [sampleUpsert "a" 1]⟩,
    .process "main" (sampleRowEntries sampleUserFirst),
    .commit "users" ⟨fun _ => sampleAmbient, [sampleAccount]⟩,
    .process "users"
      (sampleRowEntries (Function.update sampleUserFirst "users" sampleAccountBatches))]

theorem stepsMeet_sampleUserThenAccount :
    StepsMeet (Online.step sampleFeedDeps sampleJoin) (CacheUpToDate sampleFeedDeps sampleJoin)
        Online.start sampleUserThenAccountActs ∧
      runFrom (Online.step sampleFeedDeps sampleJoin) Online.start sampleUserThenAccountActs =
        some sampleUserThenAccount := by
  refine stepsMeet_cons trivial rfl (stepsMeet_cons (showsRows_sample _)
    (Online.step_process sampleUserEvent (by decide) ?_) (stepsMeet_cons trivial rfl
    (stepsMeet_cons (showsRows_sample _)
      (Online.step_process sampleAccountEvent (by decide) ?_) ⟨trivial, congrArg some ?_⟩)))
  · exact congrArg (·[0]?) feed_sampleBatches
  · exact congrArg (·[0]?) feed_sampleAccountBatches
  · rw [sampleUserThenAccount, sampleOutOfPlace, Steps.cache, List.foldl_cons, List.foldl_cons,
      List.foldl_nil, Online.mk.injEq]
    dsimp only [Online.start]
    exact ⟨rfl, rfl, rfl⟩

theorem fresh_sampleOutOfPlace : Fresh sampleFeedDeps sampleJoin sampleOutOfPlace := by
  intro pre l ev post hsplit s hs hne key
  rcases split_two hsplit with ⟨rfl, hx⟩ | ⟨rfl, hx⟩
  · obtain ⟨rfl, rfl⟩ := Prod.mk.inj hx
    rw [showsRows_sample sampleUserFirst s hs key]
    rcases List.mem_cons.1 hs with rfl | hs
    · exact absurd rfl hne
    · rw [List.mem_singleton.1 hs]
      rfl
  · obtain ⟨rfl, rfl⟩ := Prod.mk.inj hx
    rw [showsRows_sample _ s hs key]
    rcases List.mem_cons.1 hs with rfl | hs
    swap
    · exact absurd (List.mem_singleton.1 hs) hne
    have hshown : Shown sampleFeedDeps "main" (run sampleFeedDeps "main" sampleBatches).db
        (feed sampleFeedDeps (run sampleFeedDeps "main" sampleBatches)) :=
      shown_run (by decide) readsBack_sampleBatches
    refine (hshown.lookup (inferEntityFromStore "main") key).trans ?_
    rw [feed_sampleBatches, document, newest_eq]
    rfl

theorem toVec_sample_of_ne {j : Json} (h : sampleFeedDeps.toVec j ≠ []) :
    sampleFeedDeps.toVec j = j.compact.toUTF8.data.toList := by
  by_cases hlen : j.compact.toUTF8.data.toList.length < 2 ^ 63
  · exact Deps.toVec_bounded hlen
  · exact absurd (if_neg hlen) h

/-- The third character of a text. -/
theorem third_of_toVec {j j' : Json} (hne : sampleFeedDeps.toVec j' ≠ [])
    (h : sampleFeedDeps.toVec j = sampleFeedDeps.toVec j') :
    j.compact.toList[2]? = j'.compact.toList[2]? := by
  rw [toVec_sample_of_ne (h ▸ hne), toVec_sample_of_ne hne] at h
  have htext : j.compact.toUTF8 = j'.compact.toUTF8 := ByteArray.ext (Array.toList_inj.1 h)
  rw [String.toByteArray_inj.1 htext]

/-- The third character of an object is the first one of its first field. -/
theorem third_of_object (k : String) (c : Char) (rest : List Char)
    (hk : (compactString k).toList = '"' :: c :: rest) (x : Json) (fields : List (String × Json)) :
    (Json.object ((k, x) :: fields)).compact.toList[2]? = some c := by
  cases fields with
  | nil => simp [Json.compact, compactFields, String.toList_append, hk]
  | cons p fields => simp [Json.compact, compactFields, String.toList_append, hk]

/-- The refresh looks the user up under the entity `main` and does not find it. -/
theorem refresh_loses_the_user :
    StepsMeet (Online.step sampleFeedDeps sampleJoin) (CacheUpToDate sampleFeedDeps sampleJoin)
      Online.start sampleUserThenAccountActs ∧
    runFrom (Online.step sampleFeedDeps sampleJoin) Online.start sampleUserThenAccountActs =
      some sampleUserThenAccount ∧
    sampleUserThenAccount.processed = sampleOutOfPlace.events ∧
    sampleUserThenAccount.cache = sampleOutOfPlace.cache sampleFeedDeps sampleJoin ∧
    Manageable sampleFeedDeps (registrations sampleFeedDeps sampleJoin sampleOutOfPlace) ∧
    Fresh sampleFeedDeps sampleJoin sampleOutOfPlace ∧
    ¬ ReplacesComponent sampleFeedDeps sampleJoin "main" sampleOutOfPlace := by
  refine ⟨stepsMeet_sampleUserThenAccount.1, stepsMeet_sampleUserThenAccount.2, rfl,
    by rw [sampleUserThenAccount],
    manageable_sample (by decide +kernel), fresh_sampleOutOfPlace, fun h => ?_⟩
  obtain ⟨f, hold, hnew⟩ := h [_] _ sampleAccountEvent [] rfl (by decide) (by decide +kernel) "1"
    sampleUserEvent rfl (by decide +kernel) (by decide +kernel)
  have hold' : Steps.cache sampleFeedDeps sampleJoin
      [(sampleRowEntries sampleUserFirst, sampleUserEvent)] (projectionKey sampleJoin "1") =
        some (sampleFeedDeps.toVec (.object [("main", sampleUserEvent.payload)])) := by
    rw [cache_sample (by decide +kernel) (by decide +kernel)]
    decide +kernel
  have hnew' : sampleOutOfPlace.cache sampleFeedDeps sampleJoin (projectionKey sampleJoin "1") =
        some (sampleFeedDeps.toVec (.object [("users", sampleAccountEvent.payload)])) := by
    rw [cache_sample (by decide +kernel) (by decide +kernel)]
    decide +kernel
  have hfirst := third_of_toVec (by decide +kernel) (Option.some.inj (hold.symm.trans hold'))
  have hsecond := third_of_toVec (by decide +kernel) (Option.some.inj (hnew.symm.trans hnew'))
  have hmain : ∀ x fields, (Json.object (("main", x) :: fields)).compact.toList[2]? = some 'm' :=
    third_of_object "main" 'm' "ain\"".toList (by decide +kernel)
  have husers : ∀ x fields, (Json.object (("users", x) :: fields)).compact.toList[2]? = some 'u' :=
    third_of_object "users" 'u' "sers\"".toList (by decide +kernel)
  rw [hmain] at hfirst
  rw [husers] at hsecond
  cases hf : f "main" with
  | none =>
    -- the old entry has the user
    cases hg : f "users" with
    | none => simp [sampleJoin, hf, hg, Json.compact, compactFields] at hfirst
    | some y => simp [sampleJoin, hf, hg, Json.insertField, husers] at hfirst
  | some x =>
    -- and the new one has not
    have hstore : sampleAccountEvent.store = "users" := rfl
    have hlt : ¬ "users" < "main" := by decide
    simp [hstore, sampleJoin, hf, hlt, Json.insertField, hmain] at hsecond

end Projector

end Ixmati
