import Ixmati.Projector.Loop
import Ixmati.Writer.Publisher

/-!
# From the broker to the projector

The event publisher of a writer, the broker and the loop of the projector as one step system.  The
projector's session is a clean one: while the projector is connected the broker queues for it what
it accepts, and it discards the queue when the connection is lost.  The client acknowledges a message
as it receives it, before the loop has seen it, so an iteration of the loop takes its message away
from the broker for good.

The publisher marks a row as published when the broker has acknowledged the publish, which says
nothing about the projector.  A row can be marked and never get to the engine: when the broker
accepts its publish while the projector is not connected, when the connection is lost or the process
dies with the message in the queue or in its hands, and when a newer version of its key overtakes it.

* `Delivery.LosesNothing` : a step does none of these to an event that was not processed;
* `Delivery.published_is_covered` : in every run of such steps, the event of each published row was
  processed or is queued for the projector;
* `Delivery.published_while_disconnected` : an event that the projector never gets.
-/

namespace Ixmati

open WriteEngine Publisher

namespace Projector

namespace Delivery

/-- The projector and what it is connected to. -/
structure Config where
  publisher : Publisher.Config
  registry : ProjectionRegistry
  dedupCapacity : ℕ

/-- The writer, the broker's session of the projector and the projector. -/
structure State where
  writer : Publisher.State
  /-- The queue of the session, while there is one. -/
  session : Option (List Publish)
  loop : Loop
  /-- The events that the engine has processed. -/
  processed : List EventEnvelope

/-- The steps of the system. -/
inductive Action where
  /-- A step of the writer, its client library or the broker's side of it. -/
  | writer (a : Publisher.Action)
  /-- The broker gets a publish again that it has not acknowledged, and queues it again. -/
  | duplicate (pkid : UInt16)
  /-- The projector connects and subscribes. -/
  | connect
  /-- An iteration of the loop: a message is received, acknowledged and handled. -/
  | iterate
  /-- The connection is lost; the loop makes a new client. -/
  | disconnect
  /-- The projector dies, in an iteration or between two, and is started again. -/
  | crash

/-- Nothing is written and nobody is connected. -/
def init (cfg : Config) : State where
  writer := Publisher.init cfg.publisher.store
  session := none
  loop := .start fun _ => none
  processed := []

/-- The broker passes a publish on to the projector. -/
def State.route (s : State) (p : Publish) : State :=
  { s with session := s.session.map (· ++ [p]) }

/-- The publish that the broker accepts in a step of the writer. -/
def acceptedBy (w : Publisher.State) : Publisher.Action → Option Publish
  | .puback pkid => w.outgoing pkid
  | _ => none

/-- The writer has moved on, and the broker passes on what it accepted. -/
def State.withWriter (s : State) (w : Publisher.State) : Option Publish → State
  | some p => { s with writer := w }.route p
  | none => { s with writer := w }

/-- The loop on the next message. -/
def State.handle (D : Deps) (cfg : Config) (s : State) (p : Publish) : State :=
  match readEvent D p.payload with
  | some event =>
    { s with
      loop := s.loop.handle D cfg.registry cfg.dedupCapacity event
      processed :=
        if s.loop.accepts cfg.dedupCapacity event then s.processed ++ [event] else s.processed }
  | none => s

/-- One step. -/
def step (D : Deps) (cfg : Config) (s : State) : Action → Option State
  | .writer a =>
    (Publisher.step D cfg.publisher s.writer a).map fun w => s.withWriter w (acceptedBy s.writer a)
  | .duplicate pkid => (s.writer.outgoing pkid).map s.route
  | .connect =>
    match s.session with
    | none => some { s with session := some [] }
    | some _ => none
  | .iterate =>
    match s.session with
    | some (p :: queue) => some ({ s with session := some queue }.handle D cfg p)
    | _ => none
  | .disconnect => some { s with session := none }
  | .crash => some { s with session := none, loop := .start s.loop.cache }

/-! ### What is lost -/

/-- The event of the message was processed. -/
def State.Done (D : Deps) (s : State) (payload : Bytes) : Prop :=
  ∃ event, readEvent D payload = some event ∧ event.eventId ∈ s.processed.map (·.eventId)

/-- The broker holds the message for the projector. -/
def State.Holds (s : State) (p : Publish) : Prop := ∃ queue, s.session = some queue ∧ p ∈ queue

/-- Every published row was processed or is held for the projector. -/
def Covered (D : Deps) (s : State) : Prop :=
  ∀ o ∈ s.writer.db.outbox.rows, o.publishedAt ≠ none →
    s.Done D o.payload ∨ s.Holds (publishOf o.toOutboxRow)

/-- The step does not take away an event that was not processed: the broker accepts it only while the
projector is connected, the connection is not lost with it in the queue, and the loop gets it as an
event that is not older than the latest of its key. -/
def LosesNothing (D : Deps) (s : State) : Action → Prop
  | .writer a => s.session = none → ∀ p ∈ acceptedBy s.writer a, s.Done D p.payload
  | .iterate => ∀ p queue, s.session = some (p :: queue) → ¬ s.Done D p.payload →
      ∃ event, readEvent D p.payload = some event ∧ s.loop.isStale event = false
  | .disconnect => ∀ p, s.Holds p → s.Done D p.payload
  | .crash => ∀ p, s.Holds p → s.Done D p.payload
  | _ => True

instance (D : Deps) (s : State) (payload : Bytes) : Decidable (s.Done D payload) :=
  match h : readEvent D payload with
  | some event =>
    decidable_of_iff (event.eventId ∈ s.processed.map (·.eventId))
      ⟨fun hid => ⟨event, h, hid⟩, fun ⟨_, he, hid⟩ => Option.some.inj (h.symm.trans he) ▸ hid⟩
  | none => isFalse fun ⟨_, he, _⟩ => by cases h.symm.trans he

/-- Whether what the broker holds was processed can be evaluated. -/
instance (D : Deps) (s : State) : Decidable (∀ p, s.Holds p → s.Done D p.payload) :=
  decidable_of_iff (∀ p ∈ s.session.getD [], s.Done D p.payload)
    ⟨fun h p ⟨queue, hqueue, hmem⟩ => h p (by rw [hqueue]; exact hmem),
      fun h p hp => h p (by
        cases hses : s.session with
        | none => simp [hses] at hp
        | some queue => exact ⟨queue, hses, by simpa [hses] using hp⟩)⟩

instance (D : Deps) (s : State) : DecidablePred (LosesNothing D s)
  | .writer a =>
    inferInstanceAs (Decidable (s.session = none → ∀ p ∈ acceptedBy s.writer a, s.Done D p.payload))
  | .iterate =>
    match h : s.session with
    | some (p :: queue) =>
      decidable_of_iff
        (¬ s.Done D p.payload → ∃ event ∈ readEvent D p.payload, s.loop.isStale event = false)
        ⟨fun hp p' queue' h' => by cases h.symm.trans h'; exact hp, fun hp => hp p queue h⟩
    | some [] => isTrue fun _ _ h' => by cases h.symm.trans h'
    | none => isTrue fun _ _ h' => by cases h.symm.trans h'
  | .disconnect => inferInstanceAs (Decidable (∀ p, s.Holds p → s.Done D p.payload))
  | .crash => inferInstanceAs (Decidable (∀ p, s.Holds p → s.Done D p.payload))
  | .duplicate _ | .connect => isTrue trivial

/-! ### The invariant -/

/-- What every step that loses nothing keeps. -/
structure Inv (D : Deps) (s : State) : Prop where
  writer : Publisher.Inv s.writer
  /-- The ids that the loop remembers are those of processed events. -/
  seen : ∀ id ∈ s.loop.seen, id ∈ s.processed.map (·.eventId)
  covered : ∀ p ∈ s.writer.acknowledged, s.Done D p.payload ∨ s.Holds p

variable {D : Deps} {cfg : Config} {s s' : State}

theorem inv_init (D : Deps) (cfg : Config) : Inv D (init cfg) := by
  refine ⟨Publisher.inv_init _, ?_, ?_⟩
  · simp [init, Loop.start]
  · simp [init, Publisher.init]

theorem State.Done.mono {payload : Bytes} (h : s.Done D payload)
    (hsub : s.processed ⊆ s'.processed) : s'.Done D payload := by
  obtain ⟨event, hread, hid⟩ := h
  obtain ⟨x, hx, heq⟩ := List.mem_map.1 hid
  exact ⟨event, hread, List.mem_map.2 ⟨x, hsub hx, heq⟩⟩

/-- The acknowledged publishes after a step of the writer. -/
theorem acknowledged_step {w w' : Publisher.State} {a : Publisher.Action}
    (h : Publisher.step D cfg.publisher w a = some w') :
    w'.acknowledged = w.acknowledged ++ (acceptedBy w a).toList := by
  cases Publisher.moves_of_step h with
  | puback hout => simp [acceptedBy, hout]
  | _ => simp [acceptedBy]

theorem inv_writer (hs : Inv D s) {a : Publisher.Action} {w : Publisher.State}
    (hw : Publisher.step D cfg.publisher s.writer a = some w)
    (ha : s.session = none → ∀ p ∈ acceptedBy s.writer a, s.Done D p.payload) :
    Inv D (s.withWriter w (acceptedBy s.writer a)) := by
  have hinv := Publisher.inv_step hs.writer hw
  have hack := acknowledged_step hw
  cases hacc : acceptedBy s.writer a with
  | none =>
    simp only [hacc, Option.toList_none, List.append_nil] at hack
    refine ⟨hinv, hs.seen, fun p hp => ?_⟩
    change p ∈ w.acknowledged at hp
    rw [hack] at hp
    exact hs.covered p hp
  | some p =>
    simp only [hacc, Option.toList_some] at hack
    rw [hacc] at ha
    refine ⟨hinv, hs.seen, fun x hx => ?_⟩
    change x ∈ w.acknowledged at hx
    rw [hack] at hx
    rcases List.mem_append.1 hx with hx | hx
    · -- what was queued is still queued
      refine (hs.covered x hx).imp_right ?_
      rintro ⟨queue, hqueue, hmem⟩
      exact ⟨queue ++ [p], by simp [State.withWriter, State.route, hqueue],
        List.mem_append_left _ hmem⟩
    · rw [List.mem_singleton.1 hx]
      cases hses : s.session with
      | none => exact Or.inl (ha hses p rfl)
      | some queue =>
        exact Or.inr ⟨queue ++ [p], by simp [State.withWriter, State.route, hses], by simp⟩

theorem State.processed_handle (s : State) (p : Publish) :
    s.processed ⊆ (s.handle D cfg p).processed := by
  unfold State.handle
  split
  · simp only
    split_ifs
    · exact List.subset_append_left ..
    · exact List.Subset.refl _
  · exact List.Subset.refl _

/-- An event that the loop does not take for stale is processed now, or was before. -/
theorem done_handle (hseen : ∀ id ∈ s.loop.seen, id ∈ s.processed.map (·.eventId)) {p : Publish}
    {event : EventEnvelope} (hread : readEvent D p.payload = some event)
    (hfresh : s.loop.isStale event = false) : (s.handle D cfg p).Done D p.payload := by
  refine ⟨event, hread, ?_⟩
  simp only [State.handle, hread]
  split_ifs with hacc
  · simp
  · simp only [Loop.accepts, hfresh, Bool.not_false, Bool.true_and, decide_eq_true_eq,
      not_not] at hacc
    exact hseen _ (Loop.cleared_subset hacc)

theorem seen_handle (hseen : ∀ id ∈ s.loop.seen, id ∈ s.processed.map (·.eventId)) (p : Publish) :
    ∀ id ∈ (s.handle D cfg p).loop.seen, id ∈ (s.handle D cfg p).processed.map (·.eventId) := by
  unfold State.handle
  split
  · rename_i event hread
    cases hst : s.loop.isStale event with
    | true =>
      simp only [Loop.handle_of_stale hst, Loop.accepts, hst, Bool.not_true, Bool.false_and,
        Bool.false_eq_true, if_false]
      exact hseen
    | false =>
      by_cases hmem : event.eventId ∈ s.loop.cleared cfg.dedupCapacity
      · simp only [Loop.handle_of_seen hst hmem, Loop.accepts, hst, hmem, not_true_eq_false,
          decide_false, Bool.and_false, Bool.false_eq_true, if_false]
        exact fun id hid => hseen id (Loop.cleared_subset hid)
      · have hacc : s.loop.accepts cfg.dedupCapacity event = true :=
          Loop.accepts_iff.2 ⟨hst, hmem⟩
        simp only [Loop.handle_of_accepts hacc, hacc, if_true]
        intro id hid
        rcases Finset.mem_insert.1 hid with rfl | hid
        · simp
        · have hold := hseen id (Loop.cleared_subset hid)
          rw [List.map_append]
          exact List.mem_append_left _ hold
  · exact hseen

theorem inv_iterate (hs : Inv D s) {p : Publish} {queue : List Publish}
    (hses : s.session = some (p :: queue))
    (ha : ¬ s.Done D p.payload →
      ∃ event, readEvent D p.payload = some event ∧ s.loop.isStale event = false) :
    Inv D ({ s with session := some queue }.handle D cfg p) := by
  have hfields : ({ s with session := some queue }.handle D cfg p).writer = s.writer ∧
      ({ s with session := some queue }.handle D cfg p).session = some queue := by
    unfold State.handle
    split <;> exact ⟨rfl, rfl⟩
  have hkeep : s.processed ⊆ ({ s with session := some queue }.handle D cfg p).processed :=
    State.processed_handle { s with session := some queue } p
  refine ⟨by rw [hfields.1]; exact hs.writer, seen_handle (s := { s with session := some queue }) hs.seen p,
    fun x hx => ?_⟩
  rw [hfields.1] at hx
  have hp : ({ s with session := some queue }.handle D cfg p).Done D p.payload := by
    by_cases hdone : s.Done D p.payload
    · exact hdone.mono hkeep
    · obtain ⟨event, hread, hfresh⟩ := ha hdone
      exact done_handle (s := { s with session := some queue }) hs.seen hread hfresh
  rcases hs.covered x hx with hdone | ⟨q, hq, hmem⟩
  · exact Or.inl (hdone.mono hkeep)
  · rw [hses, Option.some.injEq] at hq
    subst hq
    rcases List.mem_cons.1 hmem with rfl | hmem
    · exact Or.inl hp
    · exact Or.inr ⟨queue, hfields.2, hmem⟩

theorem inv_step {a : Action} (hs : Inv D s) (ha : LosesNothing D s a)
    (h : step D cfg s a = some s') : Inv D s' := by
  cases a with
  | writer a =>
    simp only [step, Option.map_eq_some_iff] at h
    obtain ⟨w, hw, rfl⟩ := h
    exact inv_writer hs hw ha
  | duplicate pkid =>
    simp only [step, Option.map_eq_some_iff] at h
    obtain ⟨p, -, rfl⟩ := h
    refine ⟨hs.writer, hs.seen, fun x hx => (hs.covered x hx).imp_right ?_⟩
    rintro ⟨queue, hqueue, hmem⟩
    exact ⟨queue ++ [p], by simp [State.route, hqueue], List.mem_append_left _ hmem⟩
  | connect =>
    simp only [step] at h
    split at h
    · rename_i hses
      cases h
      refine ⟨hs.writer, hs.seen, fun x hx => (hs.covered x hx).imp_right ?_⟩
      rintro ⟨queue, hqueue, -⟩
      simp [hses] at hqueue
    · cases h
  | iterate =>
    simp only [step] at h
    split at h
    · rename_i p queue hses
      cases h
      exact inv_iterate hs hses (ha p queue hses)
    · cases h
  | disconnect =>
    cases h
    refine ⟨hs.writer, hs.seen, fun x hx => Or.inl ?_⟩
    rcases hs.covered x hx with hdone | hheld
    · exact hdone
    · exact ha x hheld
  | crash =>
    cases h
    refine ⟨hs.writer, by simp [Loop.start], fun x hx => Or.inl ?_⟩
    rcases hs.covered x hx with hdone | hheld
    · exact hdone
    · exact ha x hheld

/-- **No published event bypasses the projector**, in every run whose steps take no event away that
was not processed. -/
theorem published_is_covered (D : Deps) (cfg : Config) (as : List Action) (s : State)
    (hmeet : StepsMeet (step D cfg) (LosesNothing D) (init cfg) as)
    (hrun : runFrom (step D cfg) (init cfg) as = some s) : Covered D s := by
  have hinv : Inv D s :=
    invariant_of_stepsMeet (fun _ _ _ hs ha h => inv_step hs ha h) (inv_init D cfg) hmeet hrun
  intro o ho hpub
  obtain ⟨p, hp, hid⟩ := List.mem_map.1 (hinv.writer.published o ho hpub)
  obtain ⟨x, hx, rfl⟩ := hinv.writer.acknowledged p hp
  rw [s.writer.db.outbox.eq_of_id_eq hx ho hid] at hp
  exact hinv.covered _ hp

/-- Crates that read the event of the sample upsert back. -/
def sampleDeps : Deps :=
  .compact
    [(Outbox.persisted 1 (eventOf History.sampleAmbient (History.sampleUpsert "a" 1))).toJson]
    "84840d0ded213b09c5fa24a25f31bb67bf860fee34b32199e9efd90ebd7fe999"

/-- A writer for `main` and a projector without projections. -/
def sampleConfig : Config where
  publisher := .default "main" 500
  registry := ⟨[]⟩
  dedupCapacity := 100000

/-- An upsert is committed, published and marked while the projector is connected, which then
handles the event. -/
theorem published_is_covered_of_an_upsert :
    ∃ s o, runFrom (step sampleDeps sampleConfig) (init sampleConfig)
        (.connect :: Publisher.sampleActions.map .writer ++ [.iterate]) = some s ∧
      o ∈ s.writer.db.outbox.rows ∧ o.publishedAt ≠ none ∧
      (s.Done sampleDeps o.payload ∨ s.Holds (publishOf o.toOutboxRow)) := by
  have hmeet : StepsMeet (step sampleDeps sampleConfig) (LosesNothing sampleDeps)
      (init sampleConfig) (.connect :: Publisher.sampleActions.map .writer ++ [.iterate]) := by
    decide +kernel
  have hrun : (runFrom (step sampleDeps sampleConfig) (init sampleConfig)
      (.connect :: Publisher.sampleActions.map .writer ++ [.iterate])).map
      (fun s => s.writer.db.outbox.rows.any fun o => o.publishedAt ≠ none) = some true := by
    decide +kernel
  obtain ⟨s, hs, hany⟩ := Option.map_eq_some_iff.1 hrun
  obtain ⟨o, ho, hpub⟩ := List.any_eq_true.1 hany
  have hpub' : o.publishedAt ≠ none := by simpa using hpub
  exact ⟨s, o, hs, ho, hpub',
    published_is_covered sampleDeps sampleConfig _ s hmeet hs o ho hpub'⟩

/-- The same upsert is published while the projector is not connected, and the projector connects
afterwards: the row is marked, and the engine never gets the event. -/
theorem published_while_disconnected :
    ∃ s, Reachable (step sampleDeps sampleConfig) (init sampleConfig) s ∧
      s.session = some [] ∧ s.processed = [] ∧ ¬ Covered sampleDeps s := by
  have hrun : (runFrom (step sampleDeps sampleConfig) (init sampleConfig)
      (Publisher.sampleActions.map .writer ++ [.connect])).map
      (fun s => (s.session, s.processed.map (·.eventId),
        s.writer.db.outbox.rows.any fun o => o.publishedAt ≠ none)) = some (some [], [], true) := by
    decide +kernel
  obtain ⟨s, hreach, hs⟩ := exists_reachable hrun
  obtain ⟨hses, hproc, hany⟩ : _ ∧ _ ∧ _ := by simpa only [Prod.mk.injEq] using hs
  obtain ⟨o, ho, hpub⟩ := List.any_eq_true.1 hany
  have hnil : s.processed = [] := List.map_eq_nil_iff.1 hproc
  refine ⟨s, hreach, hses, hnil, fun hcov => ?_⟩
  rcases hcov o ho (by simpa using hpub) with ⟨event, -, hid⟩ | ⟨queue, hqueue, hmem⟩
  · simp [hnil] at hid
  · rw [hses, Option.some.injEq] at hqueue
    simp [← hqueue] at hmem

end Delivery

end Projector

end Ixmati
