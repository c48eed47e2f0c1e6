import Ixmati.Projector.Engine
import Mathlib.Data.Finset.Card

/-!
# The loop of the projector

The loop of `main.rs` on the messages that the MQTT client hands to it.  Before an event gets to the
engine it passes two checks: its version must not be below the latest one that was let through for
its key, and its id must not be in the set of ids seen, which is cleared when it is full.
-/

namespace Ixmati

open Cache (Entries)

namespace Projector

/-- What the version guard tells events apart by. -/
def versionKey (event : EventEnvelope) : String × String × String :=
  (event.store, event.entity, event.key)

/-- The memory of the loop, and the cache. -/
structure Loop where
  cache : Entries
  seen : Finset String
  /-- `latest_versions`. -/
  latest : String × String × String → Option UInt64

namespace Loop

/-- The loop when the process starts. -/
def start (cache : Entries) : Loop where
  cache := cache
  seen := ∅
  latest := fun _ => none

/-- The version guard. -/
def isStale (st : Loop) (event : EventEnvelope) : Bool :=
  match st.latest (versionKey event) with
  | some latest => decide (event.version < latest)
  | none => false

/-- The set of ids that the id of an event is inserted into. -/
def cleared (dedupCapacity : ℕ) (st : Loop) : Finset String :=
  if st.seen.card ≥ dedupCapacity then ∅ else st.seen

/-- Does the event get to the engine? -/
def accepts (dedupCapacity : ℕ) (st : Loop) (event : EventEnvelope) : Bool :=
  !st.isStale event && decide (event.eventId ∉ st.cleared dedupCapacity)

/-- The loop on an event. -/
def handle (D : Deps) (registry : ProjectionRegistry) (dedupCapacity : ℕ) (st : Loop)
    (event : EventEnvelope) : Loop :=
  if st.isStale event then st
  else
    let st := { st with
      latest := Function.update st.latest (versionKey event) (some event.version)
      seen := st.cleared dedupCapacity }
    if event.eventId ∈ st.seen then st
    else
      { st with
        seen := insert event.eventId st.seen
        cache := afterEvent D registry st.cache event }

/-- The loop on a message; one that is no event is ignored. -/
def receive (D : Deps) (registry : ProjectionRegistry) (dedupCapacity : ℕ) (st : Loop)
    (payload : Bytes) : Loop :=
  match readEvent D payload with
  | some event => st.handle D registry dedupCapacity event
  | none => st

variable {D : Deps} {registry : ProjectionRegistry} {cap : ℕ} {st : Loop} {event : EventEnvelope}

theorem accepts_iff :
    st.accepts cap event = true ↔ st.isStale event = false ∧ event.eventId ∉ st.cleared cap := by
  simp [accepts]

theorem handle_of_stale (h : st.isStale event = true) : st.handle D registry cap event = st := by
  simp [handle, h]

theorem handle_of_accepts (h : st.accepts cap event = true) :
    st.handle D registry cap event =
      { cache := afterEvent D registry st.cache event
        seen := insert event.eventId (st.cleared cap)
        latest := Function.update st.latest (versionKey event) (some event.version) } := by
  obtain ⟨hfresh, hnew⟩ := accepts_iff.1 h
  simp [handle, hfresh, hnew]

theorem handle_of_seen (hfresh : st.isStale event = false) (hseen : event.eventId ∈ st.cleared cap) :
    st.handle D registry cap event =
      { st with
        seen := st.cleared cap
        latest := Function.update st.latest (versionKey event) (some event.version) } := by
  simp [handle, hfresh, hseen]

theorem cleared_subset : st.cleared cap ⊆ st.seen := by
  unfold cleared
  split_ifs
  · exact Finset.empty_subset _
  · exact Finset.Subset.refl _

end Loop

end Projector

end Ixmati
