import Ixmati.Lib.Table

/-!
# Which packet carries which outbox row

`PublishTracker` of `event_publisher.rs`.  MQTT names a publish by a packet id, which the client
library assigns when it sends the packet, after `client.publish` has returned.  The tracker keeps
the rows that were handed over and have no packet id yet in a queue, and the rows of the packets
that were sent and not acknowledged in a map.

Times are ticks of the monotonic clock.
-/

namespace Ixmati

/-- `PublishTracker`. -/
structure PublishTracker where
  /-- Rows without packet id, oldest first. -/
  queued : List ℕ
  /-- Rows by packet id. -/
  inflight : Dict UInt16 ℕ
  /-- When each tracked row was queued. -/
  pendingSince : Dict ℕ ℕ
  /-- Rows whose timeout was counted. -/
  timeoutReported : List ℕ

namespace PublishTracker

/-- `PublishTracker::default()`. -/
def empty : PublishTracker := ⟨[], Table.empty, Table.empty, []⟩

variable (t : PublishTracker)

/-- A row is about to be published. -/
def queue (now : ℕ) (rowId : ℕ) : PublishTracker :=
  { t with
    queued := t.queued ++ [rowId]
    pendingSince := t.pendingSince.insert rowId now
    timeoutReported := t.timeoutReported.filter fun id => id ≠ rowId }

/-- Publishing the row failed. -/
def removeQueued (rowId : ℕ) : PublishTracker :=
  { t with
    queued := t.queued.filter fun id => id ≠ rowId
    pendingSince := t.pendingSince.remove rowId
    timeoutReported := t.timeoutReported.filter fun id => id ≠ rowId }

/-- Is the row queued or in flight? -/
def containsRow (rowId : ℕ) : Bool :=
  t.queued.any (fun id => id == rowId) || t.inflight.rows.any fun p => p.2 == rowId

/-- A publish packet was sent: for the first time if its id is not in flight. -/
def onOutgoingPublish (packetId : UInt16) : PublishTracker :=
  if packetId = 0 ∨ (t.inflight.get packetId).isSome then t
  else
    match t.queued with
    | rowId :: queued => { t with queued := queued, inflight := t.inflight.insert packetId rowId }
    | [] => t

/-- A packet was acknowledged: the row it carried, if it is known. -/
def onPuback (packetId : UInt16) : Option ℕ × PublishTracker :=
  match t.inflight.get packetId with
  | some rowId =>
    (some rowId,
      { t with
        inflight := t.inflight.remove packetId
        pendingSince := t.pendingSince.remove rowId
        timeoutReported := t.timeoutReported.filter fun id => id ≠ rowId })
  | none => (none, t)

/-- Count the rows that have waited for `timeout` and were not counted before. -/
def countNewTimeouts (now timeout : ℕ) : ℕ × PublishTracker :=
  let late := t.pendingSince.rows.filter fun p =>
    decide (timeout ≤ now - p.2) && !decide (p.1 ∈ t.timeoutReported)
  (late.length, { t with timeoutReported := t.timeoutReported ++ late.map Prod.fst })

/-! ### What the operations do to queue and map -/

variable {t} {now rowId : ℕ} {packetId : UInt16}

theorem queued_removeQueued {front : List ℕ} (hq : t.queued = front ++ [rowId])
    (hfront : rowId ∉ front) : (t.removeQueued rowId).queued = front := by
  show t.queued.filter (fun id => id ≠ rowId) = front
  rw [hq, List.filter_append]
  have hkeep : front.filter (fun id => decide (id ≠ rowId)) = front := by
    rw [List.filter_eq_self]
    intro id hid
    have hne : id ≠ rowId := by
      intro h
      exact hfront (h ▸ hid)
    simp [hne]
  rw [hkeep]
  simp

theorem not_mem_queued_of_containsRow (h : t.containsRow rowId = false) : rowId ∉ t.queued := by
  intro hmem
  have : t.containsRow rowId = true := by
    simp only [containsRow, Bool.or_eq_true, List.any_eq_true]
    exact Or.inl ⟨rowId, hmem, by simp⟩
  simp [h] at this

/-- The first packet with an id takes the oldest queued row. -/
theorem onOutgoingPublish_first {queued : List ℕ} (hid : packetId ≠ 0)
    (hfree : t.inflight.get packetId = none) (hq : t.queued = rowId :: queued) :
    t.onOutgoingPublish packetId =
      { t with queued := queued, inflight := t.inflight.insert packetId rowId } := by
  unfold onOutgoingPublish
  rw [if_neg (by simp [hid, hfree]), hq]

/-- A retransmission is ignored. -/
theorem onOutgoingPublish_retransmit (hbusy : t.inflight.get packetId ≠ none) :
    t.onOutgoingPublish packetId = t := by
  unfold onOutgoingPublish
  rw [if_pos (Or.inr (Option.isSome_iff_ne_none.2 hbusy))]

theorem onPuback_fst : (t.onPuback packetId).1 = t.inflight.get packetId := by
  unfold onPuback
  cases t.inflight.get packetId <;> rfl

theorem queued_onPuback : (t.onPuback packetId).2.queued = t.queued := by
  unfold onPuback
  cases t.inflight.get packetId <;> rfl

theorem get_inflight_onPuback :
    (t.onPuback packetId).2.inflight.get = Function.update t.inflight.get packetId none := by
  unfold onPuback
  cases hget : t.inflight.get packetId with
  | none =>
    funext p
    rw [Function.update_apply]
    split_ifs with hp
    · rw [hp]
      exact hget
    · rfl
  | some rowId => exact Dict.get_remove _ _

end PublishTracker

end Ixmati
