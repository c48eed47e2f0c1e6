import Ixmati.Lib.Potential
import Ixmati.Writer.PublishOnce

/-!
# The tracker under any sequence of calls

The publisher thread asks `contains_row` before it calls `queue`, and calls `remove_queued` only for the
row it has just queued.  The thread of the connection calls `on_outgoing_publish` and `on_puback` with
whatever packet ids it sees: sent again, zero, unknown.

* `Consistent` : the four collections agree on which rows are tracked;
* `tracker_calls_consistent` : they do after every sequence of calls, no row is acknowledged more often
  than it was queued, and between two times it is queued it is acknowledged at most once and counted
  as late at most once;
* `Publisher.tracker_consistent` : the steps of the publisher are such calls.
-/

namespace Ixmati

namespace PublishTracker

/-- The calls of the two threads. -/
inductive Call
  | queue (now rowId : ℕ)
  | removeQueued (rowId : ℕ)
  | onOutgoingPublish (packetId : UInt16)
  | onPuback (packetId : UInt16)
  | countNewTimeouts (now timeout : ℕ)
deriving DecidableEq

/-- A call: `queue` only if the row is not tracked, `remove_queued` only if it is queued. -/
def call (t : PublishTracker) : Call → Option PublishTracker
  | .queue now rowId => if t.containsRow rowId then none else some (t.queue now rowId)
  | .removeQueued rowId => if rowId ∈ t.queued then some (t.removeQueued rowId) else none
  | .onOutgoingPublish packetId => some (t.onOutgoingPublish packetId)
  | .onPuback packetId => some (t.onPuback packetId).2
  | .countNewTimeouts now timeout => some (t.countNewTimeouts now timeout).2

/-- The rows that `count_new_timeouts` counts. -/
def newTimeouts (t : PublishTracker) (now timeout : ℕ) : List ℕ :=
  (t.pendingSince.rows.filter fun p =>
    decide (timeout ≤ now - p.2) && !decide (p.1 ∈ t.timeoutReported)).map Prod.fst

/-- The row that a call returns as acknowledged. -/
def acknowledges (t : PublishTracker) : Call → List ℕ
  | .onPuback packetId => (t.onPuback packetId).1.toList
  | _ => []

/-- The rows that a call counts. -/
def counts (t : PublishTracker) : Call → List ℕ
  | .countNewTimeouts now timeout => t.newTimeouts now timeout
  | _ => []

/-- The number that `count_new_timeouts` returns. -/
def returns (t : PublishTracker) : Call → List ℕ
  | .countNewTimeouts now timeout => [(t.countNewTimeouts now timeout).1]
  | _ => []

/-- Does the call queue the row? -/
def Call.queues (rowId : ℕ) : Call → Bool
  | .queue _ id => id == rowId
  | _ => false

/-- The collections agree on which rows are tracked, and each of those is in one place. -/
structure Consistent (t : PublishTracker) : Prop where
  rows : t.rows.Nodup
  pending : ∀ id, id ∈ t.pendingSince.keys ↔ id ∈ t.queued ∨ id ∈ t.inflight.values
  reported : ∀ id ∈ t.timeoutReported, id ∈ t.queued ∨ id ∈ t.inflight.values
  reportedOnce : t.timeoutReported.Nodup

variable {t t' : PublishTracker} {rowId id now timeout : ℕ} {packetId : UInt16} {c : Call}

theorem countNewTimeouts_eq : t.countNewTimeouts now timeout =
    ((t.newTimeouts now timeout).length,
      { t with timeoutReported := t.timeoutReported ++ t.newTimeouts now timeout }) := by
  rw [newTimeouts, List.length_map]
  rfl

theorem mem_rows : id ∈ t.rows ↔ id ∈ t.queued ∨ id ∈ t.inflight.values := List.mem_append

theorem nodup_newTimeouts : (t.newTimeouts now timeout).Nodup :=
  (List.filter_sublist.map Prod.fst).nodup t.pendingSince.nodup

theorem mem_newTimeouts (h : id ∈ t.newTimeouts now timeout) :
    id ∈ t.pendingSince.keys ∧ id ∉ t.timeoutReported := by
  obtain ⟨p, hp, rfl⟩ := List.mem_map.1 h
  obtain ⟨hmem, hlate⟩ := List.mem_filter.1 hp
  rw [Bool.and_eq_true, Bool.not_eq_true', decide_eq_false_iff_not] at hlate
  exact ⟨List.mem_map_of_mem hmem, hlate.2⟩

/-! ### The collections agree -/

theorem consistent_empty : Consistent empty := by
  refine ⟨List.nodup_nil, fun id => ?_, fun id hid => ?_, List.nodup_nil⟩
  · exact iff_of_false (fun h => nomatch h) (by rintro (h | h) <;> cases h)
  · cases hid

/-- Forget a row of the two books. -/
theorem Consistent.forget (h : Consistent t) (hrows : (rowId :: t'.rows).Perm t.rows)
    (hpending : t'.pendingSince = t.pendingSince.remove rowId)
    (hreported : t'.timeoutReported = t.timeoutReported.filter fun id => id ≠ rowId) :
    Consistent t' := by
  have hnodup : (rowId :: t'.rows).Nodup := hrows.nodup_iff.2 h.rows
  -- the row was in one place, so it is now in none
  have hmem : ∀ id, id ∈ t'.rows ↔ id ∈ t.rows ∧ id ≠ rowId := by
    intro id
    rw [← hrows.mem_iff, List.mem_cons]
    constructor
    · intro hid
      refine ⟨Or.inr hid, ?_⟩
      rintro rfl
      exact (List.nodup_cons.1 hnodup).1 hid
    · rintro ⟨rfl | hid, hne⟩
      · exact absurd rfl hne
      · exact hid
  refine ⟨(List.nodup_cons.1 hnodup).2, fun id => ?_, fun id hid => ?_, ?_⟩
  · rw [hpending, Dict.mem_keys_remove, h.pending, ← mem_rows, ← mem_rows, hmem]
  · rw [hreported, List.mem_filter, decide_eq_true_eq] at hid
    rw [← mem_rows, hmem, mem_rows]
    exact ⟨h.reported id hid.1, hid.2⟩
  · rw [hreported]
    exact h.reportedOnce.filter _

theorem consistent_queue (h : Consistent t) (hnew : t.containsRow rowId = false) :
    Consistent (t.queue now rowId) := by
  have hrow : rowId ∉ t.rows := by
    rw [← containsRow_iff, hnew]
    exact Bool.false_ne_true
  have hmem : ∀ id, id ∈ (t.queue now rowId).rows ↔ id = rowId ∨ id ∈ t.rows := fun id => by
    rw [perm_rows_queue.mem_iff, List.mem_cons]
  refine ⟨perm_rows_queue.nodup_iff.2 (List.nodup_cons.2 ⟨hrow, h.rows⟩), fun id => ?_,
    fun id hid => ?_, h.reportedOnce.filter _⟩
  · rw [← mem_rows, hmem, mem_rows, ← h.pending]
    exact Dict.mem_keys_insert
  · rw [← mem_rows, hmem]
    exact Or.inr (mem_rows.2 (h.reported id (List.mem_filter.1 hid).1))

theorem perm_rows_removeQueued (h : t.rows.Nodup) (hid : rowId ∈ t.queued) :
    (rowId :: (t.removeQueued rowId).rows).Perm t.rows := by
  have hfilter : t.queued.filter (fun id => decide (id ≠ rowId)) = t.queued.erase rowId := by
    rw [(h.sublist (List.sublist_append_left _ _)).erase_eq_filter]
    refine List.filter_congr fun id _ => ?_
    rw [Bool.eq_iff_iff, decide_eq_true_eq, bne_iff_ne]
  show (rowId :: (t.queued.filter (fun id => decide (id ≠ rowId)) ++ t.inflight.values)).Perm _
  rw [hfilter, ← List.cons_append]
  exact (List.perm_cons_erase hid).symm.append_right _

/-- A row that gets its packet id stays in the books as it is. -/
theorem books_onOutgoingPublish (t : PublishTracker) (packetId : UInt16) :
    (t.onOutgoingPublish packetId).pendingSince = t.pendingSince ∧
      (t.onOutgoingPublish packetId).timeoutReported = t.timeoutReported := by
  unfold onOutgoingPublish
  split_ifs
  · exact ⟨rfl, rfl⟩
  · split <;> exact ⟨rfl, rfl⟩

theorem consistent_onOutgoingPublish (h : Consistent t) :
    Consistent (t.onOutgoingPublish packetId) := by
  have hperm : (t.onOutgoingPublish packetId).rows.Perm t.rows := perm_rows_onOutgoingPublish
  obtain ⟨hpending, hreported⟩ := books_onOutgoingPublish t packetId
  refine ⟨hperm.nodup_iff.2 h.rows, fun id => ?_, fun id hid => ?_, ?_⟩
  · rw [hpending, h.pending, ← mem_rows, ← mem_rows, hperm.mem_iff]
  · rw [hreported] at hid
    rw [← mem_rows, hperm.mem_iff, mem_rows]
    exact h.reported id hid
  · rw [hreported]
    exact h.reportedOnce

theorem consistent_onPuback (h : Consistent t) : Consistent (t.onPuback packetId).2 := by
  have hperm := perm_rows_onPuback t packetId
  cases hget : t.inflight.get packetId with
  | none =>
    have hsame : t.onPuback packetId = (none, t) := by rw [onPuback, hget]
    rwa [hsame]
  | some rowId =>
    rw [onPuback, hget] at hperm ⊢
    exact h.forget hperm rfl rfl

theorem consistent_countNewTimeouts (h : Consistent t) :
    Consistent (t.countNewTimeouts now timeout).2 := by
  rw [countNewTimeouts_eq]
  refine ⟨h.rows, h.pending, fun id hid => ?_, ?_⟩
  · rcases List.mem_append.1 hid with hid | hid
    · exact h.reported id hid
    · exact (h.pending id).1 (mem_newTimeouts hid).1
  · refine List.nodup_append.2 ⟨h.reportedOnce, nodup_newTimeouts, fun id hid id' hid' heq => ?_⟩
    exact (mem_newTimeouts hid').2 (heq ▸ hid)

theorem consistent_call (h : Consistent t) (hcall : t.call c = some t') : Consistent t' := by
  cases c with
  | queue now rowId =>
    simp only [call] at hcall
    split_ifs at hcall with hnew
    cases hcall
    exact consistent_queue h (by simpa using hnew)
  | removeQueued rowId =>
    simp only [call] at hcall
    split_ifs at hcall with hid
    cases hcall
    exact h.forget (perm_rows_removeQueued h.rows hid) rfl rfl
  | onOutgoingPublish packetId =>
    cases hcall
    exact consistent_onOutgoingPublish h
  | onPuback packetId =>
    cases hcall
    exact consistent_onPuback h
  | countNewTimeouts now timeout =>
    cases hcall
    exact consistent_countNewTimeouts h

/-! ### How often a row is acknowledged and counted -/

/-- The number of calls that queue a row. -/
def timesQueued (id : ℕ) (cs : List Call) : ℕ := (cs.map fun c => if c.queues id then 1 else 0).sum

/-- Where a row comes into the tracker and leaves it. -/
theorem count_acknowledges_call (hcall : t.call c = some t') (id : ℕ) :
    (t.acknowledges c).count id + t'.rows.count id ≤
      t.rows.count id + if c.queues id then 1 else 0 := by
  cases c with
  | queue now rowId =>
    simp only [call] at hcall
    split_ifs at hcall with hnew
    cases hcall
    rw [perm_rows_queue.count_eq, List.count_cons]
    simp [acknowledges, Call.queues]
  | removeQueued rowId =>
    simp only [call] at hcall
    split_ifs at hcall with hid
    cases hcall
    -- a removed row leaves the tracker without being acknowledged
    have hsub : (t.removeQueued rowId).rows.Sublist t.rows := List.filter_sublist.append_right _
    have := hsub.count_le id
    simp only [acknowledges, Call.queues, List.count_nil]
    omega
  | onOutgoingPublish packetId =>
    cases hcall
    rw [perm_rows_onOutgoingPublish.count_eq]
    simp [acknowledges]
  | onPuback packetId =>
    cases hcall
    have := (perm_rows_onPuback t packetId).count_eq id
    rw [List.count_append] at this
    simp only [acknowledges]
    omega
  | countNewTimeouts now timeout =>
    cases hcall
    simp [acknowledges, countNewTimeouts_eq, rows]

/-- A row that can be counted: it is pending and was not counted. -/
def Countable (t : PublishTracker) (id : ℕ) : Prop :=
  id ∈ t.pendingSince.keys ∧ id ∉ t.timeoutReported

instance : Decidable (Countable t id) := inferInstanceAs (Decidable (_ ∧ _))

theorem Countable.of_forget (hpending : t'.pendingSince = t.pendingSince.remove rowId)
    (hreported : t'.timeoutReported = t.timeoutReported.filter fun id => id ≠ rowId)
    (h : Countable t' id) : Countable t id := by
  obtain ⟨hkey, hnot⟩ := h
  rw [hpending, Dict.mem_keys_remove] at hkey
  refine ⟨hkey.1, fun hid => hnot ?_⟩
  rw [hreported, List.mem_filter, decide_eq_true_eq]
  exact ⟨hid, hkey.2⟩

/-- A row becomes countable only by a call that queues it. -/
theorem countable_call (hcall : t.call c = some t') (h : Countable t' id) :
    Countable t id ∨ c.queues id = true := by
  cases c with
  | queue now rowId =>
    simp only [call] at hcall
    split_ifs at hcall with hnew
    cases hcall
    by_cases hid : id = rowId
    · exact Or.inr (by simp [Call.queues, hid])
    · obtain ⟨hkey, hnot⟩ := h
      refine Or.inl ⟨(Dict.mem_keys_insert.1 hkey).resolve_left hid, fun hmem => hnot ?_⟩
      exact List.mem_filter.2 ⟨hmem, decide_eq_true hid⟩
  | removeQueued rowId =>
    simp only [call] at hcall
    split_ifs at hcall
    cases hcall
    exact Or.inl (h.of_forget rfl rfl)
  | onOutgoingPublish packetId =>
    cases hcall
    obtain ⟨hpending, hreported⟩ := books_onOutgoingPublish t packetId
    rw [Countable, hpending, hreported] at h
    exact Or.inl h
  | onPuback packetId =>
    cases hcall
    rw [onPuback] at h
    cases hget : t.inflight.get packetId with
    | none =>
      rw [hget] at h
      exact Or.inl h
    | some rowId =>
      rw [hget] at h
      exact Or.inl (h.of_forget rfl rfl)
  | countNewTimeouts now timeout =>
    cases hcall
    rw [countNewTimeouts_eq] at h
    exact Or.inl ⟨h.1, fun hid => h.2 (List.mem_append_left _ hid)⟩

/-- A counted row is not countable until it is queued again. -/
theorem count_counts_call (hcall : t.call c = some t') (id : ℕ) :
    (t.counts c).count id + (if Countable t' id then 1 else 0) ≤
      (if Countable t id then 1 else 0) + if c.queues id then 1 else 0 := by
  by_cases hcounted : id ∈ t.counts c
  · cases c with
    | countNewTimeouts now timeout =>
      cases hcall
      -- it is counted once now, and is among the reported ones afterwards
      have hafter : ¬ Countable (t.countNewTimeouts now timeout).2 id := by
        rw [countNewTimeouts_eq]
        exact fun h => h.2 (List.mem_append_right _ hcounted)
      rw [if_neg hafter, if_pos (show Countable t id from mem_newTimeouts hcounted)]
      have : (t.newTimeouts now timeout).count id ≤ 1 :=
        List.nodup_iff_count_le_one.1 nodup_newTimeouts id
      simp only [counts]
      omega
    | _ => cases hcounted
  · rw [List.count_eq_zero_of_not_mem hcounted, Nat.zero_add]
    by_cases hafter : Countable t' id
    · rw [if_pos hafter]
      rcases countable_call hcall hafter with hbefore | hqueues
      · rw [if_pos hbefore]
        omega
      · rw [if_pos hqueues]
        omega
    · rw [if_neg hafter]
      exact Nat.zero_le _

/-! ### Runs -/

variable {cs : List Call}

theorem count_acknowledged_le (h : runFrom call t cs = some t') (id : ℕ) :
    (outputs call acknowledges t cs).count id ≤ t.rows.count id + timesQueued id cs := by
  refine count_outputs_le (β := ℕ) (f := fun t => t.rows.count id) (fun t c t' hcall => ?_) h
  exact count_acknowledges_call hcall id

theorem count_counted_le (h : runFrom call t cs = some t') (id : ℕ) :
    (outputs call counts t cs).count id ≤
      (if Countable t id then 1 else 0) + timesQueued id cs := by
  refine count_outputs_le (β := ℕ) (f := fun t => if Countable t id then 1 else 0)
    (fun t c t' hcall => ?_) h
  exact count_counts_call hcall id

/-- What `count_new_timeouts` returns in a run is the number of the rows counted. -/
theorem sum_returned (h : runFrom call t cs = some t') :
    (outputs call returns t cs).sum = (outputs call counts t cs).length := by
  induction cs generalizing t with
  | nil => rfl
  | cons c cs ih =>
    obtain ⟨t₁, hcall, hrest⟩ := runFrom_cons.1 h
    have hone : (t.returns c).sum = (t.counts c).length := by
      cases c with
      | countNewTimeouts now timeout => simp [returns, counts, countNewTimeouts_eq]
      | _ => rfl
    rw [outputs_cons hcall, outputs_cons hcall, List.sum_append, List.length_append, hone, ih hrest]

theorem consistent_run (h : Consistent t) (hrun : runFrom call t cs = some t') : Consistent t' :=
  invariant_of_stepsMeet (C := fun _ _ => True) (fun _ _ _ hs _ hcall => consistent_call hs hcall) h
    (stepsMeet_of_forall (fun _ _ => trivial) _ _) hrun

theorem timesQueued_eq_zero (h : ∀ c ∈ cs, c.queues id = false) : timesQueued id cs = 0 := by
  refine List.sum_eq_zero fun n hn => ?_
  obtain ⟨c, hc, rfl⟩ := List.mem_map.1 hn
  simp [h c hc]

/-- **The tracker.**  After every sequence of calls the four collections agree on the tracked rows, each
in one place.  No row is returned by `on_puback`, or counted by `count_new_timeouts`, more often than
it was queued, and in a part of the sequence that does not queue it, it is at most once.  The rows
counted are as many as `count_new_timeouts` returned in all. -/
theorem tracker_calls_consistent (cs : List Call) (t : PublishTracker)
    (hrun : runFrom call empty cs = some t) :
    Consistent t ∧
    (∀ id, (outputs call acknowledges empty cs).count id ≤ timesQueued id cs ∧
      (outputs call counts empty cs).count id ≤ timesQueued id cs) ∧
    (∀ front part back t₁ id, cs = front ++ part ++ back → runFrom call empty front = some t₁ →
      (∀ c ∈ part, c.queues id = false) →
        (outputs call acknowledges t₁ part).count id ≤ 1 ∧ (outputs call counts t₁ part).count id ≤ 1) ∧
    (outputs call returns empty cs).sum = (outputs call counts empty cs).length := by
  refine ⟨consistent_run consistent_empty hrun, fun id => ⟨?_, ?_⟩, ?_, sum_returned hrun⟩
  · exact (count_acknowledged_le hrun id).trans (Nat.zero_add _).le
  · have hnot : ¬ Countable empty id := fun h => nomatch h.1
    have := count_counted_le hrun id
    rwa [if_neg hnot, Nat.zero_add] at this
  · intro front part back t₁ id hcs hfront hpart
    rw [hcs, List.append_assoc] at hrun
    obtain ⟨t₁', hfront', hrest⟩ := runFrom_append.1 hrun
    cases hfront.symm.trans hfront'
    obtain ⟨t₂, hmid, -⟩ := runFrom_append.1 hrest
    -- without a call that queues the row, only what the tracker has of it at the beginning counts
    have hzero := timesQueued_eq_zero hpart
    constructor
    · have hnodup := (consistent_run consistent_empty hfront).rows
      have hone := List.nodup_iff_count_le_one.1 hnodup id
      have := count_acknowledged_le hmid id
      omega
    · have := count_counted_le hmid id
      have hone : (if Countable t₁ id then 1 else 0) ≤ 1 := by split_ifs <;> omega
      omega

/-- Two rows; the packet of the first is sent again, acknowledged twice, and its row comes back. -/
def sampleCalls : List Call :=
  [.queue 0 10, .queue 0 11, .onOutgoingPublish 7, .onOutgoingPublish 7, .onOutgoingPublish 0,
    .countNewTimeouts 9 5, .onPuback 7, .onPuback 7, .removeQueued 11, .queue 10 10,
    .onOutgoingPublish 7, .countNewTimeouts 20 5]

theorem sampleCalls_consistent :
    ∃ t, runFrom call empty sampleCalls = some t ∧ Consistent t ∧
      outputs call counts empty sampleCalls = [10, 11, 10] := by
  have hrun : (runFrom call empty sampleCalls).isSome = true := by decide
  obtain ⟨t, ht⟩ := Option.isSome_iff_exists.1 hrun
  exact ⟨t, ht, (tracker_calls_consistent sampleCalls t ht).1, by decide⟩

end PublishTracker

/-! ### The publisher -/

namespace Publisher

open PublishTracker

variable {D : Deps} {cfg : Config} {s s' : State} {a : Action}

/-- What a step of the publisher does to its tracker: nothing, one call, or a new start. -/
theorem call_of_step (hs : Inv s) (h : step D cfg s a = some s') :
    s'.tracker = s.tracker ∨ s'.tracker = PublishTracker.empty ∨
      ∃ c, s.tracker.call c = some s'.tracker := by
  cases moves_of_step h with
  | queue now hpc hnew => exact Or.inr (Or.inr ⟨.queue now _, if_neg (by simp [hnew])⟩)
  | publishErr hpc =>
    -- the row inside `client.publish` is still in the queue
    have hqueued : ∀ id ∈ s.pc.callingId, id ∈ s.tracker.queued := by
      intro id hid
      rw [hs.queued]
      exact List.mem_append_right _ hid
    have hid := hqueued _ (by rw [hpc]; exact List.mem_singleton_self _)
    exact Or.inr (Or.inr ⟨.removeQueued _, if_pos hid⟩)
  | countTimeouts now => exact Or.inr (Or.inr ⟨.countNewTimeouts now cfg.pubackTimeout, rfl⟩)
  | first | retransmitted => exact Or.inr (Or.inr ⟨.onOutgoingPublish _, rfl⟩)
  | pubAck => exact Or.inr (Or.inr ⟨.onPuback _, rfl⟩)
  | crash => exact Or.inr (Or.inl rfl)
  | _ => exact Or.inl rfl

/-- The tracker of the publisher is consistent in every reachable state. -/
theorem tracker_consistent (h : Reachable (step D cfg) (init cfg.store) s) : s.tracker.Consistent := by
  have hboth : Inv s ∧ s.tracker.Consistent := by
    refine h.invariant (I := fun s => Inv s ∧ s.tracker.Consistent)
      ⟨inv_init cfg.store, consistent_empty⟩ ?_
    rintro s a s' ⟨hs, htracker⟩ hstep
    refine ⟨inv_step hs hstep, ?_⟩
    rcases call_of_step hs hstep with hsame | hempty | ⟨c, hcall⟩
    · rw [hsame]
      exact htracker
    · rw [hempty]
      exact consistent_empty
    · exact consistent_call htracker hcall
  exact hboth.2

end Publisher

end Ixmati
