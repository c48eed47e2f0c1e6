import Ixmati.Api.Resumption

/-!
# Retention of the event history

`cleanup_old` of `outbox.rs` deletes published rows by age.  A client that comes back with a cursor
from before a deletion is told so by `subscribe_events`, which compares the cursor with the smallest id
that is left of the store (`oldest_available_cursor`).

That check sees a deletion only if a row of the store is left and every row left is beyond what was
deleted (`noSilentGap_iff`): a database without rows of the store accepts every cursor, and so does an
old row that was never published while newer ones were published and deleted.
-/

namespace Ixmati

/-! ### Deleting rows -/

namespace Outbox

/-- The effect of a `DELETE`. -/
def deleteWhere (t : Outbox) (p : OutboxEntry → Bool) : Outbox where
  rows := t.rows.filter fun r => !p r
  seq := t.seq
  sorted := t.sorted.filter _
  bounded r hr := t.bounded r (List.mem_of_mem_filter hr)
  seq_le := t.seq_le

/-- `UPDATE _outbox SET published_at = datetime('now') WHERE id = ?1`. -/
def markPublished (now : String) (t : Outbox) (outboxId : ℕ) : Outbox :=
  t.update (fun r => if r.id = outboxId then { r with publishedAt := some now } else r)
    fun r => by split_ifs <;> rfl

/-- `published_at IS NOT NULL AND published_at < datetime('now', ?1)`; the date is `NULL` when it is
out of SQLite's range. -/
def expired (cutoff : Option String) (r : OutboxEntry) : Bool :=
  match r.publishedAt, cutoff with
  | some publishedAt, some cutoff => decide (publishedAt < cutoff)
  | _, _ => false

/-- `cleanup_old` and the number of rows it deletes. -/
def cleanupOld (cutoff : Option String) (t : Outbox) : Outbox × ℕ :=
  (t.deleteWhere (expired cutoff), (t.rows.filter (expired cutoff)).length)

end Outbox

namespace Retention

open EventStream

/-- An operation on the outbox of a store's database. -/
inductive Op where
  | insert (event : EventEnvelope)
  | markPublished (now : String) (outboxId : ℕ)
  | markPublishedBatch (now : String) (outboxIds : List ℕ)
  /-- `cleanup_old` at a time when the days given lead to this date. -/
  | cleanupOld (cutoff : Option String)

/-- The outbox, and the rows that were ever inserted. -/
structure State where
  outbox : Outbox
  inserted : List OutboxEntry

/-- Perform an operation; an insert that fails changes nothing. -/
def step (D : Deps) (s : State) : Op → State
  | .insert event =>
    match s.outbox.insert D event with
    | .ok (t, id) => ⟨t, s.inserted ++ [Outbox.stored D id event]⟩
    | .error _ => s
  | .markPublished now id => { s with outbox := s.outbox.markPublished now id }
  | .markPublishedBatch now ids => { s with outbox := s.outbox.markPublishedBatch now ids }
  | .cleanupOld cutoff => { s with outbox := (s.outbox.cleanupOld cutoff).1 }

/-- The state after a history. -/
def history (D : Deps) (ops : List Op) : State := ops.foldl (step D) ⟨Outbox.empty, []⟩

/-- An event that was inserted and is not in the table any more. -/
def State.Deleted (s : State) (e : OutboxEntry) : Prop :=
  e ∈ s.inserted ∧ ∀ r ∈ s.outbox.rows, r.id ≠ e.id

/-- A row without its publication date. -/
def core (r : OutboxEntry) : OutboxEntry := { r with publishedAt := none }

/-- The rows that the replay of the store from a cursor goes through. -/
def State.replay (s : State) (store : String) (c : ℕ) : List OutboxEntry :=
  beyond (·.id) c (matching ⟨store, "", "", c⟩ s.outbox.rows)

/-- Whatever cursor of the store `subscribe_events` accepts, no event beyond it is deleted: the replay
has all that were inserted. -/
def State.NoSilentGap (s : State) (store : String) : Prop :=
  ∀ c > 0, oldestAvailableCursor s.outbox.rows store c = none →
    (∀ e, s.Deleted e → e.store = store → ¬ c < e.id) ∧
    (s.replay store c).map core = s.inserted.filter fun e => decide (e.store = store ∧ c < e.id)

variable {D : Deps} {s : State} {rows : List OutboxEntry} {store : String} {c : ℕ}

/-! ### The rows that are left -/

/-- The table holds rows as they were inserted, and the ids were handed out in turn. -/
structure Inv (s : State) : Prop where
  kept : (s.outbox.rows.map core).Sublist s.inserted
  sorted : s.inserted.Pairwise fun a b => a.id < b.id
  bounded : ∀ e ∈ s.inserted, e.id ≤ s.outbox.seq

theorem Inv.of_kept (hs : Inv s) {t : Outbox} (hseq : t.seq = s.outbox.seq)
    (h : (t.rows.map core).Sublist (s.outbox.rows.map core)) : Inv { s with outbox := t } where
  kept := h.trans hs.kept
  sorted := hs.sorted
  bounded e he := hseq ▸ hs.bounded e he

theorem Inv.insert (hs : Inv s) {event : EventEnvelope} {t : Outbox} {id : ℕ}
    (h : s.outbox.insert D event = .ok (t, id)) :
    Inv ⟨t, s.inserted ++ [Outbox.stored D id event]⟩ := by
  obtain ⟨rfl, hseq, hrows⟩ := Outbox.rows_insert h
  refine ⟨?_, ?_, ?_⟩
  · rw [hrows, List.map_append]
    exact hs.kept.append (List.Sublist.refl _)
  · rw [List.pairwise_append]
    refine ⟨hs.sorted, List.pairwise_singleton _ _, fun e he x hx => ?_⟩
    obtain rfl := List.mem_singleton.1 hx
    exact Nat.lt_succ_of_le (hs.bounded e he)
  · intro e he
    rw [show t.seq = s.outbox.seq + 1 from hseq]
    rcases List.mem_append.1 he with he | he
    · exact Nat.le_succ_of_le (hs.bounded e he)
    · obtain rfl := List.mem_singleton.1 he
      exact le_refl _

/-- An update of `published_at` leaves the rows as they were inserted. -/
theorem map_core_update {t : Outbox} {f : OutboxEntry → OutboxEntry} {hf : ∀ r, (f r).id = r.id}
    (h : ∀ r, core (f r) = core r) : (t.update f hf).rows.map core = t.rows.map core := by
  show (t.rows.map f).map core = _
  rw [List.map_map]
  exact List.map_congr_left fun r _ => h r

theorem inv_step (hs : Inv s) (op : Op) : Inv (step D s op) := by
  cases op with
  | insert event =>
    simp only [step]
    split
    · rename_i t id hins
      exact hs.insert hins
    · exact hs
  | markPublished now id =>
    refine hs.of_kept rfl ?_
    show ((Outbox.update ..).rows.map core).Sublist _
    rw [map_core_update fun r => by split_ifs <;> rfl]
  | markPublishedBatch now ids =>
    refine hs.of_kept rfl ?_
    show ((Outbox.update ..).rows.map core).Sublist _
    rw [map_core_update fun r => by split_ifs <;> rfl]
  | cleanupOld cutoff => exact hs.of_kept rfl (List.filter_sublist.map core)

theorem inv_history (D : Deps) (ops : List Op) : Inv (history D ops) := by
  induction ops using List.reverseRecOn with
  | nil => exact ⟨List.Sublist.refl _, List.Pairwise.nil, by simp [history]⟩
  | append_singleton ops op ih =>
    rw [history, List.foldl_append]
    exact inv_step ih op

/-! ### The check -/

/-- A cursor is refused exactly when a row of the store is left and more than one id lies between. -/
theorem oldestAvailableCursor_eq_none :
    oldestAvailableCursor rows store c = none ↔
      (∃ r ∈ rows, r.store = store) → ∃ r ∈ rows, r.store = store ∧ r.id ≤ c + 1 := by
  unfold oldestAvailableCursor
  split
  · rename_i oldest hmin
    obtain ⟨hmem, hle⟩ := List.min?_eq_some_iff.1 hmin
    obtain ⟨x, hx, rfl⟩ := List.mem_map.1 hmem
    obtain ⟨hxr, hxs⟩ := List.mem_filter.1 hx
    constructor
    · intro hif _
      refine ⟨x, hxr, of_decide_eq_true hxs, ?_⟩
      split_ifs at hif with hlt
      omega
    · intro h
      obtain ⟨r, hr, hrs, hrc⟩ := h ⟨x, hxr, of_decide_eq_true hxs⟩
      have := hle r.id (List.mem_map.2 ⟨r, List.mem_filter.2 ⟨hr, decide_eq_true hrs⟩, rfl⟩)
      rw [if_neg (by omega)]
  · rename_i hmin
    rw [List.min?_eq_none_iff, List.map_eq_nil_iff, List.filter_eq_nil_iff] at hmin
    refine iff_of_true rfl ?_
    rintro ⟨r, hr, hrs⟩
    exact absurd (decide_eq_true hrs) (hmin r hr)

/-- When nothing beyond the cursor is deleted, the replay has all that was inserted. -/
theorem Inv.replay_complete (hs : Inv s)
    (h : ∀ e, s.Deleted e → e.store = store → ¬ c < e.id) :
    (s.replay store c).map core = s.inserted.filter fun e => decide (e.store = store ∧ c < e.id) := by
  have hreplay : (s.replay store c).map core =
      (s.outbox.rows.map core).filter fun e => decide (e.store = store ∧ c < e.id) := by
    rw [State.replay, beyond, matching, List.filter_filter, List.filter_map]
    congr 2
    funext r
    rw [Bool.eq_iff_iff]
    simp only [Request.matches, Function.comp_apply, true_or, and_true, Bool.and_eq_true,
      decide_eq_true_eq]
    exact and_comm
  have hnodup : s.inserted.Nodup := hs.sorted.imp fun hlt heq => by
    rw [heq] at hlt
    exact lt_irrefl _ hlt
  rw [hreplay]
  refine (hs.kept.filter _).eq_of_length_le (List.Subperm.length_le ?_)
  refine List.subperm_of_subset (hnodup.filter _) fun e he => ?_
  obtain ⟨hins, hp⟩ := List.mem_filter.1 he
  -- the event is left in the table
  have hleft : ∃ r ∈ s.outbox.rows, r.id = e.id := by
    by_contra hnone
    push Not at hnone
    exact h e ⟨hins, hnone⟩ (of_decide_eq_true hp).1 (of_decide_eq_true hp).2
  obtain ⟨r, hr, hid⟩ := hleft
  have hcore : core r = e := by
    refine List.inj_on_of_nodup_map (f := OutboxEntry.id) ?_
      (hs.kept.subset (List.mem_map_of_mem hr)) hins hid
    rw [List.Nodup, List.pairwise_map]
    exact hs.sorted.imp fun hlt => Nat.ne_of_lt hlt
  exact List.mem_filter.2 ⟨hcore ▸ List.mem_map_of_mem hr, hp⟩

/-- After every history of the outbox, a subscription of the store with a gap is refused if and only if
what was deleted of the store lies in front of a row that is left.  (The event with id `1` does not
count: no positive cursor is before it.) -/
theorem noSilentGap_iff (D : Deps) (ops : List Op) (store : String) :
    (history D ops).NoSilentGap store ↔
      ∀ e, (history D ops).Deleted e → e.store = store → 1 < e.id →
        (∃ r ∈ (history D ops).outbox.rows, r.store = store) ∧
        ∀ r ∈ (history D ops).outbox.rows, r.store = store → e.id < r.id := by
  have hs := inv_history D ops
  generalize history D ops = s at *
  constructor
  · intro h e hdel hstore hid
    by_contra hnot
    -- the cursor just before the event
    have hacc : oldestAvailableCursor s.outbox.rows store (e.id - 1) = none := by
      rw [oldestAvailableCursor_eq_none]
      intro hleft
      by_contra hall
      push Not at hall
      refine hnot ⟨hleft, fun r hr hrs => ?_⟩
      have := hall r hr hrs
      omega
    exact (h (e.id - 1) (by omega) hacc).1 e hdel hstore (by omega)
  · intro h c hc hacc
    have hgap : ∀ e, s.Deleted e → e.store = store → ¬ c < e.id := by
      intro e hdel hstore hlt
      obtain ⟨hleft, hfront⟩ := h e hdel hstore (by omega)
      obtain ⟨r, hr, hrs, hrc⟩ := oldestAvailableCursor_eq_none.1 hacc hleft
      have := hfront r hr hrs
      omega
    exact ⟨hgap, hs.replay_complete hgap⟩

/-- Two events, the second or both of them published and deleted a month later. -/
def cleanedHistory (published : List ℕ) : State :=
  history sampleDeps [.insert (sampleEvent 1), .insert (sampleEvent 2),
    .markPublishedBatch "2026-01-01 00:00:00" published, .cleanupOld (some "2026-02-01 00:00:00")]

/-- The cursor `1` is accepted although the event `2` is gone. -/
theorem deleted_of_cleanedHistory {published : List ℕ} (hmem : published = [1, 2] ∨ published = [2]) :
    oldestAvailableCursor (cleanedHistory published).outbox.rows "main" 1 = none ∧
    (cleanedHistory published).Deleted (Outbox.stored sampleDeps 2 (sampleEvent 2)) := by
  have hacc : oldestAvailableCursor (cleanedHistory published).outbox.rows "main" 1 = none := by
    rcases hmem with rfl | rfl <;> rfl
  have hids : 2 ∉ (cleanedHistory published).outbox.rows.map (·.id) := by
    rcases hmem with rfl | rfl <;> decide
  have hins : (cleanedHistory published).inserted = sampleRows := rfl
  refine ⟨hacc, ?_, fun r hr hid => hids (List.mem_map.2 ⟨r, hr, hid⟩)⟩
  rw [hins]
  simp [sampleRows]

/-- There is a gap both when nothing is left and when the first event, not yet published, is left. -/
theorem silent_gap_after_cleanup :
    ¬ (cleanedHistory [1, 2]).NoSilentGap "main" ∧ ¬ (cleanedHistory [2]).NoSilentGap "main" := by
  constructor
  · obtain ⟨hacc, hdel⟩ := deleted_of_cleanedHistory (Or.inl rfl)
    exact fun h => (h 1 one_pos hacc).1 _ hdel rfl (by decide)
  · obtain ⟨hacc, hdel⟩ := deleted_of_cleanedHistory (Or.inr rfl)
    exact fun h => (h 1 one_pos hacc).1 _ hdel rfl (by decide)

end Retention

end Ixmati
