import Ixmati.Core.Envelope
import Mathlib.Data.List.Nodup

/-!
# The outbox

The table `_outbox` of `outbox.rs`.  Its primary key is an `AUTOINCREMENT` id, the durable cursor
of the event stream: ids are handed out from `sqlite_sequence` in increasing order and never
reused, and the last one is `2 ^ 63 - 1`, after which an insert fails.

`Outbox.insert` writes a row twice, first with the serialised event as it was built and then
with the event that carries the id just assigned; `Outbox.rows_insert` says what remains.
-/

namespace Ixmati

/-- Why a SQLite statement of the writer fails by itself. -/
inductive SqlError where
  /-- `no such table`. -/
  | noSuchTable (name : String)
  /-- No `AUTOINCREMENT` id is left. -/
  | full
  deriving DecidableEq

/-- A row of `_outbox`. -/
structure OutboxEntry where
  id : ℕ
  eventId : String
  eventType : String
  store : String
  entity : String
  key : String
  version : Int64
  occurredAt : String
  payload : Bytes
  publishedAt : Option String
  deriving DecidableEq

/-- The largest rowid of SQLite. -/
def maxRowid : ℕ := 2 ^ 63 - 1

/-- The table `_outbox`: rows in id order, and the last id handed out. -/
@[ext] structure Outbox where
  /-- The rows. -/
  rows : List OutboxEntry
  /-- The entry of `sqlite_sequence`. -/
  seq : ℕ
  sorted : rows.Pairwise fun a b => a.id < b.id
  bounded : ∀ r ∈ rows, r.id ≤ seq
  seq_le : seq ≤ maxRowid

/-- What `fetch_unpublished` returns for a row. -/
structure OutboxRow where
  id : ℕ
  eventId : String
  eventType : String
  store : String
  entity : String
  key : String
  version : UInt64
  occurredAt : String
  payload : Bytes

/-- Read a row back. -/
def OutboxEntry.toOutboxRow (r : OutboxEntry) : OutboxRow where
  id := r.id
  eventId := r.eventId
  eventType := r.eventType
  store := r.store
  entity := r.entity
  key := r.key
  version := r.version.toUInt64
  occurredAt := r.occurredAt
  payload := r.payload

namespace Outbox

/-- The table just after `CREATE TABLE`. -/
def empty : Outbox := ⟨[], 0, List.Pairwise.nil, by simp, Nat.zero_le _⟩

/-- Apply `f`, which keeps ids, to every row: the effect of an `UPDATE`. -/
def update (t : Outbox) (f : OutboxEntry → OutboxEntry) (hf : ∀ r, (f r).id = r.id) : Outbox where
  rows := t.rows.map f
  seq := t.seq
  sorted := by
    rw [List.pairwise_map]
    exact t.sorted.imp fun {a b} h => by rwa [hf a, hf b]
  bounded := by
    intro r hr
    obtain ⟨x, hx, rfl⟩ := List.mem_map.1 hr
    rw [hf x]
    exact t.bounded x hx
  seq_le := t.seq_le

/-- Append a row with the next id. -/
def push (t : Outbox) (h : t.seq < maxRowid) (r : OutboxEntry) (hr : r.id = t.seq + 1) :
    Outbox where
  rows := t.rows ++ [r]
  seq := t.seq + 1
  sorted := by
    rw [List.pairwise_append]
    refine ⟨t.sorted, List.pairwise_singleton _ _, fun a ha b hb => ?_⟩
    rw [List.mem_singleton] at hb
    have := t.bounded a ha
    rw [hb, hr]; omega
  bounded := by
    intro x hx
    rcases List.mem_append.1 hx with hx | hx
    · have := t.bounded x hx; omega
    · rw [List.mem_singleton] at hx
      rw [hx]; exact Nat.le_of_eq hr
  seq_le := h

/-- The row that the `INSERT` of `insert` writes, under the id it is given. -/
def entryOf (D : Deps) (id : ℕ) (event : EventEnvelope) : OutboxEntry where
  id := id
  eventId := event.eventId
  eventType := event.eventType
  store := event.store
  entity := event.entity
  key := event.key
  version := event.version.toInt64
  occurredAt := event.occurredAt
  payload := D.toVec event.toJson
  publishedAt := none

/-- The event with its `outbox_seq`. -/
def persisted (id : ℕ) (event : EventEnvelope) : EventEnvelope :=
  { event with outboxSeq := UInt64.ofNat id }

/-- `UPDATE _outbox SET payload = ?1 WHERE id = ?2`. -/
def setPayload (t : Outbox) (id : ℕ) (payload : Bytes) : Outbox :=
  t.update (fun r => if r.id = id then { r with payload := payload } else r)
    fun r => by split_ifs <;> rfl

/-- Insert an event and rewrite its payload with the id it got. -/
def insert (D : Deps) (t : Outbox) (event : EventEnvelope) : Except SqlError (Outbox × ℕ) :=
  if h : t.seq < maxRowid then
    let id := t.seq + 1
    let inserted := t.push h (entryOf D id event) rfl
    .ok (inserted.setPayload id (D.toVec (persisted id event).toJson), id)
  else .error .full

/-- `UPDATE _outbox SET published_at = datetime('now') WHERE id IN (..)`. -/
def markPublishedBatch (now : String) (t : Outbox) (outboxIds : List ℕ) : Outbox :=
  t.update (fun r => if r.id ∈ outboxIds then { r with publishedAt := some now } else r)
    fun r => by split_ifs <;> rfl

/-- `SELECT … WHERE store = ?1 AND published_at IS NULL ORDER BY id ASC LIMIT ?2`. -/
def fetchUnpublished (t : Outbox) (store : String) (limit : ℕ) : List OutboxRow :=
  ((t.rows.filter fun r => decide (r.store = store ∧ r.publishedAt = none)).take limit).map
    OutboxEntry.toOutboxRow

variable {D : Deps} {t t' : Outbox} {event : EventEnvelope}

/-- The row that stays after `insert`. -/
def stored (D : Deps) (id : ℕ) (event : EventEnvelope) : OutboxEntry :=
  { entryOf D id event with payload := D.toVec (persisted id event).toJson }

/-- **What `insert` leaves**: one more row, at the end, whose document carries the row's id; the
other rows are untouched, although the second statement ranges over the whole table. -/
theorem rows_insert {id : ℕ} (h : insert D t event = .ok (t', id)) :
    id = t.seq + 1 ∧ t'.seq = t.seq + 1 ∧ t'.rows = t.rows ++ [stored D (t.seq + 1) event] := by
  unfold insert at h
  split_ifs at h with hs
  simp only [Except.ok.injEq, Prod.mk.injEq] at h
  obtain ⟨rfl, rfl⟩ := h
  refine ⟨rfl, rfl, ?_⟩
  -- no earlier row has the new id
  have hold : t.rows.map (fun r => if r.id = t.seq + 1 then
      { r with payload := D.toVec (persisted (t.seq + 1) event).toJson } else r) = t.rows := by
    conv_rhs => rw [← List.map_id t.rows]
    refine List.map_congr_left fun r hr => ?_
    have := t.bounded r hr
    rw [if_neg (by omega), id]
  simp only [setPayload, update, push, List.map_append, List.map_singleton, hold]
  rw [if_pos (show (entryOf D (t.seq + 1) event).id = t.seq + 1 from rfl)]
  rfl

theorem eq_of_id_eq {r r' : OutboxEntry} (hr : r ∈ t.rows) (hr' : r' ∈ t.rows)
    (hid : r.id = r'.id) : r = r' := by
  have hnd : (t.rows.map (·.id)).Nodup := by
    rw [List.Nodup, List.pairwise_map]
    exact t.sorted.imp fun {a b} hlt => Nat.ne_of_lt hlt
  exact List.inj_on_of_nodup_map hnd hr hr' hid

theorem mem_markPublishedBatch {now : String} {ids : List ℕ} {r : OutboxEntry} :
    r ∈ (markPublishedBatch now t ids).rows ↔
      ∃ x ∈ t.rows, (x.id ∈ ids ∧ r = { x with publishedAt := some now }) ∨ (x.id ∉ ids ∧ r = x) := by
  simp only [markPublishedBatch, update, List.mem_map]
  constructor
  · rintro ⟨x, hx, rfl⟩
    refine ⟨x, hx, ?_⟩
    split_ifs with hid
    · exact Or.inl ⟨hid, rfl⟩
    · exact Or.inr ⟨hid, rfl⟩
  · rintro ⟨x, hx, ⟨hid, rfl⟩ | ⟨hid, rfl⟩⟩
    · exact ⟨x, hx, by rw [if_pos hid]⟩
    · exact ⟨r, hx, by rw [if_neg hid]⟩

theorem mem_fetchUnpublished {store : String} {limit : ℕ} {row : OutboxRow}
    (h : row ∈ t.fetchUnpublished store limit) :
    ∃ o ∈ t.rows, o.publishedAt = none ∧ o.toOutboxRow = row := by
  obtain ⟨o, ho, rfl⟩ := List.mem_map.1 h
  obtain ⟨hmem, hun⟩ := List.mem_filter.1 (List.mem_of_mem_take ho)
  exact ⟨o, hmem, (of_decide_eq_true hun).2, rfl⟩

/-- An unpublished row is fetched if fewer than `limit` unpublished rows of its store come before. -/
theorem mem_fetchUnpublished_of_lt {o : OutboxEntry} (ho : o ∈ t.rows) (hun : o.publishedAt = none)
    {limit : ℕ} (hlt : (t.rows.filter fun x =>
      decide (x.store = o.store ∧ x.publishedAt = none ∧ x.id < o.id)).length < limit) :
    o.toOutboxRow ∈ t.fetchUnpublished o.store limit := by
  have hmem : o ∈ t.rows.filter fun x => decide (x.store = o.store ∧ x.publishedAt = none) := by
    simp [ho, hun]
  obtain ⟨front, back, hsplit⟩ := List.append_of_mem hmem
  have hsorted : (front ++ o :: back).Pairwise fun a b => a.id < b.id := by
    rw [← hsplit]
    exact t.sorted.filter _
  -- the rows in front of it have smaller ids
  have hfilter : front.filter (fun x => decide (x.id < o.id)) = front := by
    rw [List.filter_eq_self]
    intro x hx
    have := (List.pairwise_append.1 hsorted).2.2 x hx o (List.mem_cons_self ..)
    simpa using this
  have hpred : (fun x : OutboxEntry => decide (x.id < o.id) &&
        decide (x.store = o.store ∧ x.publishedAt = none)) =
      fun x => decide (x.store = o.store ∧ x.publishedAt = none ∧ x.id < o.id) := by
    funext x
    simp only [Bool.decide_and]
    cases decide (x.id < o.id) <;> simp
  have hsub := (List.sublist_append_left front (o :: back)).filter fun x => decide (x.id < o.id)
  rw [hfilter, ← hsplit, List.filter_filter, hpred] at hsub
  have hfront := hsub.length_le
  rw [fetchUnpublished, hsplit, List.take_append]
  refine List.mem_map.2 ⟨o, List.mem_append_right _ ?_, rfl⟩
  obtain ⟨k, hk⟩ : ∃ k, limit - front.length = k + 1 := ⟨limit - front.length - 1, by omega⟩
  rw [hk, List.take_succ_cons]
  exact List.mem_cons_self ..

end Outbox

end Ixmati
