import Ixmati.Lib.Replica
import Ixmati.Lib.Run
import Ixmati.Writer.History
import Ixmati.Writer.PublishTracker

/-!
# From the outbox to the broker

`EventPublisher` of `event_publisher.rs` as a step system: the publisher thread
(`publish_unpublished` and `drain_pubacks`, one step per call it makes), the thread that reads the
notifications of the MQTT client, the client library itself, the write thread with its batches,
and the database.  A process crash loses all but the database.

What is assumed of the client library is in its steps: it sends the accepted publishes in order
and notifies about them in order (`send`), gives a packet id to a new publish only when the id is
free, which it is from the notification of its acknowledgement on, and retransmits under the id
that the publish has.

* `Inv` ties the tracker to the library: the queue of the tracker lists the rows of the first
  notifications to come and of the requests, and its map is a `Replica` of the library's table.
* `Publisher.published_after_puback` : a row is marked only after its own publish was
  acknowledged, and until then `fetch_unpublished` offers it.
-/

namespace Ixmati

open WriteEngine

namespace Publisher

/-- A publish: its topic and payload, and for the proofs the row it is about. -/
structure Publish where
  rowId : ℕ
  topic : String
  payload : Bytes
  deriving DecidableEq

/-- The publish of an outbox row. -/
def publishOf (row : OutboxRow) : Publish where
  rowId := row.id
  topic := "ixmati/evt/" ++ row.store ++ "/" ++ row.entity ++ "/" ++ row.key
  payload := row.payload

/-- A notification of the client library. -/
inductive Notification where
  /-- `Outgoing::Publish` for the first packet of a publish. -/
  | first (pkid : UInt16) (publish : Publish)
  /-- `Outgoing::Publish` for a later one. -/
  | retransmit (pkid : UInt16)
  /-- `Incoming(PubAck)`. -/
  | pubAck (pkid : UInt16)

/-- What the publisher thread is doing. -/
inductive Pc where
  /-- Sleeping between two calls of `publish_unpublished`. -/
  | idle
  /-- In the loop of `drain_pubacks`, called before the fetch or at the end (`last`). -/
  | draining (last : Bool)
  /-- Waiting for `mark_published_batch`. -/
  | marking (last : Bool) (ids : List ℕ)
  /-- Before `fetch_unpublished`. -/
  | fetching
  /-- In the loop over the fetched rows. -/
  | publishing (rows : List OutboxRow)
  /-- Inside `client.publish` for a row. -/
  | calling (row : OutboxRow) (rows : List OutboxRow)

/-- The configuration of the publisher. -/
structure Config where
  store : String
  limit : ℕ
  /-- `PUBACK_TIMEOUT`, in ticks. -/
  pubackTimeout : ℕ
  /-- `PUBACK_CHANNEL_CAPACITY`. -/
  pubackChannelCapacity : ℕ
  /-- `PENDING_PUBACK_CAPACITY`. -/
  pendingPubackCapacity : ℕ

/-- The configuration in the source, five seconds being five thousand ticks. -/
def Config.default (store : String) (limit : ℕ) : Config where
  store := store
  limit := limit
  pubackTimeout := 5000
  pubackChannelCapacity := 4096
  pendingPubackCapacity := 4096

/-- The state of the process, the client library, the broker and the database. -/
structure State where
  db : Database
  pc : Pc
  /-- `pending_pubacks`. -/
  pending : List ℕ
  tracker : PublishTracker
  /-- The channel from the notification thread to the publisher thread. -/
  pubacks : List ℕ
  /-- The row that the notification thread is about to send on the channel. -/
  sending : Option ℕ
  /-- Publishes that the library has accepted and not sent. -/
  requests : List Publish
  /-- Publishes that the library has sent, by packet id, until they are acknowledged. -/
  outgoing : UInt16 → Option Publish
  /-- Notifications that were made and not read. -/
  notifications : List Notification
  /-- All publishes that the broker has ever acknowledged. -/
  acknowledged : List Publish

/-- The steps of the system. -/
inductive Action where
  /-- The write thread commits a batch. -/
  | commit (amb : ℕ → Ambient) (cmds : List WriteEnvelope)
  /-- `publish_unpublished` is called. -/
  | start
  /-- `try_recv` returns a row. -/
  | recvPuback
  /-- `try_recv` finds the channel empty, and the rows to mark are taken from the set. -/
  | startMark (ids : List ℕ)
  /-- `try_recv` finds the channel empty, and there is nothing to mark. -/
  | skipMark
  /-- `mark_published_batch` succeeds. -/
  | markOk (now : String)
  /-- `mark_published_batch` fails. -/
  | markFail
  /-- `fetch_unpublished`. -/
  | fetch (ok : Bool)
  /-- The next fetched row is queued, or skipped if it is tracked. -/
  | track (now : ℕ)
  /-- `client.publish` returns. -/
  | publishReturns (ok : Bool)
  /-- `count_new_timeouts` after the loop. -/
  | countTimeouts (now : ℕ)
  /-- The notification thread handles the next notification. -/
  | notify
  /-- The notification thread sends an acknowledged row on the channel. -/
  | trySend
  /-- The library sends the next request under a free packet id. -/
  | send (pkid : UInt16)
  /-- The library sends a packet again. -/
  | retransmit (pkid : UInt16)
  /-- The broker acknowledges a packet. -/
  | puback (pkid : UInt16)
  /-- The broker acknowledges a packet that is not in flight. -/
  | strayPuback (pkid : UInt16)
  /-- The process dies and is started again. -/
  | crash

/-- The state of a store that was just made. -/
def init (store : String) : State where
  db := ensureSchema store
  pc := .idle
  pending := []
  tracker := .empty
  pubacks := []
  sending := none
  requests := []
  outgoing := fun _ => none
  notifications := []
  acknowledged := []

/-- What follows `drain_pubacks`. -/
def afterDrain (last : Bool) : Pc := if last then .idle else .fetching

/-- The rows to mark: as many of the set as the limit allows, in any order. -/
def TakesFrom (limit : ℕ) (pending ids : List ℕ) : Prop :=
  ids.Nodup ∧ ids ⊆ pending ∧ ids.length = min (max limit 1) pending.length

instance (limit : ℕ) (pending ids : List ℕ) : Decidable (TakesFrom limit pending ids) :=
  inferInstanceAs (Decidable (_ ∧ _))

/-- The steps of the publisher thread. -/
def publisherStep (cfg : Config) (s : State) : Action → Option State
  | .start =>
    match s.pc with
    | .idle => some { s with pc := .draining false }
    | _ => none
  | .recvPuback =>
    match s.pc, s.pubacks with
    | .draining _, id :: pubacks =>
      if s.pending.length < cfg.pendingPubackCapacity then
        some { s with pubacks := pubacks, pending := s.pending.insert id }
      else some { s with pubacks := pubacks }
    | _, _ => none
  | .startMark ids =>
    match s.pc with
    | .draining last =>
      if s.pubacks = [] ∧ s.pending ≠ [] ∧ TakesFrom cfg.limit s.pending ids then
        some { s with pc := .marking last ids }
      else none
    | _ => none
  | .skipMark =>
    match s.pc with
    | .draining last =>
      if s.pubacks = [] ∧ s.pending = [] then some { s with pc := afterDrain last } else none
    | _ => none
  | .markOk now =>
    match s.pc with
    | .marking last ids =>
      some { s with
        db := { s.db with outbox := s.db.outbox.markPublishedBatch now ids }
        pending := s.pending.filter fun id => id ∉ ids
        pc := afterDrain last }
    | _ => none
  | .markFail =>
    match s.pc with
    | .marking _ _ => some { s with pc := .idle }
    | _ => none
  | .fetch ok =>
    match s.pc with
    | .fetching =>
      let rows := if ok then s.db.outbox.fetchUnpublished cfg.store cfg.limit else []
      some { s with pc := if rows.isEmpty then .idle else .publishing rows }
    | _ => none
  | .track now =>
    match s.pc with
    | .publishing (row :: rows) =>
      if s.tracker.containsRow row.id then some { s with pc := .publishing rows }
      else some { s with tracker := s.tracker.queue now row.id, pc := .calling row rows }
    | _ => none
  | .publishReturns ok =>
    match s.pc with
    | .calling row rows =>
      if ok then some { s with requests := s.requests ++ [publishOf row], pc := .publishing rows }
      else some { s with tracker := s.tracker.removeQueued row.id, pc := .publishing rows }
    | _ => none
  | .countTimeouts now =>
    match s.pc with
    | .publishing [] =>
      some { s with
        tracker := (s.tracker.countNewTimeouts now cfg.pubackTimeout).2
        pc := .draining true }
    | _ => none
  | _ => none

/-- The steps of the notification thread. -/
def eventloopStep (cfg : Config) (s : State) : Action → Option State
  | .notify =>
    match s.sending, s.notifications with
    | none, n :: notifications =>
      let s := { s with notifications := notifications }
      match n with
      | .first pkid _ => some { s with tracker := s.tracker.onOutgoingPublish pkid }
      | .retransmit pkid => some { s with tracker := s.tracker.onOutgoingPublish pkid }
      | .pubAck pkid =>
        let (rowId, tracker) := s.tracker.onPuback pkid
        some { s with tracker := tracker, sending := rowId }
    | _, _ => none
  | .trySend =>
    match s.sending with
    | some id =>
      -- a row that finds the channel full is published again later
      let room := s.pubacks.length < cfg.pubackChannelCapacity
      some { s with sending := none, pubacks := if room then s.pubacks ++ [id] else s.pubacks }
    | none => none
  | _ => none

/-- The steps of the client library and the broker. -/
def networkStep (s : State) : Action → Option State
  | .send pkid =>
    match s.requests with
    | publish :: requests =>
      if pkid ≠ 0 ∧ s.outgoing pkid = none then
        some { s with
          requests := requests
          outgoing := Function.update s.outgoing pkid (some publish)
          notifications := s.notifications ++ [.first pkid publish] }
      else none
    | [] => none
  | .retransmit pkid =>
    match s.outgoing pkid with
    | some _ => some { s with notifications := s.notifications ++ [.retransmit pkid] }
    | none => none
  | .puback pkid =>
    match s.outgoing pkid with
    | some publish =>
      some { s with
        outgoing := Function.update s.outgoing pkid none
        notifications := s.notifications ++ [.pubAck pkid]
        acknowledged := s.acknowledged ++ [publish] }
    | none => none
  | .strayPuback pkid =>
    match s.outgoing pkid with
    | some _ => none
    | none => some { s with notifications := s.notifications ++ [.pubAck pkid] }
  | _ => none

/-- One step. -/
def step (D : Deps) (cfg : Config) (s : State) (a : Action) : Option State :=
  match a with
  | .commit amb cmds =>
    match processBatch D amb s.db cmds with
    | .ok (db, _) => some { s with db := db }
    | .error _ => some s
  | .crash => some { init cfg.store with db := s.db, acknowledged := s.acknowledged }
  | .notify | .trySend => eventloopStep cfg s a
  | .send _ | .retransmit _ | .puback _ | .strayPuback _ => networkStep s a
  | _ => publisherStep cfg s a

/-- What a step can do, by cases. -/
inductive Moves (D : Deps) (cfg : Config) (s : State) : Action → State → Prop where
  | commit {amb : ℕ → Ambient} {cmds : List WriteEnvelope} {db : Database} {result : BatchResult}
      (hok : processBatch D amb s.db cmds = .ok (db, result)) :
    Moves D cfg s (.commit amb cmds) { s with db := db }
  | abort {amb : ℕ → Ambient} {cmds : List WriteEnvelope} {e : SqlError}
      (herr : processBatch D amb s.db cmds = .error e) :
    Moves D cfg s (.commit amb cmds) s
  | start (hpc : s.pc = .idle) : Moves D cfg s .start { s with pc := .draining false }
  | recvPuback {last : Bool} {id : ℕ} {pubacks : List ℕ} (hpc : s.pc = .draining last)
      (hch : s.pubacks = id :: pubacks) (hroom : s.pending.length < cfg.pendingPubackCapacity) :
    Moves D cfg s .recvPuback { s with pubacks := pubacks, pending := s.pending.insert id }
  | losePuback {last : Bool} {id : ℕ} {pubacks : List ℕ} (hpc : s.pc = .draining last)
      (hch : s.pubacks = id :: pubacks) (hfull : ¬ s.pending.length < cfg.pendingPubackCapacity) :
    Moves D cfg s .recvPuback { s with pubacks := pubacks }
  | startMark {last : Bool} {ids : List ℕ} (hpc : s.pc = .draining last) (hch : s.pubacks = [])
      (hpending : s.pending ≠ []) (hids : TakesFrom cfg.limit s.pending ids) :
    Moves D cfg s (.startMark ids) { s with pc := .marking last ids }
  | skipMark {last : Bool} (hpc : s.pc = .draining last) (hch : s.pubacks = [])
      (hpending : s.pending = []) :
    Moves D cfg s .skipMark { s with pc := afterDrain last }
  | markOk {last : Bool} {ids : List ℕ} (now : String) (hpc : s.pc = .marking last ids) :
    Moves D cfg s (.markOk now)
      { s with
        db := { s.db with outbox := s.db.outbox.markPublishedBatch now ids }
        pending := s.pending.filter fun id => id ∉ ids
        pc := afterDrain last }
  | markFail {last : Bool} {ids : List ℕ} (hpc : s.pc = .marking last ids) :
    Moves D cfg s .markFail { s with pc := .idle }
  | fetch {rows : List OutboxRow} (ok : Bool) (hpc : s.pc = .fetching)
      (hrows : rows = if ok then s.db.outbox.fetchUnpublished cfg.store cfg.limit else []) :
    Moves D cfg s (.fetch ok) { s with pc := if rows.isEmpty then .idle else .publishing rows }
  | skip {row : OutboxRow} {rows : List OutboxRow} (now : ℕ) (hpc : s.pc = .publishing (row :: rows))
      (htracked : s.tracker.containsRow row.id = true) :
    Moves D cfg s (.track now) { s with pc := .publishing rows }
  | queue {row : OutboxRow} {rows : List OutboxRow} (now : ℕ) (hpc : s.pc = .publishing (row :: rows))
      (hnew : s.tracker.containsRow row.id = false) :
    Moves D cfg s (.track now)
      { s with tracker := s.tracker.queue now row.id, pc := .calling row rows }
  | publishOk {row : OutboxRow} {rows : List OutboxRow} (hpc : s.pc = .calling row rows) :
    Moves D cfg s (.publishReturns true)
      { s with requests := s.requests ++ [publishOf row], pc := .publishing rows }
  | publishErr {row : OutboxRow} {rows : List OutboxRow} (hpc : s.pc = .calling row rows) :
    Moves D cfg s (.publishReturns false)
      { s with tracker := s.tracker.removeQueued row.id, pc := .publishing rows }
  | countTimeouts (now : ℕ) (hpc : s.pc = .publishing []) :
    Moves D cfg s (.countTimeouts now)
      { s with
        tracker := (s.tracker.countNewTimeouts now cfg.pubackTimeout).2
        pc := .draining true }
  | first {pkid : UInt16} {publish : Publish} {ns : List Notification} (hsend : s.sending = none)
      (hns : s.notifications = .first pkid publish :: ns) :
    Moves D cfg s .notify
      { s with notifications := ns, tracker := s.tracker.onOutgoingPublish pkid }
  | retransmitted {pkid : UInt16} {ns : List Notification} (hsend : s.sending = none)
      (hns : s.notifications = .retransmit pkid :: ns) :
    Moves D cfg s .notify
      { s with notifications := ns, tracker := s.tracker.onOutgoingPublish pkid }
  | pubAck {pkid : UInt16} {ns : List Notification} (hsend : s.sending = none)
      (hns : s.notifications = .pubAck pkid :: ns) :
    Moves D cfg s .notify
      { s with
        notifications := ns
        tracker := (s.tracker.onPuback pkid).2
        sending := (s.tracker.onPuback pkid).1 }
  | trySend {id : ℕ} (hsend : s.sending = some id)
      (hroom : s.pubacks.length < cfg.pubackChannelCapacity) :
    Moves D cfg s .trySend { s with sending := none, pubacks := s.pubacks ++ [id] }
  | drop {id : ℕ} (hsend : s.sending = some id)
      (hfull : ¬ s.pubacks.length < cfg.pubackChannelCapacity) :
    Moves D cfg s .trySend { s with sending := none }
  | send {pkid : UInt16} {publish : Publish} {requests : List Publish}
      (hreq : s.requests = publish :: requests) (hid : pkid ≠ 0) (hfree : s.outgoing pkid = none) :
    Moves D cfg s (.send pkid)
      { s with
        requests := requests
        outgoing := Function.update s.outgoing pkid (some publish)
        notifications := s.notifications ++ [.first pkid publish] }
  | retransmit {pkid : UInt16} {publish : Publish} (hout : s.outgoing pkid = some publish) :
    Moves D cfg s (.retransmit pkid)
      { s with notifications := s.notifications ++ [.retransmit pkid] }
  | puback {pkid : UInt16} {publish : Publish} (hout : s.outgoing pkid = some publish) :
    Moves D cfg s (.puback pkid)
      { s with
        outgoing := Function.update s.outgoing pkid none
        notifications := s.notifications ++ [.pubAck pkid]
        acknowledged := s.acknowledged ++ [publish] }
  | strayPuback {pkid : UInt16} (hout : s.outgoing pkid = none) :
    Moves D cfg s (.strayPuback pkid)
      { s with notifications := s.notifications ++ [.pubAck pkid] }
  | crash :
    Moves D cfg s .crash { init cfg.store with db := s.db, acknowledged := s.acknowledged }

section Moves

variable {D : Deps} {cfg : Config} {s s' : State} {a : Action}

theorem moves_of_publisherStep (h : publisherStep cfg s a = some s') : Moves D cfg s a s' := by
  cases a with
  | start =>
    simp only [publisherStep] at h
    split at h <;> cases h
    exact .start ‹_›
  | recvPuback =>
    simp only [publisherStep] at h
    split at h
    · rename_i last id pubacks hpc hch
      split_ifs at h with hroom <;> cases h
      · exact .recvPuback hpc hch hroom
      · exact .losePuback hpc hch hroom
    · cases h
  | startMark ids =>
    simp only [publisherStep] at h
    split at h
    · rename_i last hpc
      split_ifs at h with hguard
      cases h
      exact .startMark hpc hguard.1 hguard.2.1 hguard.2.2
    · cases h
  | skipMark =>
    simp only [publisherStep] at h
    split at h
    · rename_i last hpc
      split_ifs at h with hguard
      cases h
      exact .skipMark hpc hguard.1 hguard.2
    · cases h
  | markOk now =>
    simp only [publisherStep] at h
    split at h <;> cases h
    exact .markOk now ‹_›
  | markFail =>
    simp only [publisherStep] at h
    split at h <;> cases h
    exact .markFail ‹_›
  | fetch ok =>
    simp only [publisherStep] at h
    split at h <;> cases h
    exact .fetch ok ‹_› rfl
  | track now =>
    simp only [publisherStep] at h
    split at h
    · rename_i row rows hpc
      split_ifs at h with htracked <;> cases h
      · exact .skip now hpc htracked
      · exact .queue now hpc (by simpa using htracked)
    · cases h
  | publishReturns ok =>
    simp only [publisherStep] at h
    split at h
    · rename_i row rows hpc
      cases ok <;> cases h
      · exact .publishErr hpc
      · exact .publishOk hpc
    · cases h
  | countTimeouts now =>
    simp only [publisherStep] at h
    split at h <;> cases h
    exact .countTimeouts now ‹_›
  | _ => cases h

theorem moves_of_eventloopStep (h : eventloopStep cfg s a = some s') : Moves D cfg s a s' := by
  cases a with
  | notify =>
    simp only [eventloopStep] at h
    split at h
    · rename_i n ns hsend hns
      cases n <;> cases h
      · exact .first hsend hns
      · exact .retransmitted hsend hns
      · exact .pubAck hsend hns
    · cases h
  | trySend =>
    simp only [eventloopStep] at h
    split at h
    · rename_i id hsend
      split_ifs at h with hroom <;> cases h
      · exact .trySend hsend hroom
      · exact .drop hsend hroom
    · cases h
  | _ => cases h

theorem moves_of_networkStep (h : networkStep s a = some s') : Moves D cfg s a s' := by
  cases a with
  | send pkid =>
    simp only [networkStep] at h
    split at h
    · rename_i publish requests hreq
      split_ifs at h with hguard
      cases h
      exact .send hreq hguard.1 hguard.2
    · cases h
  | retransmit pkid =>
    simp only [networkStep] at h
    split at h <;> cases h
    exact .retransmit ‹_›
  | puback pkid =>
    simp only [networkStep] at h
    split at h <;> cases h
    exact .puback ‹_›
  | strayPuback pkid =>
    simp only [networkStep] at h
    split at h <;> cases h
    exact .strayPuback ‹_›
  | _ => cases h

theorem moves_of_step (h : step D cfg s a = some s') : Moves D cfg s a s' := by
  unfold step at h
  split at h
  · split at h <;> cases h
    · exact .commit ‹_›
    · exact .abort ‹_›
  · cases h
    exact .crash
  · exact moves_of_eventloopStep h
  · exact moves_of_eventloopStep h
  · exact moves_of_networkStep h
  · exact moves_of_networkStep h
  · exact moves_of_networkStep h
  · exact moves_of_networkStep h
  · exact moves_of_publisherStep h

/-- Apart from the batches, only the marking of rows changes the database. -/
theorem db_of_step (h : step D cfg s a = some s') (hcommit : ∀ amb cmds, a ≠ .commit amb cmds) :
    s'.db = s.db ∨ ∃ now ids,
      s'.db = { s.db with outbox := s.db.outbox.markPublishedBatch now ids } := by
  cases moves_of_step h with
  | commit => exact absurd rfl (hcommit _ _)
  | abort => exact absurd rfl (hcommit _ _)
  | markOk now => exact Or.inr ⟨now, _, rfl⟩
  | _ => exact Or.inl rfl

end Moves

/-! ### The invariant -/

/-- The row inside `client.publish`. -/
def Pc.callingId : Pc → List ℕ
  | .calling row _ => [row.id]
  | _ => []

/-- The fetched rows that are left. -/
def Pc.rows : Pc → List OutboxRow
  | .publishing rows => rows
  | .calling row rows => row :: rows
  | _ => []

/-- The rows that are being marked. -/
def Pc.ids : Pc → List ℕ
  | .marking _ ids => ids
  | _ => []

/-- The rows whose first packet is notified about, in order. -/
def firsts (ns : List Notification) : List ℕ :=
  ns.filterMap fun
    | .first _ publish => some publish.rowId
    | _ => none

/-- The rows that will be the next to get a packet id in the tracker. -/
def State.upcoming (s : State) : List ℕ := firsts s.notifications ++ s.requests.map (·.rowId)

/-- The rows of the acknowledged publishes. -/
def State.acked (s : State) : List ℕ := s.acknowledged.map (·.rowId)

/-- What a notification tells about the packets in flight. -/
def mirror (inflight : UInt16 → Option ℕ) : Notification → UInt16 → Option ℕ
  | .first pkid publish => Function.update inflight pkid (some publish.rowId)
  | .retransmit _ => inflight
  | .pubAck pkid => Function.update inflight pkid none

/-- When a notification comes. -/
def Expects (acked : List ℕ) (inflight : UInt16 → Option ℕ) : Notification → Prop
  | .first pkid _ => pkid ≠ 0 ∧ inflight pkid = none
  | .retransmit pkid => inflight pkid ≠ none
  | .pubAck pkid => ∀ id, inflight pkid = some id → id ∈ acked

/-- The publish is the one of an outbox row. -/
def FromOutbox (db : Database) (p : Publish) : Prop :=
  ∃ o ∈ db.outbox.rows, publishOf o.toOutboxRow = p

/-- What every step keeps. -/
structure Inv (s : State) : Prop where
  /-- The queue of the tracker is in step with the library. -/
  queued : s.tracker.queued = s.upcoming ++ s.pc.callingId
  /-- The row inside `client.publish` is in the queue once. -/
  fresh : ∀ id ∈ s.pc.callingId, id ∉ s.upcoming
  /-- The map of the tracker lags behind the library by the unread notifications. -/
  mirrored : Replica mirror (Expects s.acked) s.tracker.inflight.get s.notifications
    fun pkid => (s.outgoing pkid).map (·.rowId)
  requests : ∀ p ∈ s.requests, FromOutbox s.db p
  outgoing : ∀ pkid p, s.outgoing pkid = some p → FromOutbox s.db p
  acknowledged : ∀ p ∈ s.acknowledged, FromOutbox s.db p
  rows : ∀ row ∈ s.pc.rows, FromOutbox s.db (publishOf row)
  /-- What is on its way to be marked was acknowledged. -/
  confirmed : ∀ id ∈ s.sending.toList ++ s.pubacks ++ s.pending ++ s.pc.ids, id ∈ s.acked
  published : ∀ o ∈ s.db.outbox.rows, o.publishedAt ≠ none → o.id ∈ s.acked

variable {D : Deps} {cfg : Config} {s s' : State}

theorem firsts_append (ns : List Notification) (n : Notification) :
    firsts (ns ++ [n]) = firsts ns ++ firsts [n] := by
  simp [firsts]

theorem inv_init (store : String) : Inv (init store) := by
  refine ⟨rfl, ?_, ?_, ?_, ?_, ?_, ?_, ?_, ?_⟩
  · simp [init, Pc.callingId]
  · exact Replica.refl _
  · simp [init]
  · simp [init]
  · simp [init]
  · simp [init, Pc.rows]
  · simp [init, Pc.ids]
  · simp [init, ensureSchema, Outbox.empty]

/-- A step of the publisher thread outside of `client.publish` that gets no new rows and nothing new
to mark. -/
theorem Inv.with_pc (hs : Inv s) (pc : Pc) (hcall : s.pc.callingId = []) (hcall' : pc.callingId = [])
    (hrows : ∀ row ∈ pc.rows, FromOutbox s.db (publishOf row)) (hids : ∀ id ∈ pc.ids, id ∈ s.acked) :
    Inv { s with pc := pc } := by
  refine ⟨?_, ?_, hs.mirrored, hs.requests, hs.outgoing, hs.acknowledged, hrows, ?_, hs.published⟩
  · show s.tracker.queued = s.upcoming ++ pc.callingId
    rw [hcall', ← hcall]
    exact hs.queued
  · show ∀ id ∈ pc.callingId, id ∉ s.upcoming
    simp [hcall']
  · intro id hid
    rcases List.mem_append.1 hid with hid | hid
    · exact hs.confirmed id (List.mem_append_left _ hid)
    · exact hids id hid

theorem Pc.rows_afterDrain (last : Bool) : (afterDrain last).rows = [] := by
  cases last <;> rfl

theorem Pc.ids_afterDrain (last : Bool) : (afterDrain last).ids = [] := by
  cases last <;> rfl

theorem Pc.callingId_afterDrain (last : Bool) : (afterDrain last).callingId = [] := by
  cases last <;> rfl

/-! ### The write thread -/

/-- The publishes of the outbox stay when rows are added or marked. -/
theorem Inv.with_db (hs : Inv s) {db : Database}
    (hkeep : ∀ o ∈ s.db.outbox.rows, ∃ o' ∈ db.outbox.rows, o'.toOutboxRow = o.toOutboxRow)
    (hpub : ∀ o ∈ db.outbox.rows, o.publishedAt ≠ none → o.id ∈ s.acked) :
    Inv { s with db := db } := by
  have hfrom : ∀ p, FromOutbox s.db p → FromOutbox db p := by
    rintro p ⟨o, ho, rfl⟩
    obtain ⟨o', ho', heq⟩ := hkeep o ho
    exact ⟨o', ho', by rw [heq]⟩
  exact ⟨hs.queued, hs.fresh, hs.mirrored, fun p hp => hfrom p (hs.requests p hp),
    fun pkid p hp => hfrom p (hs.outgoing pkid p hp), fun p hp => hfrom p (hs.acknowledged p hp),
    fun row hrow => hfrom _ (hs.rows row hrow), hs.confirmed, hpub⟩

theorem inv_commit (hs : Inv s) {amb : ℕ → Ambient} {cmds : List WriteEnvelope} {db : Database}
    {result : BatchResult} (hok : processBatch D amb s.db cmds = .ok (db, result)) :
    Inv { s with db := db } := by
  obtain ⟨new, hrows, hnew⟩ := History.processBatch_outbox hok
  refine hs.with_db (fun o ho => ⟨o, ?_, rfl⟩) fun o ho hpub => ?_
  · rw [hrows]
    exact List.mem_append_left _ ho
  · rw [hrows] at ho
    rcases List.mem_append.1 ho with ho | ho
    · exact hs.published o ho hpub
    · exact absurd (hnew o ho) hpub

theorem inv_markOk (hs : Inv s) {last : Bool} {ids : List ℕ} (hpc : s.pc = .marking last ids)
    (now : String) :
    Inv { s with
      db := { s.db with outbox := s.db.outbox.markPublishedBatch now ids }
      pending := s.pending.filter fun id => id ∉ ids
      pc := afterDrain last } := by
  have hids : ∀ id ∈ ids, id ∈ s.acked := by
    intro id hid
    refine hs.confirmed id (List.mem_append_right _ ?_)
    rw [hpc]
    exact hid
  have hmarked : Inv { s with
      db := { s.db with outbox := s.db.outbox.markPublishedBatch now ids } } := by
    refine hs.with_db (fun o ho => ?_) fun o ho hpub => ?_
    · by_cases hid : o.id ∈ ids
      · exact ⟨{ o with publishedAt := some now },
          Outbox.mem_markPublishedBatch.2 ⟨o, ho, Or.inl ⟨hid, rfl⟩⟩, rfl⟩
      · exact ⟨o, Outbox.mem_markPublishedBatch.2 ⟨o, ho, Or.inr ⟨hid, rfl⟩⟩, rfl⟩
    · obtain ⟨x, hx, ⟨hid, rfl⟩ | ⟨hid, rfl⟩⟩ := Outbox.mem_markPublishedBatch.1 ho
      · exact hids _ hid
      · exact hs.published o hx hpub
  have hdrained := hmarked.with_pc (afterDrain last) (by simp [hpc, Pc.callingId])
    (Pc.callingId_afterDrain last) (by simp [Pc.rows_afterDrain]) (by simp [Pc.ids_afterDrain])
  refine ⟨hdrained.queued, hdrained.fresh, hdrained.mirrored, hdrained.requests, hdrained.outgoing,
    hdrained.acknowledged, hdrained.rows, fun id hid => hdrained.confirmed id ?_,
    hdrained.published⟩
  simp only [List.mem_append, List.mem_filter] at hid ⊢
  tauto

/-! ### The publisher thread -/

/-- The row is queued when `client.publish` is entered. -/
theorem inv_queue (hs : Inv s) {row : OutboxRow} {rows : List OutboxRow}
    (hpc : s.pc = .publishing (row :: rows)) (hnew : s.tracker.containsRow row.id = false) (now : ℕ) :
    Inv { s with tracker := s.tracker.queue now row.id, pc := .calling row rows } := by
  have hqueue : s.tracker.queued = s.upcoming := by simpa [hpc, Pc.callingId] using hs.queued
  refine ⟨?_, ?_, hs.mirrored, hs.requests, hs.outgoing, hs.acknowledged, ?_, ?_, hs.published⟩
  · show s.tracker.queued ++ [row.id] = s.upcoming ++ [row.id]
    rw [hqueue]
  · intro id hid
    rw [List.mem_singleton.1 hid]
    show row.id ∉ s.upcoming
    rw [← hqueue]
    exact PublishTracker.not_mem_queued_of_containsRow hnew
  · intro r hr
    exact hs.rows r (by rw [hpc]; exact hr)
  · intro id hid
    refine hs.confirmed id ?_
    rw [hpc]
    exact hid

/-- The publish is accepted: its row keeps its place at the end of the queue. -/
theorem inv_publishOk (hs : Inv s) {row : OutboxRow} {rows : List OutboxRow}
    (hpc : s.pc = .calling row rows) :
    Inv { s with requests := s.requests ++ [publishOf row], pc := .publishing rows } := by
  have hrows : ∀ r ∈ row :: rows, FromOutbox s.db (publishOf r) := by
    intro r hr
    exact hs.rows r (by rw [hpc]; exact hr)
  refine ⟨?_, by simp [Pc.callingId], hs.mirrored, ?_, hs.outgoing, hs.acknowledged,
    fun r hr => hrows r (List.mem_cons_of_mem _ hr), ?_, hs.published⟩
  · have hqueue := hs.queued
    rw [hpc] at hqueue
    simpa [State.upcoming, Pc.callingId, publishOf] using hqueue
  · intro p hp
    rcases List.mem_append.1 hp with hp | hp
    · exact hs.requests p hp
    · rw [List.mem_singleton.1 hp]
      exact hrows row (List.mem_cons_self ..)
  · intro id hid
    refine hs.confirmed id ?_
    rw [hpc]
    exact hid

/-- The publish is refused: its row is the last of the queue, and no other one. -/
theorem inv_publishErr (hs : Inv s) {row : OutboxRow} {rows : List OutboxRow}
    (hpc : s.pc = .calling row rows) :
    Inv { s with tracker := s.tracker.removeQueued row.id, pc := .publishing rows } := by
  have hqueue : s.tracker.queued = s.upcoming ++ [row.id] := by
    simpa [hpc, Pc.callingId] using hs.queued
  have hfresh : row.id ∉ s.upcoming := hs.fresh row.id (by simp [hpc, Pc.callingId])
  refine ⟨?_, by simp [Pc.callingId], hs.mirrored, hs.requests, hs.outgoing, hs.acknowledged, ?_, ?_,
    hs.published⟩
  · show (s.tracker.removeQueued row.id).queued = s.upcoming ++ []
    rw [PublishTracker.queued_removeQueued hqueue hfresh, List.append_nil]
  · intro r hr
    refine hs.rows r ?_
    rw [hpc]
    exact List.mem_cons_of_mem _ hr
  · intro id hid
    refine hs.confirmed id ?_
    rw [hpc]
    exact hid

theorem inv_recvPuback (hs : Inv s) {last : Bool} (hpc : s.pc = .draining last) {id : ℕ}
    {pubacks : List ℕ} (hch : s.pubacks = id :: pubacks) {pending : List ℕ}
    (hpend : ∀ i ∈ pending, i = id ∨ i ∈ s.pending) :
    Inv { s with pubacks := pubacks, pending := pending } := by
  refine ⟨hs.queued, hs.fresh, hs.mirrored, hs.requests, hs.outgoing, hs.acknowledged, hs.rows, ?_,
    hs.published⟩
  intro i hi
  refine hs.confirmed i ?_
  simp only [hch, hpc, Pc.ids, List.mem_append, List.mem_cons] at hi ⊢
  rcases hi with ((hi | hi) | hi) | hi
  · tauto
  · tauto
  · rcases hpend i hi with rfl | hi <;> tauto
  · tauto

theorem inv_fetch (hs : Inv s) (hpc : s.pc = .fetching) {rows : List OutboxRow}
    (hrows : ∀ row ∈ rows, ∃ o ∈ s.db.outbox.rows, o.toOutboxRow = row) :
    Inv { s with pc := if rows.isEmpty then .idle else .publishing rows } := by
  refine hs.with_pc _ (by simp [hpc, Pc.callingId]) (by split_ifs <;> rfl) ?_ (by split_ifs <;> simp [Pc.ids])
  intro row hrow
  split_ifs at hrow with hemp
  · simp [Pc.rows] at hrow
  · obtain ⟨o, ho, rfl⟩ := hrows row hrow
    exact ⟨o, ho, rfl⟩

/-! ### The notification thread -/

/-- The first notification of a publish gives its packet id to the row of that publish. -/
theorem inv_notify_first (hs : Inv s) {pkid : UInt16} {publish : Publish} {ns : List Notification}
    (hns : s.notifications = .first pkid publish :: ns) :
    Inv { s with notifications := ns, tracker := s.tracker.onOutgoingPublish pkid } := by
  have hmirror := hs.mirrored
  rw [hns] at hmirror
  obtain ⟨⟨hid, hfree⟩, hmirror⟩ := hmirror.observe
  have hup : s.upcoming = publish.rowId :: (firsts ns ++ s.requests.map (·.rowId)) := by
    simp [State.upcoming, hns, firsts]
  have hqueue := hs.queued
  rw [hup, List.cons_append] at hqueue
  rw [PublishTracker.onOutgoingPublish_first hid hfree hqueue]
  refine ⟨rfl, fun id hid' hmem => ?_, ?_, hs.requests, hs.outgoing, hs.acknowledged, hs.rows,
    hs.confirmed, hs.published⟩
  · refine hs.fresh id hid' ?_
    rw [hup]
    exact List.mem_cons_of_mem _ hmem
  · show Replica mirror (Expects s.acked) (s.tracker.inflight.insert pkid publish.rowId).get ns _
    rw [Dict.get_insert]
    exact hmirror

theorem inv_notify_retransmit (hs : Inv s) {pkid : UInt16} {ns : List Notification}
    (hns : s.notifications = .retransmit pkid :: ns) :
    Inv { s with notifications := ns, tracker := s.tracker.onOutgoingPublish pkid } := by
  have hmirror := hs.mirrored
  rw [hns] at hmirror
  obtain ⟨hbusy, hmirror⟩ := hmirror.observe
  have hup : s.upcoming = firsts ns ++ s.requests.map (·.rowId) := by
    simp [State.upcoming, hns, firsts]
  rw [PublishTracker.onOutgoingPublish_retransmit hbusy]
  refine ⟨?_, ?_, hmirror, hs.requests, hs.outgoing, hs.acknowledged, hs.rows, hs.confirmed,
    hs.published⟩
  · show s.tracker.queued = firsts ns ++ s.requests.map (·.rowId) ++ s.pc.callingId
    rw [← hup]
    exact hs.queued
  · show ∀ id ∈ s.pc.callingId, id ∉ firsts ns ++ s.requests.map (·.rowId)
    rw [← hup]
    exact hs.fresh

/-- The row of an acknowledged packet was acknowledged. -/
theorem inv_notify_pubAck (hs : Inv s) {pkid : UInt16} {ns : List Notification}
    (hsend : s.sending = none) (hns : s.notifications = .pubAck pkid :: ns) :
    Inv { s with
      notifications := ns, tracker := (s.tracker.onPuback pkid).2
      sending := (s.tracker.onPuback pkid).1 } := by
  have hmirror := hs.mirrored
  rw [hns] at hmirror
  obtain ⟨hacked, hmirror⟩ := hmirror.observe
  have hup : s.upcoming = firsts ns ++ s.requests.map (·.rowId) := by
    simp [State.upcoming, hns, firsts]
  refine ⟨?_, ?_, ?_, hs.requests, hs.outgoing, hs.acknowledged, hs.rows, fun id hid => ?_,
    hs.published⟩
  · show (s.tracker.onPuback pkid).2.queued = firsts ns ++ s.requests.map (·.rowId) ++ s.pc.callingId
    rw [← hup, PublishTracker.queued_onPuback]
    exact hs.queued
  · show ∀ id ∈ s.pc.callingId, id ∉ firsts ns ++ s.requests.map (·.rowId)
    rw [← hup]
    exact hs.fresh
  · show Replica mirror (Expects s.acked) (s.tracker.onPuback pkid).2.inflight.get ns _
    rw [PublishTracker.get_inflight_onPuback]
    exact hmirror
  · simp only [PublishTracker.onPuback_fst, List.append_assoc, List.mem_append] at hid
    rcases hid with hid | hid
    · exact hacked id (by simpa using hid)
    · refine hs.confirmed id ?_
      simp only [hsend, List.append_assoc, List.mem_append]
      exact Or.inr hid

theorem inv_trySend (hs : Inv s) {id : ℕ} (hsend : s.sending = some id) {pubacks : List ℕ}
    (hch : ∀ i ∈ pubacks, i = id ∨ i ∈ s.pubacks) :
    Inv { s with sending := none, pubacks := pubacks } := by
  refine ⟨hs.queued, hs.fresh, hs.mirrored, hs.requests, hs.outgoing, hs.acknowledged, hs.rows, ?_,
    hs.published⟩
  intro i hi
  refine hs.confirmed i ?_
  simp only [hsend, Option.toList_none, Option.toList_some, List.nil_append, List.mem_append,
    List.mem_singleton] at hi ⊢
  rcases hi with (hi | hi) | hi
  · rcases hch i hi with rfl | hi <;> tauto
  · tauto
  · tauto

/-! ### The client library and the broker -/

/-- A notification about something that was sent or acknowledged before. -/
theorem Inv.emit (hs : Inv s) {n : Notification} (hfirst : firsts [n] = [])
    (hn : Expects s.acked (fun pkid => (s.outgoing pkid).map (·.rowId)) n)
    (hsame : mirror (fun pkid => (s.outgoing pkid).map (·.rowId)) n =
      fun pkid => (s.outgoing pkid).map (·.rowId)) :
    Inv { s with notifications := s.notifications ++ [n] } := by
  have hmirror := hs.mirrored.emit hn
  rw [hsame] at hmirror
  have hup : ({ s with notifications := s.notifications ++ [n] } : State).upcoming = s.upcoming := by
    simp only [State.upcoming, firsts_append, hfirst, List.append_nil]
  refine ⟨?_, ?_, hmirror, hs.requests, hs.outgoing, hs.acknowledged, hs.rows, hs.confirmed,
    hs.published⟩
  · rw [hup]
    exact hs.queued
  · rw [hup]
    exact hs.fresh

theorem inv_send (hs : Inv s) {publish : Publish} {requests : List Publish}
    (hreq : s.requests = publish :: requests) {pkid : UInt16} (hid : pkid ≠ 0)
    (hfree : s.outgoing pkid = none) :
    Inv { s with
      requests := requests
      outgoing := Function.update s.outgoing pkid (some publish)
      notifications := s.notifications ++ [.first pkid publish] } := by
  have hexp : Expects s.acked (fun pkid => (s.outgoing pkid).map (·.rowId)) (.first pkid publish) :=
    ⟨hid, by simp [hfree]⟩
  have hmirror := hs.mirrored.emit hexp
  have hsource : mirror (fun pkid => (s.outgoing pkid).map (·.rowId)) (.first pkid publish) =
      fun p => (Function.update s.outgoing pkid (some publish) p).map (·.rowId) := by
    funext p
    simp only [mirror, Function.update_apply]
    split_ifs <;> rfl
  rw [hsource] at hmirror
  -- the row moves from the requests to the notifications, and keeps its place
  have hup : firsts (s.notifications ++ [.first pkid publish]) ++ requests.map (·.rowId) =
      s.upcoming := by
    rw [firsts_append]
    simp [State.upcoming, hreq, firsts]
  refine ⟨?_, ?_, hmirror, fun p hp => hs.requests p ?_, fun q p hq => ?_, hs.acknowledged, hs.rows,
    hs.confirmed, hs.published⟩
  · exact hs.queued.trans (by rw [← hup]; rfl)
  · show ∀ id ∈ s.pc.callingId, id ∉ firsts _ ++ requests.map (·.rowId)
    rw [hup]
    exact hs.fresh
  · rw [hreq]
    exact List.mem_cons_of_mem _ hp
  · simp only [Function.update_apply] at hq
    split_ifs at hq
    · simp only [Option.some.injEq] at hq
      exact hs.requests p (by simp [hreq, hq])
    · exact hs.outgoing q p hq

theorem inv_puback (hs : Inv s) {pkid : UInt16} {publish : Publish}
    (hout : s.outgoing pkid = some publish) :
    Inv { s with
      outgoing := Function.update s.outgoing pkid none
      notifications := s.notifications ++ [.pubAck pkid]
      acknowledged := s.acknowledged ++ [publish] } := by
  have hmono : ∀ id ∈ s.acked, id ∈ (s.acknowledged ++ [publish]).map (·.rowId) := by
    intro id hid
    rw [List.map_append]
    exact List.mem_append_left _ hid
  have hmore : Replica mirror (Expects ((s.acknowledged ++ [publish]).map (·.rowId)))
      s.tracker.inflight.get s.notifications fun pkid => (s.outgoing pkid).map (·.rowId) := by
    refine hs.mirrored.imp fun f n hn => ?_
    cases n with
    | first _ _ => exact hn
    | retransmit _ => exact hn
    | pubAck _ => exact fun id hid => hmono id (hn id hid)
  have hmirror := hmore.emit (n := .pubAck pkid) (by
    intro id hid
    simp only [hout, Option.map_some, Option.some.injEq] at hid
    simp [← hid])
  have hsource : mirror (fun pkid => (s.outgoing pkid).map (·.rowId)) (.pubAck pkid) =
      fun p => (Function.update s.outgoing pkid none p).map (·.rowId) := by
    funext p
    simp only [mirror, Function.update_apply]
    split_ifs <;> rfl
  rw [hsource] at hmirror
  have hup : firsts (s.notifications ++ [.pubAck pkid]) ++ s.requests.map (·.rowId) =
      s.upcoming := by
    rw [firsts_append]
    simp [State.upcoming, firsts]
  refine ⟨?_, ?_, hmirror, hs.requests, fun q p hq => ?_, fun p hp => ?_, hs.rows,
    fun id hid => hmono id (hs.confirmed id hid), fun o ho hpub => hmono _ (hs.published o ho hpub)⟩
  · exact hs.queued.trans (by rw [← hup]; rfl)
  · show ∀ id ∈ s.pc.callingId, id ∉ firsts _ ++ s.requests.map (·.rowId)
    rw [hup]
    exact hs.fresh
  · simp only [Function.update_apply] at hq
    split_ifs at hq
    exact hs.outgoing q p hq
  · rcases List.mem_append.1 hp with hp | hp
    · exact hs.acknowledged p hp
    · rw [List.mem_singleton.1 hp]
      exact hs.outgoing pkid publish hout

/-! ### Runs -/

theorem inv_crash (hs : Inv s) (store : String) :
    Inv { init store with db := s.db, acknowledged := s.acknowledged } := by
  refine ⟨rfl, ?_, Replica.refl _, ?_, ?_, hs.acknowledged, ?_, ?_, hs.published⟩
  · simp [init, Pc.callingId]
  · simp [init]
  · simp [init]
  · simp [init, Pc.rows]
  · simp [init, Pc.ids]

theorem inv_step {a : Action} (hs : Inv s) (h : step D cfg s a = some s') : Inv s' := by
  cases moves_of_step h with
  | commit hok => exact inv_commit hs hok
  | abort => exact hs
  | start hpc =>
    exact hs.with_pc _ (by simp [hpc, Pc.callingId]) rfl (by simp [Pc.rows]) (by simp [Pc.ids])
  | recvPuback hpc hch => exact inv_recvPuback hs hpc hch fun i hi => by simpa using hi
  | losePuback hpc hch => exact inv_recvPuback hs hpc hch fun i hi => Or.inr hi
  | startMark hpc _ _ hids =>
    refine hs.with_pc _ (by simp [hpc, Pc.callingId]) rfl (by simp [Pc.rows]) fun id hid => ?_
    exact hs.confirmed id (List.mem_append_left _ (List.mem_append_right _ (hids.2.1 hid)))
  | skipMark hpc =>
    exact hs.with_pc _ (by simp [hpc, Pc.callingId]) (Pc.callingId_afterDrain _)
      (by simp [Pc.rows_afterDrain]) (by simp [Pc.ids_afterDrain])
  | markOk now hpc => exact inv_markOk hs hpc now
  | markFail hpc =>
    exact hs.with_pc _ (by simp [hpc, Pc.callingId]) rfl (by simp [Pc.rows]) (by simp [Pc.ids])
  | fetch ok hpc hrows =>
    refine inv_fetch hs hpc fun row hrow => ?_
    rw [hrows] at hrow
    cases ok with
    | false => simp at hrow
    | true =>
      obtain ⟨o, ho, -, heq⟩ := Outbox.mem_fetchUnpublished hrow
      exact ⟨o, ho, heq⟩
  | skip now hpc =>
    refine hs.with_pc _ (by simp [hpc, Pc.callingId]) rfl (fun r hr => hs.rows r ?_) (by simp [Pc.ids])
    rw [hpc]
    exact List.mem_cons_of_mem _ hr
  | queue now hpc hnew => exact inv_queue hs hpc hnew now
  | publishOk hpc => exact inv_publishOk hs hpc
  | publishErr hpc => exact inv_publishErr hs hpc
  | countTimeouts now hpc =>
    have hdrain := hs.with_pc (.draining true) (by simp [hpc, Pc.callingId]) rfl
      (by simp [Pc.rows]) (by simp [Pc.ids])
    exact ⟨hdrain.queued, hdrain.fresh, hdrain.mirrored, hdrain.requests, hdrain.outgoing,
      hdrain.acknowledged, hdrain.rows, hdrain.confirmed, hdrain.published⟩
  | first _ hns => exact inv_notify_first hs hns
  | retransmitted _ hns => exact inv_notify_retransmit hs hns
  | pubAck hsend hns => exact inv_notify_pubAck hs hsend hns
  | trySend hsend =>
    refine inv_trySend hs hsend fun i hi => ?_
    rcases List.mem_append.1 hi with hi | hi
    · exact Or.inr hi
    · exact Or.inl (List.mem_singleton.1 hi)
  | drop hsend => exact inv_trySend hs hsend fun i hi => Or.inr hi
  | send hreq hid hfree => exact inv_send hs hreq hid hfree
  | retransmit hout => exact hs.emit rfl (by simp [Expects, hout]) rfl
  | puback hout => exact inv_puback hs hout
  | strayPuback hout =>
    refine hs.emit rfl (by simp [Expects, hout]) ?_
    funext p
    simp only [mirror, Function.update_apply]
    split_ifs with hp
    · simp [hp, hout]
    · rfl
  | crash => exact inv_crash hs cfg.store

/-- **A row is marked only after its own publish was acknowledged.**  In every reachable state, the
publish of a row with `published_at` set is among the acknowledged ones.  A row without an
acknowledged publish is unpublished, and `fetch_unpublished` offers it as soon as the limit lets
it. -/
theorem published_after_puback (D : Deps) (cfg : Config) (s : State)
    (hreach : Reachable (step D cfg) (init cfg.store) s) (o : OutboxEntry)
    (ho : o ∈ s.db.outbox.rows) :
    (o.publishedAt ≠ none → publishOf o.toOutboxRow ∈ s.acknowledged) ∧
    ((∀ p ∈ s.acknowledged, p.rowId ≠ o.id) →
      o.publishedAt = none ∧
      ∀ limit, (s.db.outbox.rows.filter fun x =>
          decide (x.store = o.store ∧ x.publishedAt = none ∧ x.id < o.id)).length < limit →
        o.toOutboxRow ∈ s.db.outbox.fetchUnpublished o.store limit) := by
  have hinv : Inv s := hreach.invariant (inv_init cfg.store) fun s a s' hs h => inv_step hs h
  have hmarked : o.publishedAt ≠ none → publishOf o.toOutboxRow ∈ s.acknowledged := by
    intro hpub
    obtain ⟨p, hp, hid⟩ := List.mem_map.1 (hinv.published o ho hpub)
    obtain ⟨x, hx, rfl⟩ := hinv.acknowledged p hp
    rwa [← s.db.outbox.eq_of_id_eq hx ho hid]
  refine ⟨hmarked, fun hno => ?_⟩
  have hun : o.publishedAt = none := by
    by_contra hpub
    exact hno _ (hmarked hpub) rfl
  exact ⟨hun, fun limit hlt => Outbox.mem_fetchUnpublished_of_lt ho hun hlt⟩

/-- An upsert is committed, published, acknowledged and marked. -/
def sampleActions : List Action :=
  [.commit (fun _ => History.sampleAmbient) [History.sampleUpsert "a" 1], .start, .skipMark,
    .fetch true, .track 0, .publishReturns true, .send 1, .notify, .puback 1, .notify, .trySend,
    .countTimeouts 10, .recvPuback, .startMark [1], .markOk "2026-01-01 00:00:01"]

theorem published_after_puback_of_an_upsert :
    ∃ s o, Reachable (step History.sampleDeps (.default "main" 500)) (init "main") s ∧
      o ∈ s.db.outbox.rows ∧ o.publishedAt ≠ none ∧ publishOf o.toOutboxRow ∈ s.acknowledged := by
  have hrun : (runFrom (step History.sampleDeps (.default "main" 500)) (init "main")
      sampleActions).map (fun s => s.db.outbox.rows.any fun o => o.publishedAt ≠ none) =
        some true := by
    decide +kernel
  obtain ⟨s, hreach, hs⟩ := exists_reachable hrun
  obtain ⟨o, ho, hpub⟩ := List.any_eq_true.1 hs
  have hpub' : o.publishedAt ≠ none := by simpa using hpub
  exact ⟨s, o, hreach, ho, hpub', (published_after_puback History.sampleDeps (.default "main" 500) s
    hreach o ho).1 hpub'⟩

end Publisher

end Ixmati
