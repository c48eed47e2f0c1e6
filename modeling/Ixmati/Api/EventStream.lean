import Ixmati.Api.Protobuf
import Ixmati.Lib.Log
import Ixmati.Lib.Run
import Mathlib.Data.Finset.Card

/-!
# The event stream

`subscribe_events` of `grpc.rs`: a task that pages through `_outbox` from a cursor and hands the
events to the client through a bounded channel.  It never waits for a slow client: one slot of the
channel is kept for a last `RESOURCE_EXHAUSTED`, which names the cursor to resume from, and when only
that slot is left the task says so and stops.

The task, the client and the writer are one step system.  Reading the capacity of the channel and
sending are steps of their own, so the client may receive in between.  The client subscribes again
whenever its stream was cut, as often as that happens.

* `EventStream.Inv` : what was handed out so far are the events of the first rows beyond the start
  cursor, and the cursor of the task is the id of the last of them;
* `EventStream.inv_step` : every step keeps it.
-/

namespace Ixmati

/-- `event_stream_buffer_capacity_from_env`, on the number in `EVENT_STREAM_BUFFER_CAPACITY` if there
is one. -/
def eventStreamBufferCapacityFromEnv (value : Option ℕ) : ℕ :=
  -- one slot is reserved for RESOURCE_EXHAUSTED
  (value.filter fun n => decide (2 ≤ n)).getD 128

theorem two_le_eventStreamBufferCapacityFromEnv (value : Option ℕ) :
    2 ≤ eventStreamBufferCapacityFromEnv value := by
  unfold eventStreamBufferCapacityFromEnv
  cases value with
  | none => simp
  | some n =>
    by_cases hn : 2 ≤ n
    · simp [Option.filter, hn]
    · simp [Option.filter, hn]

namespace EventStream

/-- `pb::SubscribeEventsRequest`. -/
structure Request where
  store : String
  entity : String
  key : String
  afterOutboxSeq : ℤ

/-- The filter of `fetch_events`; an empty entity or key matches all. -/
def Request.matches (q : Request) (r : OutboxEntry) : Bool :=
  decide (r.store = q.store ∧ (q.entity = "" ∨ r.entity = q.entity) ∧ (q.key = "" ∨ r.key = q.key))

/-- The API process. -/
structure Config where
  /-- The capacity of the channel of a stream. -/
  capacity : ℕ
  /-- Is a database configured for the store? -/
  hasDatabase : String → Bool
  /-- The text of an error of `fetch_events`. -/
  errorText : FetchError → String

/-! ### The queries -/

/-- The rows of the filter, in id order. -/
def matching (q : Request) (rows : List OutboxEntry) : List OutboxEntry :=
  rows.filter fun r => q.matches r

/-- `fetch_events`. -/
def fetchEvents (D : Deps) (rows : List OutboxEntry) (q : Request) (cursor limit : ℕ) :
    Except FetchError (List (ℕ × PbEvent)) :=
  ((beyond (·.id) cursor (matching q rows)).take limit).mapM fun r => do
    return (r.id, ← eventFromRow D r)

/-- `oldest_available_cursor`. -/
def oldestAvailableCursor (rows : List OutboxEntry) (store : String) (requestedCursor : ℕ) :
    Option String :=
  match ((rows.filter fun r => decide (r.store = store)).map (·.id)).min? with
  | some oldest =>
    if requestedCursor < oldest - 1 then
      some ("outbox cursor " ++ toString requestedCursor ++
        " is older than retained history starting at " ++ toString oldest)
    else none
  | none => none

/-! ### The stream -/

/-- What goes through the channel. -/
abbrev Item := Except Status PbEvent

/-- The event of an item. -/
def Item.event? : Item → Option PbEvent
  | .ok e => some e
  | .error _ => none

/-- What the task is doing. -/
inductive Task where
  /-- At the head of the outer loop. -/
  | fetching
  /-- At the head of the loop over a page. -/
  | sending (rows : List (ℕ × PbEvent))
  /-- After the capacity was found sufficient, before `try_reserve`. -/
  | reserving (id : ℕ) (event : PbEvent) (rows : List (ℕ × PbEvent))
  /-- After the capacity was found exhausted, before `try_send`. -/
  | exhausting
  /-- In `send` of an error. -/
  | failing (status : Status)
  /-- Returned; the sender is dropped. -/
  | stopped

/-- A subscription. -/
structure Stream where
  request : Request
  cursor : ℕ
  seen : Finset String
  task : Task
  channel : List Item
  /-- What the client has received. -/
  received : List Item

/-- `subscribe_events`, up to the start of the task. -/
def subscribeEvents (cfg : Config) (rows : List OutboxEntry) (q : Request) : Except Status Stream :=
  if q.store = "" then .error ⟨.invalidArgument, "store is required"⟩
  else if q.afterOutboxSeq < 0 then
    .error ⟨.invalidArgument, "after_outbox_seq cannot be negative"⟩
  else if cfg.hasDatabase q.store = false then
    .error ⟨.notFound, "store database is not configured"⟩
  else
    let started : Stream :=
      { request := q, cursor := q.afterOutboxSeq.toNat, seen := ∅, task := .fetching,
        channel := [], received := [] }
    if q.afterOutboxSeq > 0 then
      match oldestAvailableCursor rows q.store q.afterOutboxSeq.toNat with
      | some message => .error ⟨.outOfRange, message⟩
      | none => .ok started
    else .ok started

/-- The last item of a stream that is cut. -/
def exhaustedAt (cursor : ℕ) : Status :=
  ⟨.resourceExhausted,
    "event stream consumer is behind; resume from cursor " ++ toString cursor⟩

/-- The status that the client received last, if it is a status. -/
def Stream.lastStatus (st : Stream) : Option Status :=
  match st.received.getLast? with
  | some (.error status) => some status
  | _ => none

/-- The free slots of the channel. -/
def Stream.freeSlots (cfg : Config) (st : Stream) : ℕ := cfg.capacity - st.channel.length

/-- The head of the loop over a page. -/
def Stream.next (cfg : Config) (st : Stream) : List (ℕ × PbEvent) → Stream
  | [] => { st with task := .fetching }
  | (id, event) :: rows =>
    let isNew := decide (event.eventId ∉ st.seen)
    let seen := insert event.eventId st.seen
    let st := { st with seen := if seen.card > 4096 then ∅ else seen }
    if isNew = false then { st with cursor := id, task := .sending rows }
    else if st.freeSlots cfg ≤ 1 then { st with task := .exhausting }
    else { st with task := .reserving id event rows }

/-! ### The system -/

/-- The outbox, the client's stream and what the client got from its earlier streams. -/
structure State where
  rows : List OutboxEntry
  stream : Stream
  earlier : List PbEvent

/-- The steps of the system. -/
inductive Action where
  /-- The writer appends a row. -/
  | append (r : OutboxEntry)
  /-- The task runs `fetch_events`. -/
  | fetch
  /-- `fetch_events` fails for a reason of its own. -/
  | fetchFails (text : String)
  /-- The task looks at the next event of its page. -/
  | next
  /-- The task reserves a slot and sends the event. -/
  | reserve
  /-- The task sends `RESOURCE_EXHAUSTED` and returns. -/
  | exhaust
  /-- The task sends an error and returns. -/
  | fail
  /-- The client receives an item. -/
  | recv
  /-- The client, told to resume from `cursor`, subscribes again. -/
  | resume (cursor : ℕ)

/-- What the writer may append: the id is above all others, the event id is new and the payload is an
object. -/
def Appendable (D : Deps) (rows : List OutboxEntry) (r : OutboxEntry) : Prop :=
  (∀ x ∈ rows, x.id < r.id) ∧ (∀ x ∈ rows, x.eventId ≠ r.eventId) ∧
    (eventPayload D r).isObject = true

instance (D : Deps) (rows : List OutboxEntry) (r : OutboxEntry) : Decidable (Appendable D rows r) :=
  inferInstanceAs (Decidable (_ ∧ _))

/-- One step. -/
def step (D : Deps) (cfg : Config) (s : State) : Action → Option State
  | .append r => if Appendable D s.rows r then some { s with rows := s.rows ++ [r] } else none
  | .fetch =>
    match s.stream.task with
    | .fetching =>
      match fetchEvents D s.rows s.stream.request s.stream.cursor 128 with
      | .ok rows =>
        -- on an empty page the task sleeps and tries again
        if rows.isEmpty then some s
        else some { s with stream := { s.stream with task := .sending rows } }
      | .error e =>
        some { s with
          stream := { s.stream with task := .failing ⟨.internal, cfg.errorText e⟩ } }
    | _ => none
  | .fetchFails text =>
    match s.stream.task with
    | .fetching =>
      some { s with
        stream := { s.stream with task := .failing ⟨.internal, cfg.errorText (.sqlite text)⟩ } }
    | _ => none
  | .next =>
    match s.stream.task with
    | .sending rows => some { s with stream := s.stream.next cfg rows }
    | _ => none
  | .reserve =>
    match s.stream.task with
    | .reserving id event rows =>
      if s.stream.freeSlots cfg = 0 then some { s with stream := { s.stream with task := .stopped } }
      else
        some { s with
          stream := { s.stream with
            channel := s.stream.channel ++ [.ok event], cursor := id, task := .sending rows } }
    | _ => none
  | .exhaust =>
    match s.stream.task with
    | .exhausting =>
      if s.stream.freeSlots cfg = 0 then some { s with stream := { s.stream with task := .stopped } }
      else
        some { s with
          stream := { s.stream with
            channel := s.stream.channel ++ [.error (exhaustedAt s.stream.cursor)],
            task := .stopped } }
    | _ => none
  | .fail =>
    match s.stream.task with
    | .failing status =>
      -- `send` waits for a free slot
      if s.stream.freeSlots cfg = 0 then none
      else
        some { s with
          stream := { s.stream with
            channel := s.stream.channel ++ [.error status], task := .stopped } }
    | _ => none
  | .recv =>
    match s.stream.channel with
    | item :: channel =>
      some { s with
        stream := { s.stream with channel := channel, received := s.stream.received ++ [item] } }
    | [] => none
  | .resume cursor =>
    if s.stream.lastStatus = some (exhaustedAt cursor) then
      match subscribeEvents cfg s.rows { s.stream.request with afterOutboxSeq := cursor } with
      | .ok stream =>
        some { s with
          stream := stream
          earlier := s.earlier ++ s.stream.received.filterMap Item.event? }
      | .error _ => none
    else none

/-! ### What is handed out -/

/-- The rows are such as the writer makes them. -/
structure Wellformed (D : Deps) (rows : List OutboxEntry) : Prop where
  sorted : rows.Pairwise fun a b => a.id < b.id
  distinct : rows.Pairwise fun a b => a.eventId ≠ b.eventId
  objects : ∀ r ∈ rows, (eventPayload D r).isObject = true

/-- The rows that a subscription is about. -/
def wanted (q : Request) (rows : List OutboxEntry) : List OutboxEntry :=
  beyond (·.id) q.afterOutboxSeq.toNat (matching q rows)

/-- The events among the items. -/
def eventsOf (items : List Item) : List PbEvent := items.filterMap Item.event?

/-- No item is a status. -/
def AllEvents (items : List Item) : Prop := ∀ x ∈ items, ∃ e, x = .ok e

/-- All that was sent on the stream. -/
def Stream.items (st : Stream) : List Item := st.received ++ st.channel

/-- What the client has received over all its subscriptions. -/
def State.delivered (s : State) : List PbEvent := s.earlier ++ eventsOf s.stream.received

/-- The events are those of the rows. -/
def Delivers (D : Deps) (rows : List OutboxEntry) (events : List PbEvent) : Prop :=
  rows.map (eventFromRow D) = events.map Except.ok

variable {D : Deps} {cfg : Config} {q : Request} {s s' : State} {rows : List OutboxEntry}

theorem Wellformed.append (h : Wellformed D rows) {r : OutboxEntry} (hr : Appendable D rows r) :
    Wellformed D (rows ++ [r]) where
  sorted := by
    refine List.pairwise_append.2 ⟨h.sorted, List.pairwise_singleton .., fun x hx y hy => ?_⟩
    rw [List.mem_singleton.1 hy]
    exact hr.1 x hx
  distinct := by
    refine List.pairwise_append.2 ⟨h.distinct, List.pairwise_singleton .., fun x hx y hy => ?_⟩
    rw [List.mem_singleton.1 hy]
    exact hr.2.1 x hx
  objects := by
    intro x hx
    rcases List.mem_append.1 hx with hx | hx
    · exact h.objects x hx
    · rw [List.mem_singleton.1 hx]
      exact hr.2.2

theorem Wellformed.matching_sorted (h : Wellformed D rows) (q : Request) :
    (matching q rows).Pairwise fun a b => a.id < b.id :=
  h.sorted.filter _

theorem mem_matching {r : OutboxEntry} : r ∈ matching q rows ↔ r ∈ rows ∧ q.matches r = true :=
  List.mem_filter

theorem Delivers.append {xs ys : List OutboxEntry} {es fs : List PbEvent} (hx : Delivers D xs es)
    (hy : Delivers D ys fs) : Delivers D (xs ++ ys) (es ++ fs) := by
  unfold Delivers at hx hy ⊢
  rw [List.map_append, List.map_append, hx, hy]

theorem delivers_singleton {r : OutboxEntry} {e : PbEvent} (h : eventFromRow D r = .ok e) :
    Delivers D [r] [e] := by
  simp [Delivers, h]

/-- What was delivered first are the events of the first rows. -/
theorem Delivers.split {xs : List OutboxEntry} {es fs : List PbEvent} (h : Delivers D xs (es ++ fs)) :
    ∃ ys zs, xs = ys ++ zs ∧ Delivers D ys es ∧ Delivers D zs fs := by
  unfold Delivers at h
  rw [List.map_append] at h
  obtain ⟨ys, zs, rfl, hy, hz⟩ := List.map_eq_append_iff.1 h
  exact ⟨ys, zs, rfl, hy, hz⟩

theorem eventsOf_append (xs ys : List Item) : eventsOf (xs ++ ys) = eventsOf xs ++ eventsOf ys :=
  List.filterMap_append

theorem AllEvents.append {xs ys : List Item} (hx : AllEvents xs) (hy : AllEvents ys) :
    AllEvents (xs ++ ys) := by
  intro x hmem
  rcases List.mem_append.1 hmem with hmem | hmem
  · exact hx x hmem
  · exact hy x hmem

/-! ### Pages -/

/-- The page holds the next rows beyond the cursor. -/
def Page (D : Deps) (rows : List OutboxEntry) (cursor : ℕ) (page : List (ℕ × PbEvent)) : Prop :=
  ∃ front back, beyond (·.id) cursor rows = front ++ back ∧
    front.map (fun r => (r.id, eventFromRow D r)) = page.map fun p => (p.1, .ok p.2)

/-- `fetch_events` does not fail on rows that the writer made, and returns the next of them. -/
theorem fetchEvents_ok (h : Wellformed D rows) (q : Request) (cursor limit : ℕ) :
    ∃ page, fetchEvents D rows q cursor limit = .ok page ∧
      ((beyond (·.id) cursor (matching q rows)).take limit).map (fun r => (r.id, eventFromRow D r)) =
        page.map fun p => (p.1, .ok p.2) := by
  have hmap : ∀ front : List OutboxEntry, (∀ r ∈ front, r ∈ rows) →
      ∃ page, (front.mapM fun r => do return (r.id, ← eventFromRow D r)) =
          (.ok page : Except FetchError (List (ℕ × PbEvent))) ∧
        front.map (fun r => (r.id, eventFromRow D r)) = page.map fun p => (p.1, .ok p.2) := by
    intro front hfront
    induction front with
    | nil => exact ⟨[], rfl, rfl⟩
    | cons r front ih =>
      obtain ⟨page, hpage, heq⟩ := ih fun x hx => hfront x (List.mem_cons_of_mem _ hx)
      obtain ⟨e, he⟩ := (eventFromRow_ok_iff D r).2 (h.objects r (hfront r (List.mem_cons_self ..)))
      refine ⟨(r.id, e) :: page, ?_, ?_⟩
      · rw [List.mapM_cons, hpage, he]
        rfl
      · rw [List.map_cons, List.map_cons, heq, he]
  exact hmap ((beyond (·.id) cursor (matching q rows)).take limit)
    fun r hr => (mem_matching.1 (mem_beyond.1 (List.mem_of_mem_take hr)).1).1

theorem page_of_take {cursor limit : ℕ} {page : List (ℕ × PbEvent)}
    (h : ((beyond (·.id) cursor rows).take limit).map (fun r => (r.id, eventFromRow D r)) =
      page.map fun p => (p.1, .ok p.2)) : Page D rows cursor page :=
  ⟨_, _, (List.take_append_drop limit _).symm, h⟩

theorem Page.append {cursor : ℕ} {page : List (ℕ × PbEvent)} (h : Page D rows cursor page)
    (new : List OutboxEntry) : Page D (rows ++ new) cursor page := by
  obtain ⟨front, back, hsplit, heq⟩ := h
  exact ⟨front, back ++ beyond (·.id) cursor new, by
    rw [beyond_append, hsplit, List.append_assoc], heq⟩

/-- The first event of a page is the one of the first row beyond the cursor, and the rest is a page
from there on. -/
theorem Page.cons (hs : rows.Pairwise fun a b => a.id < b.id) {cursor id : ℕ} {event : PbEvent}
    {page : List (ℕ × PbEvent)} (h : Page D rows cursor ((id, event) :: page)) :
    ∃ r, r.id = id ∧ eventFromRow D r = .ok event ∧
      beyond (·.id) cursor rows = r :: beyond (·.id) id rows ∧ Page D rows id page := by
  obtain ⟨front, back, hsplit, heq⟩ := h
  cases front with
  | nil => simp at heq
  | cons r front =>
    simp only [List.map_cons, List.cons.injEq, Prod.mk.injEq] at heq
    obtain ⟨⟨rfl, he⟩, heq⟩ := heq
    have hrest : beyond (·.id) r.id rows = front ++ back := beyond_of_cons hs hsplit
    exact ⟨r, rfl, he, by rw [hsplit, hrest, List.cons_append], front, back, hrest, heq⟩

/-! ### The invariant -/

/-- Every event id that was seen is the one of a row up to `bound`. -/
def SeenUpTo (rows : List OutboxEntry) (bound : ℕ) (seen : Finset String) : Prop :=
  ∀ e ∈ seen, ∃ r ∈ rows, r.id ≤ bound ∧ r.eventId = e

/-- Only events were sent so far, those of rows beyond the start, and `n` slots are free. -/
structure Stream.Open (cfg : Config) (st : Stream) (n : ℕ) : Prop where
  events : AllEvents st.items
  slots : st.channel.length + n ≤ cfg.capacity
  moved : st.items ≠ [] → st.request.afterOutboxSeq < st.cursor

/-- The status of a fetch that SQLite failed. -/
def IsSqliteError (cfg : Config) (status : Status) : Prop :=
  ∃ text, status = ⟨.internal, cfg.errorText (.sqlite text)⟩

/-- The stream has ended with a status: an error of SQLite, or the cursor to resume from, which is
beyond the one it started from. -/
def Stream.Ended (cfg : Config) (st : Stream) : Prop :=
  ∃ front status, st.items = front ++ [.error status] ∧ AllEvents front ∧
    (IsSqliteError cfg status ∨
      status = exhaustedAt st.cursor ∧ st.request.afterOutboxSeq < st.cursor)

/-- What is known of the stream while the task is where it is. -/
def TaskInv (D : Deps) (cfg : Config) (q : Request) (rows : List OutboxEntry) (st : Stream) :
    Task → Prop
  | .fetching => st.Open cfg 1 ∧ SeenUpTo rows st.cursor st.seen
  | .sending page =>
    st.Open cfg 1 ∧ SeenUpTo rows st.cursor st.seen ∧ Page D (matching q rows) st.cursor page
  | .reserving id event page =>
    st.Open cfg 2 ∧ SeenUpTo rows id st.seen ∧
      Page D (matching q rows) st.cursor ((id, event) :: page)
  | .exhausting => st.Open cfg 1 ∧ st.request.afterOutboxSeq < st.cursor
  | .failing status => st.Open cfg 1 ∧ IsSqliteError cfg status
  | .stopped => st.Ended cfg

/-- The events of the rows `sent` were handed out; they are the first ones wanted, and the task goes
on from the last of them. -/
structure Inv (D : Deps) (cfg : Config) (q : Request) (s : State) (sent : List OutboxEntry) :
    Prop where
  wellformed : Wellformed D s.rows
  accepted : q.store ≠ "" ∧ cfg.hasDatabase q.store = true ∧ 0 ≤ q.afterOutboxSeq
  request : s.stream.request = { q with afterOutboxSeq := s.stream.request.afterOutboxSeq }
  start : q.afterOutboxSeq ≤ s.stream.request.afterOutboxSeq ∧
    s.stream.request.afterOutboxSeq ≤ s.stream.cursor
  segment : wanted q s.rows = sent ++ beyond (·.id) s.stream.cursor (matching q s.rows)
  handed : Delivers D sent (s.earlier ++ eventsOf s.stream.items)
  last : (sent = [] ∧ s.stream.cursor = q.afterOutboxSeq) ∨
    ∃ front r, sent = front ++ [r] ∧ r.id = s.stream.cursor
  task : TaskInv D cfg q s.rows s.stream s.stream.task

variable {sent : List OutboxEntry}

theorem Inv.mem_wanted (hs : Inv D cfg q s sent) {r : OutboxEntry} (hr : r ∈ sent) :
    r ∈ s.rows ∧ q.matches r = true ∧ q.afterOutboxSeq < r.id := by
  have hmem : r ∈ wanted q s.rows := by rw [hs.segment]; exact List.mem_append_left _ hr
  obtain ⟨hmatch, hlt⟩ := mem_beyond.1 hmem
  obtain ⟨hrow, hq⟩ := mem_matching.1 hmatch
  have hpos := hs.accepted.2.2
  exact ⟨hrow, hq, by omega⟩

/-- A step of the task that hands nothing out keeps the invariant. -/
theorem Inv.with_stream (hs : Inv D cfg q s sent) {st : Stream}
    (hreq : st.request = s.stream.request) (hcur : st.cursor = s.stream.cursor)
    (hitems : eventsOf st.items = eventsOf s.stream.items)
    (htask : TaskInv D cfg q s.rows st st.task) : Inv D cfg q { s with stream := st } sent where
  wellformed := hs.wellformed
  accepted := hs.accepted
  request := by rw [hreq]; exact hs.request
  start := by rw [hreq, hcur]; exact hs.start
  segment := by rw [hcur]; exact hs.segment
  handed := by rw [hitems]; exact hs.handed
  last := by rw [hcur]; exact hs.last
  task := htask

theorem SeenUpTo.append {bound : ℕ} {seen : Finset String} (h : SeenUpTo rows bound seen)
    (r : OutboxEntry) : SeenUpTo (rows ++ [r]) bound seen := by
  intro e he
  obtain ⟨x, hx, hle, heq⟩ := h e he
  exact ⟨x, List.mem_append_left _ hx, hle, heq⟩

theorem matching_append (rows new : List OutboxEntry) :
    matching q (rows ++ new) = matching q rows ++ matching q new :=
  List.filter_append ..

theorem inv_append (hs : Inv D cfg q s sent) {r : OutboxEntry} (hr : Appendable D s.rows r) :
    Inv D cfg q { s with rows := s.rows ++ [r] } sent where
  wellformed := hs.wellformed.append hr
  accepted := hs.accepted
  request := hs.request
  start := hs.start
  segment := by
    -- a new row is beyond the cursor of the task if and only if it is beyond the start
    have hsame : beyond (·.id) q.afterOutboxSeq.toNat (matching q [r]) =
        beyond (·.id) s.stream.cursor (matching q [r]) := by
      have hpos := hs.accepted.2.2
      rcases hs.last with ⟨-, hcur⟩ | ⟨front, x, rfl, hx⟩
      · rw [← hcur, Int.toNat_natCast]
      · obtain ⟨hrow, -, hlt⟩ := hs.mem_wanted (r := x) (by simp)
        have hnew := hr.1 x hrow
        unfold beyond
        refine List.filter_congr fun y hy => ?_
        rw [List.mem_singleton.1 (mem_matching.1 hy).1]
        simp only [decide_eq_decide]
        omega
    have hseg := hs.segment
    unfold wanted at hseg ⊢
    rw [matching_append, beyond_append, beyond_append, hseg, hsame, List.append_assoc]
  handed := hs.handed
  last := hs.last
  task := by
    have htask := hs.task
    cases hph : s.stream.task with
    | fetching => rw [hph] at htask; exact ⟨htask.1, htask.2.append r⟩
    | sending page =>
      rw [hph] at htask
      refine ⟨htask.1, htask.2.1.append r, ?_⟩
      rw [matching_append]
      exact htask.2.2.append _
    | reserving id event page =>
      rw [hph] at htask
      refine ⟨htask.1, htask.2.1.append r, ?_⟩
      rw [matching_append]
      exact htask.2.2.append _
    | exhausting => rw [hph] at htask; exact htask
    | failing status => rw [hph] at htask; exact htask
    | stopped => rw [hph] at htask; exact htask

theorem inv_fetch (hs : Inv D cfg q s sent) (hph : s.stream.task = .fetching)
    {page : List (ℕ × PbEvent)} (hpage : Page D (matching q s.rows) s.stream.cursor page) :
    Inv D cfg q { s with stream := { s.stream with task := .sending page } } sent := by
  have htask := hs.task
  rw [hph] at htask
  obtain ⟨⟨hall, hslots, hmoved⟩, hseen⟩ := htask
  exact hs.with_stream rfl rfl rfl ⟨⟨hall, hslots, hmoved⟩, hseen, hpage⟩

/-- With distinct event ids, an event beyond the cursor was not seen before. -/
theorem Wellformed.not_seen (h : Wellformed D rows) {bound : ℕ} {seen : Finset String}
    (hseen : SeenUpTo rows bound seen) {r : OutboxEntry} (hr : r ∈ rows) (hlt : bound < r.id)
    {e : PbEvent} (he : eventFromRow D r = .ok e) : e.eventId ∉ seen := by
  intro hmem
  obtain ⟨x, hx, hle, heq⟩ := hseen _ hmem
  rw [eventId_of_eventFromRow he] at heq
  have hnd : (rows.map (·.eventId)).Nodup := by
    rw [List.Nodup, List.pairwise_map]
    exact h.distinct
  rw [List.inj_on_of_nodup_map hnd hx hr heq] at hle
  omega

/-- The set after the event was seen, which may have been cleared. -/
theorem SeenUpTo.see {bound : ℕ} {seen : Finset String} (h : SeenUpTo rows bound seen)
    {r : OutboxEntry} (hr : r ∈ rows) (hlt : bound < r.id) {e : PbEvent}
    (he : eventFromRow D r = .ok e) :
    SeenUpTo rows r.id
      (if (insert e.eventId seen).card > 4096 then ∅ else insert e.eventId seen) := by
  intro x hx
  split_ifs at hx with hcard
  · simp at hx
  · rcases Finset.mem_insert.1 hx with rfl | hx
    · exact ⟨r, hr, Nat.le_refl _, (eventId_of_eventFromRow he).symm⟩
    · obtain ⟨y, hy, hle, heq⟩ := h x hx
      exact ⟨y, hy, by omega, heq⟩

/-- The loop over a page on an event that was not seen. -/
theorem next_of_new {st : Stream} {id : ℕ} {event : PbEvent} {page : List (ℕ × PbEvent)}
    (hnew : event.eventId ∉ st.seen) :
    st.next cfg ((id, event) :: page) =
      { st with
        seen := if (insert event.eventId st.seen).card > 4096 then ∅ else insert event.eventId st.seen
        task := if st.freeSlots cfg ≤ 1 then .exhausting else .reserving id event page } := by
  by_cases hfree : st.freeSlots cfg ≤ 1
  · simp only [Stream.freeSlots] at hfree
    simp [Stream.next, hnew, Stream.freeSlots, hfree]
  · simp only [Stream.freeSlots] at hfree
    simp [Stream.next, hnew, Stream.freeSlots, hfree]

theorem inv_next (hcap : 2 ≤ cfg.capacity) (hs : Inv D cfg q s sent)
    {page : List (ℕ × PbEvent)} (hph : s.stream.task = .sending page) :
    Inv D cfg q { s with stream := s.stream.next cfg page } sent := by
  have htask := hs.task
  rw [hph] at htask
  obtain ⟨⟨hall, hslots, hmoved⟩, hseen, hpage⟩ := htask
  cases page with
  | nil => exact hs.with_stream rfl rfl rfl ⟨⟨hall, hslots, hmoved⟩, hseen⟩
  | cons p page =>
    obtain ⟨id, event⟩ := p
    obtain ⟨r, rfl, he, hrest, -⟩ := hpage.cons (hs.wellformed.matching_sorted q)
    have hbeyond : r ∈ beyond (·.id) s.stream.cursor (matching q s.rows) := by
      rw [hrest]; exact List.mem_cons_self ..
    obtain ⟨hmatch, hlt⟩ := mem_beyond.1 hbeyond
    have hrow := (mem_matching.1 hmatch).1
    rw [next_of_new (hs.wellformed.not_seen hseen hrow hlt he)]
    by_cases hfree : s.stream.freeSlots cfg ≤ 1
    · -- some event of this stream is still in the channel
      have hsome : s.stream.items ≠ [] := by
        intro hnil
        rw [Stream.freeSlots, (List.append_eq_nil_iff.1 hnil).2] at hfree
        simp only [List.length_nil] at hfree
        omega
      rw [if_pos hfree]
      exact hs.with_stream rfl rfl rfl ⟨⟨hall, hslots, hmoved⟩, hmoved hsome⟩
    · rw [if_neg hfree]
      rw [Stream.freeSlots] at hfree
      refine hs.with_stream rfl rfl rfl ⟨⟨hall, ?_, hmoved⟩, hseen.see hrow hlt he, hpage⟩
      simp only
      omega

theorem inv_reserve (hs : Inv D cfg q s sent) {id : ℕ} {event : PbEvent}
    {page : List (ℕ × PbEvent)} (hph : s.stream.task = .reserving id event page) :
    ∃ r, Inv D cfg q
      { s with
        stream := { s.stream with
          channel := s.stream.channel ++ [.ok event], cursor := id, task := .sending page } }
      (sent ++ [r]) := by
  have htask := hs.task
  rw [hph] at htask
  obtain ⟨⟨hall, hslots, hmoved⟩, hseen, hpage⟩ := htask
  obtain ⟨r, rfl, he, hrest, hpage'⟩ := hpage.cons (hs.wellformed.matching_sorted q)
  have hbeyond : r ∈ beyond (·.id) s.stream.cursor (matching q s.rows) := by
    rw [hrest]; exact List.mem_cons_self ..
  have hlt : s.stream.cursor < r.id := (mem_beyond.1 hbeyond).2
  obtain ⟨hstart, hcur⟩ := hs.start
  have hitems : s.stream.received ++ (s.stream.channel ++ [.ok event]) = s.stream.items ++ [.ok event] :=
    (List.append_assoc ..).symm
  refine ⟨r, hs.wellformed, hs.accepted, hs.request, ⟨hstart, by simp only; omega⟩, ?_, ?_,
    Or.inr ⟨sent, r, rfl, rfl⟩, ?_⟩
  · rw [hs.segment, hrest, List.append_assoc]
    rfl
  · have hev : eventsOf (s.stream.items ++ [.ok event]) = eventsOf s.stream.items ++ [event] :=
      eventsOf_append ..
    simp only [Stream.items] at hev ⊢
    rw [← List.append_assoc, hev, ← List.append_assoc]
    exact hs.handed.append (delivers_singleton he)
  · refine ⟨⟨?_, ?_, fun _ => by simp only; omega⟩, hseen, hpage'⟩
    · simp only [Stream.items]
      rw [hitems]
      exact hall.append fun x hx => ⟨event, List.mem_singleton.1 hx⟩
    · simp only [List.length_append, List.length_singleton]
      omega

/-- A last status ends the stream. -/
theorem inv_status (hs : Inv D cfg q s sent) {status : Status} (hall : AllEvents s.stream.items)
    (hstatus : IsSqliteError cfg status ∨
      status = exhaustedAt s.stream.cursor ∧ s.stream.request.afterOutboxSeq < s.stream.cursor) :
    Inv D cfg q
      { s with
        stream := { s.stream with
          channel := s.stream.channel ++ [.error status], task := .stopped } } sent := by
  have hitems : s.stream.received ++ (s.stream.channel ++ [.error status]) =
      s.stream.items ++ [.error status] := (List.append_assoc ..).symm
  refine hs.with_stream rfl rfl ?_ ⟨s.stream.items, status, hitems, hall, hstatus⟩
  simp only [Stream.items] at hitems ⊢
  rw [hitems, eventsOf_append]
  exact List.append_nil _

theorem inv_recv (hs : Inv D cfg q s sent) {item : Item} {channel : List Item}
    (hch : s.stream.channel = item :: channel) :
    Inv D cfg q
      { s with
        stream := { s.stream with channel := channel, received := s.stream.received ++ [item] } }
      sent := by
  have hitems : s.stream.received ++ [item] ++ channel = s.stream.items := by
    simp [Stream.items, hch]
  have hopen : ∀ n, s.stream.Open cfg n →
      Stream.Open cfg
        { s.stream with channel := channel, received := s.stream.received ++ [item] } n := by
    rintro n ⟨hall, hslots, hmoved⟩
    rw [hch, List.length_cons] at hslots
    exact ⟨by rw [Stream.items, hitems]; exact hall, by simp only; omega,
      by rw [Stream.items, hitems]; exact hmoved⟩
  refine hs.with_stream rfl rfl (by rw [Stream.items, hitems]) ?_
  have htask := hs.task
  cases hph : s.stream.task with
  | fetching => rw [hph] at htask; exact ⟨hopen 1 htask.1, htask.2⟩
  | sending page => rw [hph] at htask; exact ⟨hopen 1 htask.1, htask.2⟩
  | reserving id event page => rw [hph] at htask; exact ⟨hopen 2 htask.1, htask.2⟩
  | exhausting => rw [hph] at htask; exact ⟨hopen 1 htask.1, htask.2⟩
  | failing status => rw [hph] at htask; exact ⟨hopen 1 htask.1, htask.2⟩
  | stopped =>
    rw [hph] at htask
    obtain ⟨front, status, hfront, hrest⟩ := htask
    exact ⟨front, status, hitems.trans hfront, hrest⟩

/-! ### Subscribing -/

/-- A stream at its start. -/
def Stream.started (q : Request) : Stream where
  request := q
  cursor := q.afterOutboxSeq.toNat
  seen := ∅
  task := .fetching
  channel := []
  received := []

theorem subscribeEvents_eq_ok {st : Stream} (h : subscribeEvents cfg rows q = .ok st) :
    (q.store ≠ "" ∧ cfg.hasDatabase q.store = true ∧ 0 ≤ q.afterOutboxSeq) ∧ st = .started q := by
  unfold subscribeEvents at h
  split_ifs at h with hstore hneg hdb hpos
  · split at h
    · cases h
    · cases h
      exact ⟨⟨hstore, by simpa using hdb, by omega⟩, rfl⟩
  · cases h
    exact ⟨⟨hstore, by simpa using hdb, by omega⟩, rfl⟩

/-- A cursor at the id of a retained row of the store is not too old. -/
theorem oldestAvailableCursor_of_mem {r : OutboxEntry} (hr : r ∈ rows) :
    oldestAvailableCursor rows r.store r.id = none := by
  unfold oldestAvailableCursor
  split
  · rename_i oldest hmin
    have hle : oldest ≤ r.id := by
      refine (List.min?_eq_some_iff.1 hmin).2 r.id (List.mem_map.2 ⟨r, ?_, rfl⟩)
      simp [hr]
    rw [if_neg (by omega)]
  · rfl

theorem exhaustedAt_inj {c d : ℕ} (h : exhaustedAt c = exhaustedAt d) : c = d := by
  have htext := congrArg Status.message h
  simp only [exhaustedAt, String.append_right_inj] at htext
  have hread := congrArg (fun text : String => Nat.ofDigitChars 10 text.toList 0) htext
  simpa using hread

/-- A client that was told to resume from a cursor has received all of its stream, and the cursor is
the one of the task. -/
theorem Inv.cut (hs : Inv D cfg q s sent) {c : ℕ}
    (h : s.stream.lastStatus = some (exhaustedAt c)) :
    s.stream.channel = [] ∧ c = s.stream.cursor ∧
      s.stream.request.afterOutboxSeq < s.stream.cursor := by
  obtain ⟨front, hrec⟩ : ∃ front, s.stream.received = front ++ [.error (exhaustedAt c)] := by
    unfold Stream.lastStatus at h
    split at h
    · rename_i status hlast
      cases h
      exact List.getLast?_eq_some_iff.1 hlast
    · cases h
  have hmem : (.error (exhaustedAt c) : Item) ∈ s.stream.items := by
    simp [Stream.items, hrec]
  have hnot : ¬ AllEvents s.stream.items := by
    intro hall
    obtain ⟨e, he⟩ := hall _ hmem
    cases he
  have htask := hs.task
  cases hph : s.stream.task with
  | fetching => rw [hph] at htask; exact absurd htask.1.events hnot
  | sending page => rw [hph] at htask; exact absurd htask.1.events hnot
  | reserving id event page => rw [hph] at htask; exact absurd htask.1.events hnot
  | exhausting => rw [hph] at htask; exact absurd htask.1.events hnot
  | failing status => rw [hph] at htask; exact absurd htask.1.events hnot
  | stopped =>
    rw [hph] at htask
    obtain ⟨front', status, hitems, hall, hstatus⟩ := htask
    rw [Stream.items, hrec] at hitems
    -- the status is the last item of all, so nothing is left in the channel
    rcases List.eq_nil_or_concat s.stream.channel with hch | ⟨channel, x, hch⟩
    · rw [hch, List.append_nil] at hitems
      obtain ⟨rfl, heq⟩ := List.append_inj' hitems rfl
      simp only [List.cons.injEq, Except.error.injEq, and_true] at heq
      subst heq
      rcases hstatus with ⟨text, hsql⟩ | ⟨hcur, hlt⟩
      · exact absurd (congrArg Status.code hsql) (by simp [exhaustedAt])
      · exact ⟨hch, exhaustedAt_inj hcur, hlt⟩
    · rw [hch, List.concat_eq_append, ← List.append_assoc] at hitems
      obtain ⟨rfl, -⟩ := List.append_inj' hitems rfl
      obtain ⟨e, he⟩ := hall (.error (exhaustedAt c)) (by simp)
      cases he

theorem inv_started (hrows : Wellformed D rows) {st : Stream} (hcap : 2 ≤ cfg.capacity)
    (h : subscribeEvents cfg rows q = .ok st) : Inv D cfg q ⟨rows, st, []⟩ [] := by
  obtain ⟨hacc, rfl⟩ := subscribeEvents_eq_ok h
  have hcur : (q.afterOutboxSeq.toNat : ℤ) = q.afterOutboxSeq := Int.toNat_of_nonneg hacc.2.2
  refine ⟨hrows, hacc, rfl, ⟨le_rfl, ?_⟩, rfl, rfl, Or.inl ⟨rfl, hcur⟩, ⟨?_, ?_, ?_⟩, ?_⟩
  · exact hcur.ge
  · simp [AllEvents, Stream.items, Stream.started]
  · simp only [Stream.started, List.length_nil]
    omega
  · simp [Stream.items, Stream.started]
  · simp [SeenUpTo, Stream.started]

/-- The cursor that a cut stream names is accepted. -/
theorem Inv.resumes (hs : Inv D cfg q s sent) {c : ℕ}
    (h : s.stream.lastStatus = some (exhaustedAt c)) :
    subscribeEvents cfg s.rows { s.stream.request with afterOutboxSeq := c } =
      .ok (.started { q with afterOutboxSeq := c }) := by
  obtain ⟨-, rfl, hlt⟩ := hs.cut h
  obtain ⟨hstore, hdb, hpos⟩ := hs.accepted
  obtain ⟨hstart, -⟩ := hs.start
  rcases hs.last with ⟨-, hcur⟩ | ⟨front, r, rfl, hr⟩
  · omega
  · obtain ⟨hrow, hmatch, -⟩ := hs.mem_wanted (r := r) (by simp)
    have hstore' : r.store = q.store := (of_decide_eq_true hmatch).1
    have hold : oldestAvailableCursor s.rows q.store s.stream.cursor = none := by
      rw [← hstore', ← hr]
      exact oldestAvailableCursor_of_mem hrow
    rw [hs.request]
    have hnn : ¬ (s.stream.cursor : ℤ) < 0 := by omega
    simp [subscribeEvents, hstore, hdb, hnn, hold, Stream.started]

theorem inv_resume (hcap : 2 ≤ cfg.capacity) (hs : Inv D cfg q s sent) {c : ℕ}
    (h : s.stream.lastStatus = some (exhaustedAt c)) :
    Inv D cfg q
      { s with
        stream := .started { q with afterOutboxSeq := c }
        earlier := s.earlier ++ eventsOf s.stream.received } sent := by
  obtain ⟨hch, rfl, hlt⟩ := hs.cut h
  obtain ⟨hstart, -⟩ := hs.start
  have hhanded := hs.handed
  rw [Stream.items, hch, List.append_nil] at hhanded
  refine ⟨hs.wellformed, hs.accepted, rfl, ⟨?_, ?_⟩, ?_, ?_, ?_, ⟨?_, ?_, ?_⟩, ?_⟩
  · simp only [Stream.started]
    omega
  · simp [Stream.started]
  · simpa [Stream.started] using hs.segment
  · simpa [Stream.started, Stream.items, eventsOf] using hhanded
  · simpa [Stream.started] using hs.last
  · simp [AllEvents, Stream.items, Stream.started]
  · simp only [Stream.started, List.length_nil]
    omega
  · simp [Stream.items, Stream.started]
  · simp [SeenUpTo, Stream.started]

theorem inv_step (hcap : 2 ≤ cfg.capacity) (hs : Inv D cfg q s sent) {a : Action}
    (h : step D cfg s a = some s') : ∃ sent', Inv D cfg q s' sent' := by
  have htask := hs.task
  cases a with
  | append r =>
    simp only [step] at h
    split_ifs at h with hr
    cases h
    exact ⟨sent, inv_append hs hr⟩
  | fetch =>
    simp only [step] at h
    split at h
    · rename_i hph
      obtain ⟨page, hfetch, htake⟩ :=
        fetchEvents_ok hs.wellformed s.stream.request s.stream.cursor 128
      have hpage := page_of_take htake
      rw [hfetch] at h
      simp only at h
      split_ifs at h
      · cases h
        exact ⟨sent, hs⟩
      · cases h
        rw [hs.request] at hpage
        exact ⟨sent, inv_fetch hs hph hpage⟩
    · cases h
  | fetchFails text =>
    simp only [step] at h
    split at h
    · rename_i hph
      rw [hph] at htask
      obtain ⟨⟨hall, hslots, hmoved⟩, -⟩ := htask
      cases h
      exact ⟨sent, hs.with_stream rfl rfl rfl ⟨⟨hall, hslots, hmoved⟩, text, rfl⟩⟩
    · cases h
  | next =>
    simp only [step] at h
    split at h
    · rename_i page hph
      cases h
      exact ⟨sent, inv_next hcap hs hph⟩
    · cases h
  | reserve =>
    simp only [step] at h
    split at h
    · rename_i id event page hph
      rw [hph] at htask
      have hslots := htask.1.slots
      rw [if_neg (by unfold Stream.freeSlots; omega)] at h
      cases h
      obtain ⟨r, hr⟩ := inv_reserve hs hph
      exact ⟨sent ++ [r], hr⟩
    · cases h
  | exhaust =>
    simp only [step] at h
    split at h
    · rename_i hph
      rw [hph] at htask
      have hslots := htask.1.slots
      -- the reserved slot is still free
      rw [if_neg (by unfold Stream.freeSlots; omega)] at h
      cases h
      exact ⟨sent, inv_status hs htask.1.events (Or.inr ⟨rfl, htask.2⟩)⟩
    · cases h
  | fail =>
    simp only [step] at h
    split at h
    · rename_i status hph
      rw [hph] at htask
      split_ifs at h
      cases h
      exact ⟨sent, inv_status hs htask.1.events (Or.inl htask.2)⟩
    · cases h
  | recv =>
    simp only [step] at h
    split at h
    · rename_i item channel hch
      cases h
      exact ⟨sent, inv_recv hs hch⟩
    · cases h
  | resume c =>
    simp only [step] at h
    split_ifs at h with hlast
    rw [hs.resumes hlast] at h
    cases h
    exact ⟨sent, inv_resume hcap hs hlast⟩

end EventStream

end Ixmati
