import Ixmati.Api.EventStream
import Ixmati.Lib.Potential

/-!
# Resuming the event stream

What a client of `subscribe_events` can rely on over all its subscriptions, whatever the filter, its own
speed and the rows that the writer appends meanwhile.  What it has received is an initial segment of the
matching rows beyond its start cursor; a stream that was cut says so, and the cursor it names is accepted.

Nor does it wait for ever: while rows are left the task or the client can go on, and each of their steps
lessens what is left to do, which only the writer adds to.

* `EventStream.left` : what is left to do; the rows beyond the cursor count most, then a stream that may
  have to be resumed, then the items in the channel and where the task is;
* `EventStream.Works` : the steps that get on, of the task and the client;
* `EventStream.stream_is_resumable` : all of it, for every state that can be reached.
-/

namespace Ixmati

namespace EventStream

variable {D : Deps} {cfg : Config} {q : Request} {s s' : State} {sent : List OutboxEntry}

/-! ### What is left to do -/

/-- The rows that the task has not handed out. -/
def ahead (q : Request) (s : State) : List OutboxEntry :=
  beyond (·.id) s.stream.cursor (matching q s.rows)

/-- The steps of the task and the client that get on; a fetch that finds no row is not one. -/
def Works (q : Request) (s : State) : Action → Prop
  | .append _ => False
  | .fetch => ahead q s ≠ []
  | .fetchFails _ => False
  | _ => True

/-- How far the task is from its next event, or from its end. -/
def Task.rank : Task → ℕ
  | .sending [] => 5
  | .fetching => 4
  | .sending (_ :: _) => 3
  | .reserving _ _ _ => 2
  | .exhausting => 2
  | .failing _ => 2
  | .stopped => 0

/-- What is left to do.  A stream that has moved may be cut, and is then resumed. -/
def left (q : Request) (s : State) : ℕ :=
  10 * (ahead q s).length + (if s.stream.request.afterOutboxSeq < s.stream.cursor then 5 else 0) +
    s.stream.channel.length + s.stream.task.rank

/-- What a step of the task or the client changes that does not move the cursor. -/
theorem left_with_stream {st : Stream} (hreq : st.request = s.stream.request)
    (hcur : st.cursor = s.stream.cursor) :
    left q { s with stream := st } = 10 * (ahead q s).length +
      (if s.stream.request.afterOutboxSeq < s.stream.cursor then 5 else 0) + st.channel.length +
        st.task.rank := by
  unfold left ahead
  rw [hreq, hcur]

theorem Task.rank_sending_le (page : List (ℕ × PbEvent)) : (Task.sending page).rank ≤ 5 := by
  cases page with
  | nil => exact Nat.le_refl 5
  | cons p page => exact Nat.le_add_right 3 2

/-- A page that a fetch returns begins with the first row that is left. -/
theorem Inv.fetches (hs : Inv D cfg q s sent) (hph : s.stream.task = .fetching) {r : OutboxEntry}
    {rest : List OutboxEntry} (hahead : ahead q s = r :: rest) :
    ∃ e page, eventFromRow D r = .ok e ∧
      step D cfg s .fetch =
        some { s with stream := { s.stream with task := .sending ((r.id, e) :: page) } } := by
  obtain ⟨page, hfetch, htake⟩ := fetchEvents_ok hs.wellformed s.stream.request s.stream.cursor 128
  have hrows : beyond (·.id) s.stream.cursor (matching s.stream.request s.rows) = r :: rest := by
    rw [hs.request]
    exact hahead
  rw [hrows] at htake
  cases page with
  | nil => simp at htake
  | cons p page =>
    obtain ⟨id, e⟩ := p
    rw [List.take_succ_cons, List.map_cons, List.map_cons, List.cons.injEq, Prod.mk.injEq] at htake
    obtain ⟨⟨rfl, he⟩, -⟩ := htake
    refine ⟨e, page, he, ?_⟩
    simp [step, hph, hfetch]

/-- The next event of a page was not seen before. -/
theorem Inv.nexts (hs : Inv D cfg q s sent) {id : ℕ} {e : PbEvent} {page : List (ℕ × PbEvent)}
    (hph : s.stream.task = .sending ((id, e) :: page)) :
    ∃ seen, s.stream.next cfg ((id, e) :: page) =
      { s.stream with
        seen := seen
        task := if s.stream.freeSlots cfg ≤ 1 then .exhausting else .reserving id e page } := by
  have htask := hs.task
  rw [hph] at htask
  obtain ⟨-, hseen, hpage⟩ := htask
  obtain ⟨r, rfl, he, hrest, -⟩ := hpage.cons (hs.wellformed.matching_sorted q)
  have hbeyond : r ∈ beyond (·.id) s.stream.cursor (matching q s.rows) := by
    rw [hrest]
    exact List.mem_cons_self ..
  obtain ⟨hmatch, hlt⟩ := mem_beyond.1 hbeyond
  exact ⟨_, next_of_new (hs.wellformed.not_seen hseen (mem_matching.1 hmatch).1 hlt he)⟩

/-- An event that is handed out takes its row from those that are left. -/
theorem Inv.ahead_reserve (hs : Inv D cfg q s sent) {id : ℕ} {e : PbEvent}
    {page : List (ℕ × PbEvent)} (hph : s.stream.task = .reserving id e page) :
    (ahead q s).length = (beyond (·.id) id (matching q s.rows)).length + 1 := by
  have htask := hs.task
  rw [hph] at htask
  obtain ⟨r, rfl, -, hrest, -⟩ := htask.2.2.cons (hs.wellformed.matching_sorted q)
  rw [ahead, hrest, List.length_cons]

/-- **Each step that gets on leaves less to do.** -/
theorem Inv.left_lt (hs : Inv D cfg q s sent) {a : Action} (hw : Works q s a)
    (h : step D cfg s a = some s') : left q s' < left q s := by
  cases a with
  | append r => exact hw.elim
  | fetchFails text => exact hw.elim
  | fetch =>
    cases hph : s.stream.task with
    | fetching =>
      obtain ⟨r, rest, hahead⟩ := List.exists_cons_of_ne_nil hw
      obtain ⟨e, page, -, hstep⟩ := hs.fetches hph hahead
      obtain rfl := Option.some.inj (hstep.symm.trans h)
      rw [left_with_stream rfl rfl, left, hph]
      exact Nat.lt_succ_self _
    | _ => simp [step, hph] at h
  | next =>
    cases hph : s.stream.task with
    | sending page =>
      simp only [step, hph] at h
      obtain rfl := Option.some.inj h
      cases page with
      | nil =>
        rw [Stream.next, left_with_stream rfl rfl, left, hph]
        exact Nat.lt_succ_self _
      | cons p page =>
        obtain ⟨id, e⟩ := p
        obtain ⟨seen, hnext⟩ := hs.nexts hph
        rw [hnext, left_with_stream rfl rfl, left, hph]
        by_cases hfree : s.stream.freeSlots cfg ≤ 1
        · rw [if_pos hfree]
          exact Nat.lt_succ_self _
        · rw [if_neg hfree]
          exact Nat.lt_succ_self _
    | _ => simp [step, hph] at h
  | reserve =>
    cases hph : s.stream.task with
    | reserving id e page =>
      have hlen := hs.ahead_reserve hph
      have hrank := Task.rank_sending_le page
      simp only [step, hph] at h
      split_ifs at h with hfull
      · obtain rfl := Option.some.inj h
        rw [left_with_stream rfl rfl, left, hph]
        exact Nat.lt_add_of_pos_right (Nat.zero_lt_two)
      · -- the row that is handed out pays for all that may come of it
        obtain rfl := Option.some.inj h
        have hbefore : (Task.reserving id e page).rank = 2 := rfl
        rw [left, left, hlen, hph, hbefore, ahead, List.length_append, List.length_singleton]
        dsimp only
        split_ifs <;> omega
    | _ => simp [step, hph] at h
  | exhaust =>
    cases hph : s.stream.task with
    | exhausting =>
      simp only [step, hph] at h
      split_ifs at h
      · obtain rfl := Option.some.inj h
        rw [left_with_stream rfl rfl, left, hph]
        exact Nat.lt_add_of_pos_right (Nat.zero_lt_two)
      · obtain rfl := Option.some.inj h
        rw [left_with_stream rfl rfl, left, hph, List.length_append, List.length_singleton]
        exact Nat.lt_succ_self _
    | _ => simp [step, hph] at h
  | fail =>
    cases hph : s.stream.task with
    | failing status =>
      simp only [step, hph] at h
      split_ifs at h
      obtain rfl := Option.some.inj h
      rw [left_with_stream rfl rfl, left, hph, List.length_append, List.length_singleton]
      exact Nat.lt_succ_self _
    | _ => simp [step, hph] at h
  | recv =>
    cases hch : s.stream.channel with
    | nil => simp [step, hch] at h
    | cons item channel =>
      simp only [step, hch] at h
      obtain rfl := Option.some.inj h
      have hleft := @left_with_stream q s
        { s.stream with channel := channel, received := s.stream.received ++ [item] } rfl rfl
      rw [hleft, left, hch, List.length_cons]
      dsimp only
      omega
  | resume c =>
    simp only [step] at h
    split_ifs at h with hlast
    rw [hs.resumes hlast] at h
    obtain rfl := Option.some.inj h
    obtain ⟨hch, rfl, hlt⟩ := hs.cut hlast
    -- the new stream has not moved yet
    have hstart : ¬ (s.stream.cursor : ℤ) < s.stream.cursor := lt_irrefl _
    have hnew : (Task.fetching).rank = 4 := rfl
    simp only [left, ahead, Stream.started, Int.toNat_natCast, List.length_nil, hlt, hstart, hnew,
      if_true, if_false]
    omega

/-- The task or the client can go on, unless everything was received or SQLite failed a fetch. -/
theorem Inv.goesOn (hs : Inv D cfg q s sent) :
    (s.stream.channel = [] ∧ ahead q s = []) ∨
      (∃ status, s.stream.lastStatus = some status ∧ IsSqliteError cfg status) ∨
      ∃ a, Works q s a ∧ (step D cfg s a).isSome = true := by
  have htask := hs.task
  have hfree : s.stream.Open cfg 1 → s.stream.freeSlots cfg ≠ 0 := by
    rintro ⟨-, hslots, -⟩
    rw [Stream.freeSlots]
    omega
  cases hch : s.stream.channel with
  | cons item channel => exact Or.inr (Or.inr ⟨.recv, trivial, by simp [step, hch]⟩)
  | nil =>
    cases hph : s.stream.task with
    | fetching =>
      cases hahead : ahead q s with
      | nil => exact Or.inl ⟨rfl, rfl⟩
      | cons r rest =>
        obtain ⟨e, page, -, hstep⟩ := hs.fetches hph hahead
        exact Or.inr (Or.inr ⟨.fetch, by simp [Works, hahead], by rw [hstep]; rfl⟩)
    | sending page => exact Or.inr (Or.inr ⟨.next, trivial, by simp [step, hph]⟩)
    | reserving id e page =>
      exact Or.inr (Or.inr ⟨.reserve, trivial, by simp only [step, hph]; split_ifs <;> rfl⟩)
    | exhausting =>
      exact Or.inr (Or.inr ⟨.exhaust, trivial, by simp only [step, hph]; split_ifs <;> rfl⟩)
    | failing status =>
      rw [hph] at htask
      exact Or.inr (Or.inr ⟨.fail, trivial, by simp [step, hph, hfree htask.1]⟩)
    | stopped =>
      rw [hph] at htask
      obtain ⟨front, status, hitems, -, hstatus⟩ := htask
      rw [Stream.items, hch, List.append_nil] at hitems
      have hlast : s.stream.lastStatus = some status := by
        rw [Stream.lastStatus, hitems, List.getLast?_concat]
      rcases hstatus with hsql | ⟨rfl, -⟩
      · exact Or.inr (Or.inl ⟨status, hlast, hsql⟩)
      · exact Or.inr (Or.inr ⟨.resume s.stream.cursor, trivial, by simp [step, hlast, hs.resumes hlast]⟩)

/-- With room in the channel the next row is fetched and its event is sent. -/
theorem Inv.handsOver (hs : Inv D cfg q s sent) (hph : s.stream.task = .fetching) {r : OutboxEntry}
    {rest : List OutboxEntry} (hahead : ahead q s = r :: rest) (hfree : 2 ≤ s.stream.freeSlots cfg) :
    ∃ e s', eventFromRow D r = .ok e ∧ runFrom (step D cfg) s [.fetch, .next, .reserve] = some s' ∧
      s'.stream.channel = s.stream.channel ++ [.ok e] ∧ s'.stream.cursor = r.id := by
  obtain ⟨e, page, he, hfetch⟩ := hs.fetches hph hahead
  obtain ⟨sent', hs'⟩ := inv_step (by unfold Stream.freeSlots at hfree; omega) hs hfetch
  obtain ⟨seen, hnext⟩ := hs'.nexts rfl
  have hroom : ¬ s.stream.freeSlots cfg ≤ 1 := by omega
  refine ⟨e, { s with stream := { s.stream with
    seen := seen, channel := s.stream.channel ++ [.ok e], cursor := r.id, task := .sending page } },
    he, ?_, rfl, rfl⟩
  have hnext' : step D cfg { s with stream := { s.stream with task := .sending ((r.id, e) :: page) } }
      .next = some { s with stream := { s.stream with
        seen := seen, task := .reserving r.id e page } } := by
    simp only [step]
    rw [hnext, if_neg]
    exact hroom
  refine runFrom_cons.2 ⟨_, hfetch, runFrom_cons.2 ⟨_, hnext', runFrom_cons.2 ⟨_, ?_, rfl⟩⟩⟩
  simp only [step]
  rw [if_neg]
  simp only [Stream.freeSlots] at hroom ⊢
  omega

/-- The steps that get on come to an end. -/
theorem Inv.length_le (hcap : 2 ≤ cfg.capacity) (hs : Inv D cfg q s sent) {as : List Action}
    (hw : StepsMeet (step D cfg) (Works q) s as) (h : runFrom (step D cfg) s as = some s') :
    as.length ≤ left q s := by
  have hcount : as.countP (fun _ => true) ≤ left q s := by
    refine countP_actions_le (I := fun s => ∃ sent, Inv D cfg q s sent) ?_ ?_ ⟨sent, hs⟩ hw h
    · rintro s a s' ⟨sent, hs⟩ - hstep
      exact inv_step hcap hs hstep
    · rintro s a s' ⟨sent, hs⟩ hwork hstep
      have hlt := hs.left_lt hwork hstep
      rw [if_pos rfl]
      omega
  rwa [List.countP_true] at hcount

/-! ### What a client can rely on -/

/-- What a client can rely on. -/
structure Resumable (D : Deps) (cfg : Config) (q : Request) (s : State) : Prop where
  /-- What was received is an initial segment of what was asked for. -/
  segment : ∃ got ahead, wanted q s.rows = got ++ ahead ∧ Delivers D got s.delivered
  /-- A client that has caught up has received everything. -/
  complete : s.stream.channel = [] → beyond (·.id) s.stream.cursor (matching q s.rows) = [] →
    Delivers D (wanted q s.rows) s.delivered
  /-- A stream that has stopped ends with a status, and no other item of it is one. -/
  ended : s.stream.task = .stopped → s.stream.Ended cfg
  /-- The cursor that a cut stream names is the id of the last event received, it is beyond the one
  that the stream started from, and it can be resumed from. -/
  resumes : ∀ c, s.stream.lastStatus = some (exhaustedAt c) →
    (∃ got r ahead, wanted q s.rows = got ++ r :: ahead ∧ Delivers D (got ++ [r]) s.delivered ∧
      r.id = c) ∧
    s.stream.request.afterOutboxSeq < c ∧ ∃ s', step D cfg s (.resume c) = some s'
  /-- While a row is left, a fetch finds it, and if the channel has room its event is sent. -/
  handsOver : ∀ r rest, s.stream.task = .fetching → ahead q s = r :: rest →
    2 ≤ s.stream.freeSlots cfg →
      ∃ e s', eventFromRow D r = .ok e ∧
        runFrom (step D cfg) s [.fetch, .next, .reserve] = some s' ∧
        s'.stream.channel = s.stream.channel ++ [.ok e] ∧ s'.stream.cursor = r.id
  /-- Until the client has received everything, it or the task can go on, if SQLite failed no fetch. -/
  goesOn : Delivers D (wanted q s.rows) s.delivered ∨
    (∃ status, s.stream.lastStatus = some status ∧ IsSqliteError cfg status) ∨
    ∃ a, Works q s a ∧ (step D cfg s a).isSome = true
  /-- They cannot go on for ever with the rows that are there. -/
  ends : ∀ as s', StepsMeet (step D cfg) (Works q) s as → runFrom (step D cfg) s as = some s' →
    as.length ≤ left q s

/-- A client that has caught up has received everything. -/
theorem Inv.caughtUp (hs : Inv D cfg q s sent) (hch : s.stream.channel = [])
    (hahead : ahead q s = []) : Delivers D (wanted q s.rows) s.delivered := by
  have hhanded := hs.handed
  have hsegment := hs.segment
  rw [← ahead, hahead, List.append_nil] at hsegment
  rw [Stream.items, hch, List.append_nil] at hhanded
  rw [hsegment]
  exact hhanded

theorem Inv.resumable (hcap : 2 ≤ cfg.capacity) (hs : Inv D cfg q s sent) :
    Resumable D cfg q s where
  segment := by
    have hhanded := hs.handed
    rw [Stream.items, eventsOf_append, ← List.append_assoc] at hhanded
    obtain ⟨got, buffered, rfl, hgot, -⟩ := hhanded.split
    exact ⟨got, _, by rw [hs.segment, List.append_assoc], hgot⟩
  complete := hs.caughtUp
  ended := by
    intro hph
    have htask := hs.task
    rw [hph] at htask
    exact htask
  resumes := by
    intro c hlast
    obtain ⟨hch, rfl, hlt⟩ := hs.cut hlast
    refine ⟨?_, hlt, ?_⟩
    · have hhanded := hs.handed
      rw [Stream.items, hch, List.append_nil] at hhanded
      obtain ⟨hstart, -⟩ := hs.start
      rcases hs.last with ⟨-, hcur⟩ | ⟨front, r, rfl, hr⟩
      · omega
      · refine ⟨front, r, beyond (·.id) s.stream.cursor (matching q s.rows), ?_, hhanded, hr⟩
        rw [hs.segment, List.append_assoc]
        rfl
    · simp only [step, hlast, if_true, hs.resumes hlast]
      exact ⟨_, rfl⟩
  handsOver _ _ hph hahead hfree := hs.handsOver hph hahead hfree
  goesOn := hs.goesOn.imp_left fun hcaught => hs.caughtUp hcaught.1 hcaught.2
  ends _ _ hw h := hs.length_le hcap hw h

/-- **The event stream is resumable.**  Whatever the filter, the speed of the client and the rows
that the writer appends meanwhile: over all its subscriptions the client receives, in id order and
without gap or repetition, an initial segment of the matching rows beyond its start cursor, and all
of them once it has caught up.  No stream ends without a status, and the cursor that a cut stream
names is the id of the last event received, and is accepted.  A row that is left is fetched and sent if
the channel has room; with the rows that are there the task and the client can go on until everything
was received, and not for ever. -/
theorem stream_is_resumable (D : Deps) (cfg : Config) (hcap : 2 ≤ cfg.capacity)
    (rows : List OutboxEntry) (hrows : Wellformed D rows) (q : Request) (stream : Stream)
    (hsub : subscribeEvents cfg rows q = .ok stream) (s : State)
    (hreach : Reachable (step D cfg) ⟨rows, stream, []⟩ s) : Resumable D cfg q s := by
  obtain ⟨sent, hs⟩ : ∃ sent, Inv D cfg q s sent :=
    hreach.invariant (I := fun s => ∃ sent, Inv D cfg q s sent)
      ⟨[], inv_started hrows hcap hsub⟩ fun _ _ _ ⟨_, hs⟩ h => inv_step hcap hs h
  exact hs.resumable hcap

/-- The event of the `id`-th upsert of `user/1`. -/
def sampleEvent (id : ℕ) : EventEnvelope where
  eventId := "e" ++ toString id
  eventType := "user.creado"
  store := "main"
  entity := "user"
  key := "1"
  version := UInt64.ofNat id
  occurredAt := "2026-01-01T00:00:00.000Z"
  outboxSeq := UInt64.ofNat id
  payload := .object [("name", .string "Ana")]

/-- Crates that read the documents of the first two events back. -/
def sampleDeps : Deps := .compact [(sampleEvent 1).toJson, (sampleEvent 2).toJson] ""

/-- The rows of the first two events. -/
def sampleRows : List OutboxEntry :=
  [Outbox.stored sampleDeps 1 (sampleEvent 1), Outbox.stored sampleDeps 2 (sampleEvent 2)]

/-- The smallest channel that is allowed. -/
def sampleConfig : Config where
  capacity := 2
  hasDatabase store := store == "main"
  errorText _ := ""

/-- A subscription to all events of the store. -/
def sampleRequest : Request := ⟨"main", "", "", 0⟩

/-- The task finds room for the first event only, the client receives it and the cursor, and
subscribes again. -/
theorem stream_is_resumable_of_a_slow_client :
    Wellformed sampleDeps sampleRows ∧
      subscribeEvents sampleConfig sampleRows sampleRequest = .ok (.started sampleRequest) ∧
      ∃ s, Reachable (step sampleDeps sampleConfig) ⟨sampleRows, .started sampleRequest, []⟩ s ∧
        s.stream.lastStatus = some (exhaustedAt 1) ∧
        Resumable sampleDeps sampleConfig sampleRequest s := by
  have hrows : Wellformed sampleDeps sampleRows :=
    ⟨by decide +kernel, by decide +kernel, by decide +kernel⟩
  have hrun : (runFrom (step sampleDeps sampleConfig) ⟨sampleRows, .started sampleRequest, []⟩
      [.fetch, .next, .reserve, .next, .exhaust, .recv, .recv]).map
      (fun s => s.stream.lastStatus) = some (some (exhaustedAt 1)) := by
    decide +kernel
  obtain ⟨s, hreach, hlast⟩ := exists_reachable hrun
  exact ⟨hrows, rfl, s, hreach, hlast,
    stream_is_resumable sampleDeps sampleConfig (by decide) sampleRows hrows sampleRequest
      (.started sampleRequest) rfl s hreach⟩

end EventStream

end Ixmati
