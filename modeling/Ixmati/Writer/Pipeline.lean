import Ixmati.Lib.Simulation
import Ixmati.Writer.Ingest
import Mathlib.Data.List.Forall2
import Ixmati.Writer.Publisher

/-!
# From command to event

`main.rs` runs the way in (`Ingest`) and the way out (`Publisher`) in one process, over one database.
Here they run side by side: each takes its own steps, the database that one leaves is the database
that the other goes on with, and the process dies as a whole.

* `Pipeline.reachable_publisher` : the way out alone sees a run of `Publisher`, in which the batches
  of the way in are its commits;
* `Announced` : row by row, the outbox holds the event of what `_idempotency` records;
* `Publisher.fromStore_of_publishes` : only rows of the own store are ever published;
* `Pipeline.endToEnd` : no command and no event is lost between the broker and the broker.
-/

namespace Ixmati

open WriteEngine

variable {D : Deps}

/-! ### The events of the recorded commands -/

/-- The outbox row holds the event of a command with `P` that the idempotency row was recorded for,
whether or not it was marked since. -/
def Announces (D : Deps) (P : WriteEnvelope → Prop) (r : IdempotencyRow) (o : OutboxEntry) : Prop :=
  ∃ a cmd, P cmd ∧ r = IdempotencyTracker.rowOf D a.appliedAt cmd ∧
    { o with publishedAt := none } = Outbox.stored D o.id (eventOf a cmd)

/-- The outbox announces what is recorded, in the same order. -/
def Announced (D : Deps) (P : WriteEnvelope → Prop) (db : Database) : Prop :=
  List.Forall₂ (Announces D P) db.idempotency.rows db.outbox.rows

section Announced

variable {P P' : WriteEnvelope → Prop} {db db' : Database}

theorem Announced.mono (h : Announced D P db) (hP : ∀ cmd, P cmd → P' cmd) : Announced D P' db :=
  List.Forall₂.imp (fun _ _ ⟨a, cmd, hcmd, hrest⟩ => ⟨a, cmd, hP cmd hcmd, hrest⟩) h

theorem announced_ensureSchema (D : Deps) (P : WriteEnvelope → Prop) (store : String) :
    Announced D P (ensureSchema store) :=
  List.Forall₂.nil

/-- A command that is applied adds its row and its event. -/
theorem Announced.applies (h : Announced D P db) {a : Ambient} {cmd : WriteEnvelope} (hcmd : P cmd)
    (happ : Applies D a db cmd db') : Announced D P db' := by
  have hlast : Announces D P (IdempotencyTracker.rowOf D a.appliedAt cmd)
      (Outbox.stored D (db.outbox.seq + 1) (eventOf a cmd)) := ⟨a, cmd, hcmd, rfl, rfl⟩
  unfold Announced
  rw [happ.idempotency, happ.outbox]
  exact List.rel_append h (List.Forall₂.cons hlast List.Forall₂.nil)

theorem Announced.processBatch (h : Announced D P db) {amb : ℕ → Ambient} {cmds : List WriteEnvelope}
    {result : BatchResult} (hcmds : ∀ cmd ∈ cmds, P cmd)
    (hok : processBatch D amb db cmds = .ok (db', result)) : Announced D P db' := by
  refine History.processBatch_invariant (h := ⟨db, []⟩) (b := ⟨amb, cmds⟩)
    (I := fun h => Announced D P h.db) hok ?_ h
  intro h a cmd tx o hann hmem hcmd
  rcases History.extend_cases hcmd with ⟨rfl, -⟩ | ⟨happ, -⟩
  · exact hann
  · exact hann.applies (hcmds cmd hmem) happ

theorem Announced.markPublishedBatch (h : Announced D P db) (now : String) (ids : List ℕ) :
    Announced D P { db with outbox := db.outbox.markPublishedBatch now ids } := by
  show List.Forall₂ _ _ (db.outbox.rows.map _)
  rw [List.forall₂_map_right_iff]
  refine List.Forall₂.imp (fun r o ⟨a, cmd, hcmd, hr, ho⟩ => ⟨a, cmd, hcmd, hr, ?_⟩) h
  split_ifs with hid <;> exact ho

end Announced

/-! ### Whose rows are published -/

namespace Publisher

/-- The publish is the one of an outbox row of the store. -/
def FromStore (store : String) (db : Database) (p : Publish) : Prop :=
  ∃ o ∈ db.outbox.rows, o.store = store ∧ publishOf o.toOutboxRow = p

/-- The publish is under way: in the hands of the publisher thread or of the client library, or
through. -/
def State.Publishes (s : State) (p : Publish) : Prop :=
  (∃ row ∈ s.pc.rows, publishOf row = p) ∨ p ∈ s.requests ∨
    (∃ pkid, s.outgoing pkid = some p) ∨ p ∈ s.acknowledged

variable {cfg : Config} {s s' : State} {a : Action}

/-- Publishes come from the rows of `fetch_unpublished` only. -/
theorem publishes_of_step (h : step D cfg s a = some s') {p : Publish} (hp : s'.Publishes p) :
    s.Publishes p ∨ FromStore cfg.store s.db p := by
  unfold State.Publishes at hp ⊢
  cases moves_of_step h with
  | commit | abort | losePuback | recvPuback | first | retransmitted | pubAck | trySend | drop
  | retransmit | strayPuback => exact Or.inl hp
  | start | startMark | markFail => exact Or.inl (hp.imp_left (by simp [Pc.rows]))
  | skipMark | markOk => exact Or.inl (hp.imp_left (by simp [Pc.rows_afterDrain]))
  | countTimeouts => exact Or.inl (hp.imp_left (by simp [Pc.rows]))
  | fetch ok hpc hrows =>
    rcases hp with ⟨row, hrow, rfl⟩ | hp
    · right
      rename_i rows
      have hmem : row ∈ rows := by
        split_ifs at hrow
        · simp [Pc.rows] at hrow
        · exact hrow
      rw [hrows] at hmem
      cases ok with
      | false => simp at hmem
      | true =>
        obtain ⟨o, ho, rfl⟩ := List.mem_map.1 hmem
        obtain ⟨hrow, hown⟩ := List.mem_filter.1 (List.mem_of_mem_take ho)
        exact ⟨o, hrow, (of_decide_eq_true hown).1, rfl⟩
    · exact Or.inl (Or.inr hp)
  | skip now hpc | queue now hpc | publishErr hpc =>
    left
    rcases hp with ⟨row, hrow, heq⟩ | hp
    · refine Or.inl ⟨row, ?_, heq⟩
      simp only [hpc, Pc.rows, List.mem_cons] at hrow ⊢
      tauto
    · exact Or.inr hp
  | publishOk hpc =>
    left
    simp only [hpc, Pc.rows, List.mem_append, List.mem_singleton] at hp ⊢
    rcases hp with ⟨row, hrow, heq⟩ | (hp | hp) | hp
    · exact Or.inl ⟨row, List.mem_cons_of_mem _ hrow, heq⟩
    · exact Or.inr (Or.inl hp)
    · exact Or.inl ⟨_, List.mem_cons_self .., hp.symm⟩
    · exact Or.inr (Or.inr hp)
  | send hreq hid hfree =>
    left
    rcases hp with hp | hp | ⟨pkid, hp⟩ | hp
    · exact Or.inl hp
    · exact Or.inr (Or.inl (by rw [hreq]; exact List.mem_cons_of_mem _ hp))
    · simp only [Function.update_apply] at hp
      split_ifs at hp
      · cases hp
        exact Or.inr (Or.inl (by rw [hreq]; exact List.mem_cons_self ..))
      · exact Or.inr (Or.inr (Or.inl ⟨pkid, hp⟩))
    · exact Or.inr (Or.inr (Or.inr hp))
  | puback hout =>
    left
    rcases hp with hp | hp | ⟨pkid, hp⟩ | hp
    · exact Or.inl hp
    · exact Or.inr (Or.inl hp)
    · simp only [Function.update_apply] at hp
      split_ifs at hp
      exact Or.inr (Or.inr (Or.inl ⟨pkid, hp⟩))
    · rcases List.mem_append.1 hp with hp | hp
      · exact Or.inr (Or.inr (Or.inr hp))
      · rw [List.mem_singleton.1 hp]
        exact Or.inr (Or.inr (Or.inl ⟨_, hout⟩))
  | crash =>
    simp only [init, Pc.rows, List.not_mem_nil, false_and, exists_false, reduceCtorEq, false_or] at hp
    exact Or.inl (Or.inr (Or.inr (Or.inr hp)))

/-- Rows stay when others are added, and when they are marked. -/
theorem FromStore.step {store : String} {p : Publish} (hp : FromStore store s.db p)
    (h : Publisher.step D cfg s a = some s') : FromStore store s'.db p := by
  obtain ⟨o, ho, hown, hpub⟩ := hp
  cases moves_of_step h with
  | commit hok =>
    obtain ⟨new, hrows, -⟩ := History.processBatch_outbox hok
    exact ⟨o, by rw [hrows]; exact List.mem_append_left _ ho, hown, hpub⟩
  | markOk now hpc =>
    rename_i last ids
    by_cases hid : o.id ∈ ids
    · exact ⟨{ o with publishedAt := some now },
        Outbox.mem_markPublishedBatch.2 ⟨o, ho, Or.inl ⟨hid, rfl⟩⟩, hown, hpub⟩
    · exact ⟨o, Outbox.mem_markPublishedBatch.2 ⟨o, ho, Or.inr ⟨hid, rfl⟩⟩, hown, hpub⟩
  | _ => exact ⟨o, ho, hown, hpub⟩

/-- In every reachable state, whatever is being published, or was, is a row of the own store. -/
theorem fromStore_of_publishes (hreach : Reachable (step D cfg) (init cfg.store) s) {p : Publish}
    (hp : s.Publishes p) : FromStore cfg.store s.db p := by
  refine hreach.invariant (I := fun s => ∀ p, s.Publishes p → FromStore cfg.store s.db p) ?_ ?_ p hp
  · simp [State.Publishes, init, Pc.rows]
  · intro s a s' hs h p hp
    rcases publishes_of_step h hp with hp | hp
    · exact (hs p hp).step h
    · exact hp.step h

/-- The publisher's own steps: the write thread commits for the consumer, and the process dies as a
whole. -/
def Action.isOwn : Action → Bool
  | .commit _ _ => false
  | .crash => false
  | _ => true

end Publisher

/-- The consumer's own steps. -/
def Ingest.Action.isOwn : Ingest.Action → Bool
  | .crash => false
  | _ => true

/-! ### The two sides -/

namespace Pipeline

/-- The configuration of the writer. -/
structure Config where
  ingest : Ingest.Config
  publisher : Publisher.Config
  /-- `main` gives both sides `STORE_NAME`. -/
  sameStore : publisher.store = ingest.storeName

/-- The two sides, and the database that they share. -/
@[ext] structure State where
  ingest : Ingest.State
  publisher : Publisher.State
  shared : publisher.db = ingest.db

/-- The steps of the writer. -/
inductive Action where
  | ingest (a : Ingest.Action)
  | publisher (a : Publisher.Action)
  /-- The process dies and is started again. -/
  | crash

/-- The state of a store that was just made. -/
def init (cfg : Config) : State where
  ingest := Ingest.init cfg.ingest
  publisher := Publisher.init cfg.publisher.store
  shared := by rw [cfg.sameStore]; rfl

/-- The way in has taken a step. -/
def State.withIngest (s : State) (i : Ingest.State) : State :=
  ⟨i, { s.publisher with db := i.db }, rfl⟩

/-- The way out has taken a step. -/
def State.withPublisher (s : State) (p : Publisher.State) : State :=
  ⟨{ s.ingest with db := p.db }, p, rfl⟩

/-- One step. -/
def step (D : Deps) (cfg : Config) (s : State) : Action → Option State
  | .ingest a =>
    if a.isOwn then (Ingest.step D cfg.ingest s.ingest a).map s.withIngest else none
  | .publisher a =>
    if a.isOwn then (Publisher.step D cfg.publisher s.publisher a).map s.withPublisher else none
  | .crash =>
    match Ingest.step D cfg.ingest s.ingest .crash,
        Publisher.step D cfg.publisher s.publisher .crash with
    | some i, some p => some ⟨i, { p with db := i.db }, rfl⟩
    | _, _ => none

/-- What a step can do, by cases. -/
inductive Moves (D : Deps) (cfg : Config) (s : State) : Action → State → Prop where
  | ingest {a : Ingest.Action} {i : Ingest.State} (hown : a.isOwn)
      (h : Ingest.step D cfg.ingest s.ingest a = some i) :
    Moves D cfg s (.ingest a) (s.withIngest i)
  | publisher {a : Publisher.Action} {p : Publisher.State} (hown : a.isOwn)
      (h : Publisher.step D cfg.publisher s.publisher a = some p) :
    Moves D cfg s (.publisher a) (s.withPublisher p)
  | crash {i : Ingest.State} {p : Publisher.State}
      (hi : Ingest.step D cfg.ingest s.ingest .crash = some i)
      (hp : Publisher.step D cfg.publisher s.publisher .crash = some p) :
    Moves D cfg s .crash ⟨i, { p with db := i.db }, rfl⟩

variable {cfg : Config} {s s' : State} {a : Action}

theorem moves_of_step (h : step D cfg s a = some s') : Moves D cfg s a s' := by
  cases a with
  | ingest a =>
    simp only [step, Option.ite_none_right_eq_some, Option.map_eq_some_iff] at h
    obtain ⟨hown, i, hi, rfl⟩ := h
    exact .ingest hown hi
  | publisher a =>
    simp only [step, Option.ite_none_right_eq_some, Option.map_eq_some_iff] at h
    obtain ⟨hown, p, hp, rfl⟩ := h
    exact .publisher hown hp
  | crash =>
    simp only [step] at h
    split at h <;> cases h
    exact .crash ‹_› ‹_›

theorem step_ingest {b : Ingest.Action} {i : Ingest.State} (hown : b.isOwn)
    (h : Ingest.step D cfg.ingest s.ingest b = some i) :
    step D cfg s (.ingest b) = some (s.withIngest i) := by
  rw [step, if_pos hown, h, Option.map_some]

theorem step_publisher {b : Publisher.Action} {p : Publisher.State} (hown : b.isOwn)
    (h : Publisher.step D cfg.publisher s.publisher b = some p) :
    step D cfg s (.publisher b) = some (s.withPublisher p) := by
  rw [step, if_pos hown, h, Option.map_some]

/-! ### Each side by itself -/

/-- What the way out sees of a step: one of its own, a commit, or nothing. -/
theorem publisher_of_step (h : step D cfg s a = some s') :
    s'.publisher = s.publisher ∨
      ∃ b, Publisher.step D cfg.publisher s.publisher b = some s'.publisher := by
  cases moves_of_step h with
  | ingest hown hi =>
    rename_i i
    rcases Ingest.db_of_step hi with hdb | ⟨amb, batch, result, -, -, hok⟩
    · left
      show { s.publisher with db := i.db } = s.publisher
      rw [hdb, ← s.shared]
    · right
      refine ⟨.commit amb (batch.map (·.envelope)), ?_⟩
      simp only [Publisher.step, s.shared, hok]
      rfl
  | publisher hown hp => exact Or.inr ⟨_, hp⟩
  | crash hi hp =>
    rename_i i p
    refine Or.inr ⟨.crash, hp.trans ?_⟩
    have hdb : p.db = i.db := by
      cases hi
      cases hp
      exact s.shared
    show some p = some { p with db := i.db }
    rw [← hdb]

/-- The way out alone, with the batches of the way in for its commits, is a run of `Publisher`. -/
theorem reachable_publisher (hreach : Reachable (step D cfg) (init cfg) s) :
    Reachable (Publisher.step D cfg.publisher) (Publisher.init cfg.publisher.store) s.publisher :=
  reachable_map (f := State.publisher) (I := fun _ => True) trivial (fun _ _ _ _ _ => trivial)
    (fun _ _ _ _ h => publisher_of_step h) hreach

/-- Somebody published the command. -/
def Commanded (cfg : Ingest.Config) (published : List Bytes) (cmd : WriteEnvelope) : Prop :=
  ∃ payload ∈ published, cfg.decode payload = some cmd

theorem mem_published_of_step {cfg : Ingest.Config} {i i' : Ingest.State} {a : Ingest.Action}
    (h : Ingest.step D cfg i a = some i') {payload : Bytes} (hp : payload ∈ i.published) :
    payload ∈ i'.published := by
  cases Ingest.moves_of_step h with
  | publish => exact List.mem_append_left _ hp
  | deliver ackOk hpay hid =>
    unfold Ingest.consume
    split
    · split_ifs <;> exact hp
    · split_ifs <;> exact hp
  | _ => exact hp

/-- What every step keeps of the way in, and of what it puts into the database. -/
structure Inv (D : Deps) (cfg : Config) (s : State) : Prop where
  ingest : Ingest.Inv cfg.ingest s.ingest
  announced : Announced D (Commanded cfg.ingest s.ingest.published) s.ingest.db

theorem inv_init (D : Deps) (cfg : Config) : Inv D cfg (init cfg) :=
  ⟨Ingest.inv_init cfg.ingest, announced_ensureSchema D _ _⟩

/-- The commands of a batch come from messages. -/
theorem commanded_of_writing {cfg : Ingest.Config} {i : Ingest.State} (hi : Ingest.Inv cfg i)
    {batch : List Ingest.PendingCommand} (hphase : i.phase = .writing batch) :
    ∀ cmd ∈ batch.map (·.envelope), Commanded cfg i.published cmd := by
  intro cmd hcmd
  obtain ⟨p, hp, rfl⟩ := List.mem_map.1 hcmd
  obtain ⟨payload, hpay, hdec⟩ := hi.genuine p (by
    rw [Ingest.State.inProcess, hphase]
    exact List.mem_append_right _ hp)
  exact ⟨payload, List.mem_of_getElem? hpay, hdec⟩

theorem Inv.ingest_step (hs : Inv D cfg s) {b : Ingest.Action} {i : Ingest.State}
    (h : Ingest.step D cfg.ingest s.ingest b = some i) :
    Ingest.Inv cfg.ingest i ∧ Announced D (Commanded cfg.ingest i.published) i.db := by
  have hmore : ∀ cmd, Commanded cfg.ingest s.ingest.published cmd →
      Commanded cfg.ingest i.published cmd :=
    fun cmd ⟨payload, hmem, hdec⟩ => ⟨payload, mem_published_of_step h hmem, hdec⟩
  refine ⟨Ingest.inv_step hs.ingest h, ?_⟩
  rcases Ingest.db_of_step h with hdb | ⟨amb, batch, result, -, hphase, hok⟩
  · rw [hdb]
    exact hs.announced.mono hmore
  · exact (hs.announced.processBatch (commanded_of_writing hs.ingest hphase) hok).mono hmore

theorem inv_step (hs : Inv D cfg s) (h : step D cfg s a = some s') : Inv D cfg s' := by
  cases moves_of_step h with
  | ingest hown hi =>
    obtain ⟨hinv, hann⟩ := hs.ingest_step hi
    exact ⟨hinv, hann⟩
  | publisher hown hp =>
    rename_i b p
    have hcommit : ∀ amb cmds, b ≠ .commit amb cmds := by
      rintro amb cmds rfl
      simp [Publisher.Action.isOwn] at hown
    -- marking rows leaves `_idempotency` alone, on which the decisions rest
    have hrec : p.db.idempotency = s.ingest.db.idempotency := by
      rw [← s.shared]
      rcases Publisher.db_of_step hp hcommit with hdb | ⟨now, ids, hdb⟩ <;> rw [hdb]
    refine ⟨hs.ingest.with_db fun cmd hset => hset.mono (by rw [hrec]; exact List.Subset.refl _), ?_⟩
    show Announced D (Commanded cfg.ingest s.ingest.published) p.db
    have hann := hs.announced
    rw [← s.shared] at hann
    rcases Publisher.db_of_step hp hcommit with hdb | ⟨now, ids, hdb⟩
    · rw [hdb]
      exact hann
    · rw [hdb]
      exact hann.markPublishedBatch now ids
  | crash hi hp =>
    obtain ⟨hinv, hann⟩ := hs.ingest_step hi
    exact ⟨hinv, hann⟩

/-! ### End to end -/

/-- Nothing is lost and nothing is made up between the messages on the command topics and the
messages on the event topics. -/
structure EndToEnd (D : Deps) (cfg : Config) (published : List Bytes) (unacked : List ℕ)
    (acknowledged : List Publisher.Publish) (db : Database) : Prop where
  /-- The broker keeps a command, or the database has decided about it. -/
  settled : ∀ (id : ℕ) (payload : Bytes) (cmd : WriteEnvelope), published[id]? = some payload →
    cfg.ingest.decode payload = some cmd → id ∈ unacked ∨ Settled cmd db
  /-- What the database has recorded was commanded, and has its event. -/
  announced : Announced D (Commanded cfg.ingest published) db
  /-- The broker has acknowledged the event of every row that is marked. -/
  marked : ∀ o ∈ db.outbox.rows, o.publishedAt ≠ none →
    Publisher.publishOf o.toOutboxRow ∈ acknowledged
  /-- A row of the store that is not marked is offered by `fetch_unpublished` when its turn comes. -/
  offered : ∀ o ∈ db.outbox.rows, o.store = cfg.ingest.storeName → o.publishedAt = none →
    ∀ limit, (db.outbox.rows.filter fun x =>
        decide (x.store = o.store ∧ x.publishedAt = none ∧ x.id < o.id)).length < limit →
      o.toOutboxRow ∈ db.outbox.fetchUnpublished cfg.ingest.storeName limit
  /-- The broker has events of the store only. -/
  genuine : ∀ p ∈ acknowledged, Publisher.FromStore cfg.ingest.storeName db p

/-- In every state of the publisher, a row that is marked was acknowledged. -/
theorem acknowledged_of_marked {p : Publisher.State} (hp : Publisher.Inv p) {o : OutboxEntry}
    (ho : o ∈ p.db.outbox.rows) (hmarked : o.publishedAt ≠ none) :
    Publisher.publishOf o.toOutboxRow ∈ p.acknowledged := by
  obtain ⟨q, hq, hid⟩ := List.mem_map.1 (hp.published o ho hmarked)
  obtain ⟨x, hx, rfl⟩ := hp.acknowledged q hq
  rwa [← p.db.outbox.eq_of_id_eq hx ho hid]

/-- **No command and no event is lost in the writer.** -/
theorem endToEnd (hreach : Reachable (step D cfg) (init cfg) s) :
    EndToEnd D cfg s.ingest.published s.ingest.unacked s.publisher.acknowledged s.ingest.db := by
  have hinv : Inv D cfg s :=
    hreach.invariant (inv_init D cfg) fun s a s' hs h => inv_step hs h
  have hpub := reachable_publisher hreach
  have hout : Publisher.Inv s.publisher :=
    hpub.invariant (Publisher.inv_init _) fun s a s' hs h => Publisher.inv_step hs h
  refine ⟨fun id payload cmd hid hdec => ?_, hinv.announced, fun o ho hmarked => ?_,
    fun o ho hown hun limit hlt => ?_, fun p hp => ?_⟩
  · rcases hinv.ingest.retained id (List.getElem?_eq_some_iff.1 hid).1 with hun | hf
    · exact Or.inl hun
    · obtain ⟨payload', hpay', hset⟩ := hf
      rw [hid, Option.some.injEq] at hpay'
      exact Or.inr (hset cmd (hpay' ▸ hdec))
  · rw [← s.shared] at ho
    exact acknowledged_of_marked hout ho hmarked
  · rw [← hown]
    exact Outbox.mem_fetchUnpublished_of_lt ho hun hlt
  · rw [← s.shared, ← cfg.sameStore]
    exact Publisher.fromStore_of_publishes hpub (Or.inr (Or.inr (Or.inr hp)))

end Pipeline

end Ixmati
