import Ixmati.Writer.History
import Ixmati.Lib.Run

/-!
# From the broker into the database

The way of a command into the store, as one step system: the broker's persistent QoS-1 session,
the consumer thread of `consumer.rs`, the bounded channel, the `Batcher`, the loop of `main.rs`
with its calls of `process_batch` and its acknowledgements, and the database.  A process crash
loses everything but the session and the database.

What is assumed of the broker is in the steps: it sends every unacknowledged message once per
connection, in any order, and forgets a message only on its acknowledgement.  The handle that an
acknowledgement carries names the message it was delivered with.

* `Settled` : the database has decided about a command;
* `processBatch_settles` : a batch that commits settles each of its commands;
* `Ingest.no_command_lost` : every decodable command published so far is unacknowledged or settled.
-/

namespace Ixmati

open WriteEngine

/-- The database has decided about the command: its idempotency key is recorded, or a version of its
key that is not below its own, or it is of no known operation. -/
def Settled (cmd : WriteEnvelope) (db : Database) : Prop :=
  (∃ r ∈ db.idempotency.rows, r.store = cmd.store ∧ r.idempotencyKey = cmd.idempotencyKey) ∨
  (∃ r ∈ db.idempotency.rows, r.names cmd.store cmd.entity cmd.key ∧
    cmd.version ≤ r.version.toUInt64) ∨
  ¬ KnownOp cmd.op

theorem Settled.mono {cmd : WriteEnvelope} {db db' : Database} (h : Settled cmd db)
    (hsub : db.idempotency.rows ⊆ db'.idempotency.rows) : Settled cmd db' := by
  rcases h with ⟨r, hr, hrest⟩ | ⟨r, hr, hrest⟩ | hop
  · exact Or.inl ⟨r, hsub hr, hrest⟩
  · exact Or.inr (Or.inl ⟨r, hsub hr, hrest⟩)
  · exact Or.inr (Or.inr hop)

variable {D : Deps}

/-- Each exit of the loop settles the command and keeps the recorded rows. -/
theorem processCommand_settles {a : Ambient} {tx tx' : Database} {cmd : WriteEnvelope} {o : Outcome}
    (h : processCommand D a tx cmd = .ok (tx', o)) :
    tx.idempotency.rows ⊆ tx'.idempotency.rows ∧ Settled cmd tx' := by
  rcases processCommand_cases h with ⟨-, rfl, hdup⟩ | ⟨-, rfl, -, hst⟩ | ⟨-, rfl, -, -, hop⟩ |
    ⟨-, happ⟩
  · obtain ⟨r, hr⟩ := Option.isSome_iff_exists.1 (IdempotencyTracker.check_ne_new.1 hdup)
    obtain ⟨hmem, hpk⟩ := (Table.find?_eq_some _).1 hr
    obtain ⟨hstore, hkey⟩ := Prod.mk.inj hpk
    exact ⟨List.Subset.refl _, Or.inl ⟨r, hmem, hstore, hkey⟩⟩
  · -- the stored version that the guard compared with is the one of some row
    unfold isStale at hst
    cases hv : IdempotencyTracker.currentVersion tx'.idempotency cmd.store cmd.entity cmd.key with
    | none => simp [hv] at hst
    | some v =>
      obtain ⟨⟨r, hr, hn, hrv⟩, -⟩ := IdempotencyTracker.currentVersion_eq_some.1 hv
      simp only [hv, decide_eq_true_eq] at hst
      refine ⟨List.Subset.refl _, Or.inr (Or.inl ⟨r, hr, hn, ?_⟩)⟩
      rw [hrv, v.toUInt64_toInt64]
      exact hst
  · exact ⟨List.Subset.refl _, Or.inr (Or.inr hop)⟩
  · rw [happ.idempotency]
    refine ⟨List.subset_append_left .., Or.inl ⟨IdempotencyTracker.rowOf D a.appliedAt cmd, ?_,
      rfl, rfl⟩⟩
    rw [happ.idempotency]
    exact List.mem_append_right _ (List.mem_singleton_self _)

/-- **A batch that commits settles its commands**, and keeps what was recorded. -/
theorem processBatch_settles {amb : ℕ → Ambient} {db db' : Database} {cmds : List WriteEnvelope}
    {result : BatchResult} (h : processBatch D amb db cmds = .ok (db', result)) :
    db.idempotency.rows ⊆ db'.idempotency.rows ∧ ∀ cmd ∈ cmds, Settled cmd db' := by
  have hinv := History.processBatch_invariant (h := ⟨db, []⟩) (b := ⟨amb, cmds⟩)
    (I := fun h => db.idempotency.rows ⊆ h.db.idempotency.rows ∧
      ∀ it ∈ h.iterations, Settled it.cmd h.db) h ?_ ⟨List.Subset.refl _, by simp⟩
  · refine ⟨hinv.1, fun cmd hcmd => ?_⟩
    obtain ⟨it, hit, rfl⟩ := History.mem_trace h hcmd
    exact hinv.2 it hit
  · intro h a cmd tx o ⟨hsub, hall⟩ _ hok
    obtain ⟨hsub', hset⟩ := processCommand_settles hok
    refine ⟨List.Subset.trans hsub hsub', fun it hit => ?_⟩
    rcases List.mem_append.1 hit with hit | hit
    · exact (hall it hit).mono hsub'
    · rw [List.mem_singleton] at hit
      rw [hit]
      exact hset

namespace Ingest

/-- A decoded command with the handle to acknowledge its message. -/
structure PendingCommand where
  envelope : WriteEnvelope
  /-- The message it was delivered with. -/
  ack : ℕ

/-- What the main loop is doing. -/
inductive Phase where
  /-- In `recv_timeout`. -/
  | receiving
  /-- Waiting for the write thread to process a batch. -/
  | writing (batch : List PendingCommand)
  /-- Acknowledging the rest of a committed batch. -/
  | acking (rest : List PendingCommand)

/-- The configuration of the writer and its store. -/
structure Config where
  storeName : String
  batchSize : ℕ
  channelCapacity : ℕ
  /-- `serde_json::from_slice::<WriteEnvelope>`. -/
  decode : Bytes → Option WriteEnvelope

/-- The broker's session, the process and the database. -/
structure State where
  /-- All messages ever published on the topic; a message is named by its position. -/
  published : List Bytes
  /-- The messages that the session retains. -/
  unacked : List ℕ
  /-- The messages sent on the current connection. -/
  sent : List ℕ
  /-- The channel between consumer thread and main loop. -/
  channel : List PendingCommand
  /-- `Batcher::current`. -/
  batcher : List PendingCommand
  phase : Phase
  /-- Acknowledgements handed to the MQTT client and not sent yet. -/
  acks : List ℕ
  db : Database

/-- The steps of the system. -/
inductive Action where
  /-- Somebody publishes on the topic. -/
  | publish (payload : Bytes)
  /-- The broker sends a message and the consumer thread handles it; `ackOk` tells whether
  `try_ack` succeeds on a malformed one. -/
  | deliver (id : ℕ) (ackOk : Bool)
  /-- `recv_timeout` returns a command; `elapsed` tells whether the interval of the batch is over. -/
  | recv (elapsed : Bool)
  /-- `recv_timeout` times out. -/
  | timeout (elapsed : Bool)
  /-- The write thread processes the batch, successfully if the engine does. -/
  | commit (amb : ℕ → Ambient)
  /-- The transaction fails for a reason of its own: a lock, the disk. -/
  | fail
  /-- The main loop acknowledges the next command of a committed batch. -/
  | ack (ok : Bool)
  /-- The MQTT client sends an acknowledgement and the broker forgets the message. -/
  | sendAck
  /-- The connection is lost and made again, with or without the unsent acknowledgements. -/
  | reconnect (keepAcks : Bool)
  /-- The process dies and is started again. -/
  | crash

/-- The state before anything is published. -/
def init (cfg : Config) : State where
  published := []
  unacked := []
  sent := []
  channel := []
  batcher := []
  phase := .receiving
  acks := []
  db := ensureSchema cfg.storeName

/-- Is there room in the channel?  A channel of capacity 0 hands over to a waiting receiver. -/
def hasRoom (cfg : Config) (s : State) : Bool :=
  match s.phase with
  | .receiving => decide (s.channel.length < max cfg.channelCapacity 1)
  | _ => decide (s.channel.length < cfg.channelCapacity)

/-- The consumer thread on an incoming message. -/
def consume (cfg : Config) (s : State) (id : ℕ) (payload : Bytes) (ackOk : Bool) : State :=
  match cfg.decode payload with
  | some envelope =>
    -- when the channel is full the command stays unacknowledged at the broker
    if hasRoom cfg s then { s with channel := s.channel ++ [⟨envelope, id⟩] } else s
  | none => if ackOk then { s with acks := s.acks ++ [id] } else s

/-- `Batcher::flush`, with the batch handed to the write thread. -/
def flush (s : State) (current : List PendingCommand) : State :=
  { s with batcher := [], phase := .writing current }

/-- One step. -/
def step (D : Deps) (cfg : Config) (s : State) : Action → Option State
  | .publish payload =>
    some { s with
      published := s.published ++ [payload]
      unacked := s.unacked ++ [s.published.length] }
  | .deliver id ackOk =>
    match s.published[id]? with
    | some payload =>
      if id ∈ s.unacked ∧ id ∉ s.sent then
        some (consume cfg { s with sent := id :: s.sent } id payload ackOk)
      else none
    | none => none
  | .recv elapsed =>
    match s.phase, s.channel with
    | .receiving, cmd :: channel =>
      let current := s.batcher ++ [cmd]
      if cfg.batchSize ≤ current.length ∨ elapsed then
        some (flush { s with channel := channel } current)
      else some { s with channel := channel, batcher := current }
    | _, _ => none
  | .timeout elapsed =>
    match s.phase with
    | .receiving =>
      if s.channel = [] then
        if elapsed ∧ s.batcher ≠ [] then some (flush s s.batcher) else some s
      else none
    | _ => none
  | .commit amb =>
    match s.phase with
    | .writing batch =>
      match processBatch D amb s.db (batch.map (·.envelope)) with
      | .ok (db, _) => some { s with db := db, phase := .acking batch }
      | .error _ => some { s with phase := .receiving }
    | _ => none
  | .fail =>
    match s.phase with
    | .writing _ => some { s with phase := .receiving }
    | _ => none
  | .ack ok =>
    match s.phase with
    | .acking (cmd :: rest) =>
      some { s with
        acks := if ok then s.acks ++ [cmd.ack] else s.acks
        phase := .acking rest }
    | .acking [] => some { s with phase := .receiving }
    | _ => none
  | .sendAck =>
    match s.acks with
    | id :: acks => some { s with acks := acks, unacked := s.unacked.filter fun i => i ≠ id }
    | [] => none
  | .reconnect keepAcks =>
    some { s with sent := [], acks := if keepAcks then s.acks else [] }
  | .crash =>
    some { s with
      sent := [], channel := [], batcher := [], phase := .receiving, acks := [] }

/-- What a step can do, by cases. -/
inductive Moves (D : Deps) (cfg : Config) (s : State) : Action → State → Prop where
  | publish (payload : Bytes) :
    Moves D cfg s (.publish payload)
      { s with
        published := s.published ++ [payload]
        unacked := s.unacked ++ [s.published.length] }
  | deliver {id : ℕ} {payload : Bytes} (ackOk : Bool) (hpay : s.published[id]? = some payload)
      (hid : id ∈ s.unacked ∧ id ∉ s.sent) :
    Moves D cfg s (.deliver id ackOk) (consume cfg { s with sent := id :: s.sent } id payload ackOk)
  | recvFull {elapsed : Bool} {cmd : PendingCommand} {channel : List PendingCommand}
      (hphase : s.phase = .receiving) (hchannel : s.channel = cmd :: channel)
      (hfull : cfg.batchSize ≤ (s.batcher ++ [cmd]).length ∨ elapsed = true) :
    Moves D cfg s (.recv elapsed) (flush { s with channel := channel } (s.batcher ++ [cmd]))
  | recv {elapsed : Bool} {cmd : PendingCommand} {channel : List PendingCommand}
      (hphase : s.phase = .receiving) (hchannel : s.channel = cmd :: channel)
      (hroom : ¬ (cfg.batchSize ≤ (s.batcher ++ [cmd]).length ∨ elapsed = true)) :
    Moves D cfg s (.recv elapsed) { s with channel := channel, batcher := s.batcher ++ [cmd] }
  | flush {elapsed : Bool} (hphase : s.phase = .receiving) (hchannel : s.channel = [])
      (hflush : elapsed = true ∧ s.batcher ≠ []) :
    Moves D cfg s (.timeout elapsed) (flush s s.batcher)
  | wait {elapsed : Bool} (hphase : s.phase = .receiving) (hchannel : s.channel = [])
      (hwait : ¬ (elapsed = true ∧ s.batcher ≠ [])) :
    Moves D cfg s (.timeout elapsed) s
  | commit {amb : ℕ → Ambient} {batch : List PendingCommand} {db : Database} {result : BatchResult}
      (hphase : s.phase = .writing batch)
      (hok : processBatch D amb s.db (batch.map (·.envelope)) = .ok (db, result)) :
    Moves D cfg s (.commit amb) { s with db := db, phase := .acking batch }
  | abort {amb : ℕ → Ambient} {batch : List PendingCommand} {e : SqlError}
      (hphase : s.phase = .writing batch)
      (herr : processBatch D amb s.db (batch.map (·.envelope)) = .error e) :
    Moves D cfg s (.commit amb) { s with phase := .receiving }
  | fail {batch : List PendingCommand} (hphase : s.phase = .writing batch) :
    Moves D cfg s .fail { s with phase := .receiving }
  | ack {cmd : PendingCommand} {rest : List PendingCommand} (ok : Bool)
      (hphase : s.phase = .acking (cmd :: rest)) :
    Moves D cfg s (.ack ok)
      { s with acks := if ok then s.acks ++ [cmd.ack] else s.acks, phase := .acking rest }
  | acked (ok : Bool) (hphase : s.phase = .acking []) :
    Moves D cfg s (.ack ok) { s with phase := .receiving }
  | sendAck {id : ℕ} {acks : List ℕ} (hacks : s.acks = id :: acks) :
    Moves D cfg s .sendAck { s with acks := acks, unacked := s.unacked.filter fun i => i ≠ id }
  | reconnect (keepAcks : Bool) :
    Moves D cfg s (.reconnect keepAcks)
      { s with sent := [], acks := if keepAcks then s.acks else [] }
  | crash :
    Moves D cfg s .crash
      { s with sent := [], channel := [], batcher := [], phase := .receiving, acks := [] }

theorem moves_of_step {cfg : Config} {s s' : State} {a : Action} (h : step D cfg s a = some s') :
    Moves D cfg s a s' := by
  cases a with
  | publish payload =>
    cases h
    exact .publish payload
  | deliver id ackOk =>
    simp only [step] at h
    split at h
    · rename_i payload hpay
      split_ifs at h with hid
      cases h
      exact .deliver ackOk hpay hid
    · cases h
  | recv elapsed =>
    simp only [step] at h
    split at h
    · rename_i cmd channel hphase hchannel
      split_ifs at h with hfull <;> cases h
      · exact .recvFull hphase hchannel hfull
      · exact .recv hphase hchannel hfull
    · cases h
  | timeout elapsed =>
    simp only [step] at h
    split at h
    · rename_i hphase
      split_ifs at h with hchannel hflush <;> cases h
      · exact .flush hphase hchannel hflush
      · exact .wait hphase hchannel hflush
    · cases h
  | commit amb =>
    simp only [step] at h
    split at h
    · rename_i batch hphase
      split at h <;> cases h
      · rename_i db result hok
        exact .commit hphase hok
      · rename_i e herr
        exact .abort hphase herr
    · cases h
  | fail =>
    simp only [step] at h
    split at h
    · rename_i batch hphase
      cases h
      exact .fail hphase
    · cases h
  | ack ok =>
    simp only [step] at h
    split at h
    · rename_i cmd rest hphase
      cases h
      exact .ack ok hphase
    · rename_i hphase
      cases h
      exact .acked ok hphase
    · cases h
  | sendAck =>
    simp only [step] at h
    split at h
    · rename_i id acks hacks
      cases h
      exact .sendAck hacks
    · cases h
  | reconnect keepAcks =>
    cases h
    exact .reconnect keepAcks
  | crash =>
    cases h
    exact .crash

/-- Only a batch that commits changes the database. -/
theorem db_of_step {cfg : Config} {s s' : State} {a : Action} (h : step D cfg s a = some s') :
    s'.db = s.db ∨ ∃ amb batch result, a = .commit amb ∧ s.phase = .writing batch ∧
      processBatch D amb s.db (batch.map (·.envelope)) = .ok (s'.db, result) := by
  cases moves_of_step h with
  | deliver ackOk hpay hid =>
    left
    unfold consume
    split
    · split_ifs <;> rfl
    · split_ifs <;> rfl
  | commit hphase hok => exact Or.inr ⟨_, _, _, rfl, hphase, hok⟩
  | _ => exact Or.inl rfl

/-! ### The invariant -/

variable {cfg : Config} {s s' : State}

/-- The commands that the process holds. -/
def State.inProcess (s : State) : List PendingCommand :=
  s.channel ++ s.batcher ++
    match s.phase with
    | .receiving => []
    | .writing batch => batch
    | .acking rest => rest

/-- The handle of the command names a message with that command. -/
def Genuine (cfg : Config) (published : List Bytes) (p : PendingCommand) : Prop :=
  ∃ payload, published[p.ack]? = some payload ∧ cfg.decode payload = some p.envelope

section Guarded

/-! The argument is the same for every property `Q` of a command that a batch brings about and no
later batch takes away. -/

variable {Q : WriteEnvelope → Database → Prop}

/-- The message holds no command, or one with `Q`. -/
def Disposable (Q : WriteEnvelope → Database → Prop) (cfg : Config) (published : List Bytes)
    (db : Database) (id : ℕ) : Prop :=
  ∃ payload, published[id]? = some payload ∧ ∀ cmd, cfg.decode payload = some cmd → Q cmd db

/-- What every step keeps: the process holds commands of published messages only, those that it
acknowledges have `Q`, and so has everything that the broker has forgotten. -/
structure Guarded (Q : WriteEnvelope → Database → Prop) (cfg : Config) (s : State) : Prop where
  genuine : ∀ p ∈ s.inProcess, Genuine cfg s.published p
  acking : ∀ rest, s.phase = .acking rest → ∀ p ∈ rest, Q p.envelope s.db
  acks : ∀ id ∈ s.acks, Disposable Q cfg s.published s.db id
  retained : ∀ id < s.published.length, id ∈ s.unacked ∨ Disposable Q cfg s.published s.db id

theorem Genuine.append {published : List Bytes} {p : PendingCommand} (h : Genuine cfg published p)
    (payload : Bytes) : Genuine cfg (published ++ [payload]) p := by
  obtain ⟨x, hx, hdec⟩ := h
  exact ⟨x, List.getElem?_append_left (List.getElem?_eq_some_iff.1 hx).1 ▸ hx, hdec⟩

theorem Genuine.disposable {published : List Bytes} {p : PendingCommand} {db : Database}
    (h : Genuine cfg published p) (hset : Q p.envelope db) :
    Disposable Q cfg published db p.ack := by
  obtain ⟨payload, hpay, hdec⟩ := h
  refine ⟨payload, hpay, fun cmd hcmd => ?_⟩
  rw [hdec, Option.some.injEq] at hcmd
  exact hcmd ▸ hset

theorem Disposable.append {published : List Bytes} {db : Database} {id : ℕ}
    (h : Disposable Q cfg published db id) (payload : Bytes) :
    Disposable Q cfg (published ++ [payload]) db id := by
  obtain ⟨x, hx, hset⟩ := h
  exact ⟨x, List.getElem?_append_left (List.getElem?_eq_some_iff.1 hx).1 ▸ hx, hset⟩

theorem Disposable.mono {published : List Bytes} {db db' : Database} {id : ℕ}
    (h : Disposable Q cfg published db id) (hQ : ∀ cmd, Q cmd db → Q cmd db') :
    Disposable Q cfg published db' id := by
  obtain ⟨x, hx, hset⟩ := h
  exact ⟨x, hx, fun cmd hcmd => hQ cmd (hset cmd hcmd)⟩

theorem guarded_init (Q : WriteEnvelope → Database → Prop) (cfg : Config) :
    Guarded Q cfg (init cfg) := by
  refine ⟨?_, ?_, ?_, ?_⟩ <;> simp [init, State.inProcess]

/-- A step that publishes, commits and acknowledges nothing, and holds no new command, keeps the
invariant. -/
theorem Guarded.of_le (hs : Guarded Q cfg s) (hpub : s'.published = s.published) (hdb : s'.db = s.db)
    (hun : s'.unacked = s.unacked) (hheld : ∀ p ∈ s'.inProcess, p ∈ s.inProcess)
    (hph : ∀ rest, s'.phase = .acking rest → s.phase = .acking rest)
    (hacks : ∀ id ∈ s'.acks, id ∈ s.acks) : Guarded Q cfg s' := by
  refine ⟨fun p hp => ?_, fun rest hrest => ?_, fun id hid => ?_, ?_⟩
  · rw [hpub]; exact hs.genuine p (hheld p hp)
  · rw [hdb]; exact hs.acking rest (hph rest hrest)
  · rw [hpub, hdb]; exact hs.acks id (hacks id hid)
  · rw [hpub, hun, hdb]; exact hs.retained

/-- Somebody else may change the database, as long as `Q` stays. -/
theorem Guarded.with_db (hs : Guarded Q cfg s) {db : Database} (hQ : ∀ cmd, Q cmd s.db → Q cmd db) :
    Guarded Q cfg { s with db := db } :=
  ⟨hs.genuine, fun rest hrest p hp => hQ _ (hs.acking rest hrest p hp),
    fun id hid => (hs.acks id hid).mono hQ,
    fun id hid => (hs.retained id hid).imp_right fun hf => hf.mono hQ⟩

theorem guarded_publish (hs : Guarded Q cfg s) (payload : Bytes) :
    Guarded Q cfg { s with
      published := s.published ++ [payload], unacked := s.unacked ++ [s.published.length] } := by
  refine ⟨fun p hp => (hs.genuine p hp).append payload, hs.acking,
    fun id hid => (hs.acks id hid).append payload, fun id hid => ?_⟩
  simp only [List.length_append, List.length_singleton] at hid
  by_cases hlt : id < s.published.length
  · rcases hs.retained id hlt with hun | hf
    · exact Or.inl (List.mem_append_left _ hun)
    · exact Or.inr (hf.append payload)
  · have heq : id = s.published.length := by omega
    exact Or.inl (List.mem_append_right _ (by simp [heq]))

theorem guarded_consume (hs : Guarded Q cfg s) {id : ℕ} {payload : Bytes} (hpay : s.published[id]? = some payload)
    (ackOk : Bool) : Guarded Q cfg (consume cfg s id payload ackOk) := by
  unfold consume
  cases hdec : cfg.decode payload with
  | some envelope =>
    simp only
    split_ifs with hroom
    · refine ⟨fun p hp => ?_, hs.acking, hs.acks, hs.retained⟩
      have hp' : p ∈ s.inProcess ∨ p = ⟨envelope, id⟩ := by
        simp only [State.inProcess, List.mem_append, List.mem_singleton] at hp ⊢
        tauto
      rcases hp' with hp' | rfl
      · exact hs.genuine p hp'
      · exact ⟨payload, hpay, hdec⟩
    · exact hs
  | none =>
    simp only
    split_ifs
    · refine ⟨hs.genuine, hs.acking, fun i hi => ?_, hs.retained⟩
      rcases List.mem_append.1 hi with hi | hi
      · exact hs.acks i hi
      · rw [List.mem_singleton.1 hi]
        exact ⟨payload, hpay, fun cmd hcmd => by simp [hdec] at hcmd⟩
    · exact hs

theorem guarded_commit (hs : Guarded Q cfg s) {batch : List PendingCommand} (hph : s.phase = .writing batch)
    {db : Database} (hmono : ∀ cmd, Q cmd s.db → Q cmd db)
    (hset : ∀ cmd ∈ batch.map (·.envelope), Q cmd db) :
    Guarded Q cfg { s with db := db, phase := .acking batch } := by
  refine ⟨fun p hp => ?_, fun rest hrest p hp => ?_, fun id hid => (hs.acks id hid).mono hmono,
    fun id hid => (hs.retained id hid).imp_right fun hf => hf.mono hmono⟩
  · refine hs.genuine p ?_
    simpa [State.inProcess, hph] using hp
  · simp only [Phase.acking.injEq] at hrest
    exact hset _ (List.mem_map.2 ⟨p, hrest ▸ hp, rfl⟩)

theorem guarded_ack (hs : Guarded Q cfg s) {cmd : PendingCommand} {rest : List PendingCommand}
    (hph : s.phase = .acking (cmd :: rest)) (ok : Bool) :
    Guarded Q cfg { s with
      acks := if ok then s.acks ++ [cmd.ack] else s.acks, phase := .acking rest } := by
  have hgen : ∀ p ∈ cmd :: rest, Genuine cfg s.published p := by
    intro p hp
    refine hs.genuine p ?_
    rw [State.inProcess, hph]
    exact List.mem_append_right _ hp
  refine ⟨fun p hp => hs.genuine p ?_, fun rest' hrest p hp => ?_, fun id hid => ?_, hs.retained⟩
  · simp only [State.inProcess, hph, List.mem_append, List.mem_cons] at hp ⊢
    tauto
  · simp only [Phase.acking.injEq] at hrest
    exact hs.acking _ hph p (List.mem_cons_of_mem _ (hrest ▸ hp))
  · have hcmd := (hgen cmd (List.mem_cons_self ..)).disposable
      (hs.acking _ hph cmd (List.mem_cons_self ..))
    cases ok with
    | false => exact hs.acks id hid
    | true =>
      simp only [↓reduceIte, List.mem_append, List.mem_singleton] at hid
      rcases hid with hid | rfl
      · exact hs.acks id hid
      · exact hcmd

theorem guarded_sendAck (hs : Guarded Q cfg s) {id : ℕ} {acks : List ℕ} (hacks : s.acks = id :: acks) :
    Guarded Q cfg { s with acks := acks, unacked := s.unacked.filter fun i => i ≠ id } := by
  refine ⟨hs.genuine, hs.acking, fun i hi => hs.acks i ?_, fun i hi => ?_⟩
  · rw [hacks]
    exact List.mem_cons_of_mem _ hi
  · by_cases hid : i = id
    · subst hid
      exact Or.inr (hs.acks i (by simp [hacks]))
    · refine (hs.retained i hi).imp_left fun hun => ?_
      simp [hun, hid]

/-- The main loop may go back to receiving at any time: what it drops stays at the broker. -/
theorem guarded_receiving (hs : Guarded Q cfg s) : Guarded Q cfg { s with phase := .receiving } := by
  refine hs.of_le rfl rfl rfl (fun p hp => ?_) (fun rest hr => by simp at hr) fun _ hi => hi
  simp only [State.inProcess, List.append_nil] at hp ⊢
  exact List.mem_append_left _ hp

/-- Every step keeps the invariant for `Q`, provided that a commit keeps `Q` and brings it about for
the commands of its batch. -/
theorem guarded_step {a : Action}
    (hmono : ∀ {cmd db db'}, Q cmd db → db.idempotency.rows ⊆ db'.idempotency.rows → Q cmd db')
    (hcommit : ∀ amb batch db result, a = .commit amb → s.phase = .writing batch →
      processBatch D amb s.db (batch.map (·.envelope)) = .ok (db, result) →
      ∀ cmd ∈ batch.map (·.envelope), Q cmd db)
    (hs : Guarded Q cfg s) (h : step D cfg s a = some s') : Guarded Q cfg s' := by
  cases moves_of_step h with
  | publish payload => exact guarded_publish hs payload
  | deliver ackOk hpay hid =>
    rename_i id payload
    have hsent : Guarded Q cfg { s with sent := id :: s.sent } :=
      hs.of_le rfl rfl rfl (fun _ hp => hp) (fun _ hr => hr) fun _ hi => hi
    exact guarded_consume hsent hpay ackOk
  -- the command moves from the channel to the batcher or on to the write thread
  | recvFull hphase hchannel =>
    refine hs.of_le rfl rfl rfl (fun p hp => ?_) (fun rest hr => by simp [flush] at hr) fun _ hi => hi
    simp only [flush, State.inProcess, hphase, hchannel, List.mem_append, List.mem_cons] at hp ⊢
    tauto
  | recv hphase hchannel =>
    refine hs.of_le rfl rfl rfl (fun p hp => ?_) (fun rest hr => hr) fun _ hi => hi
    simp only [State.inProcess, hphase, hchannel, List.mem_append, List.mem_cons] at hp ⊢
    tauto
  | flush hphase =>
    refine hs.of_le rfl rfl rfl (fun p hp => ?_) (fun rest hr => by simp [flush] at hr) fun _ hi => hi
    simp only [flush, State.inProcess, hphase, List.mem_append] at hp ⊢
    tauto
  | wait => exact hs
  | commit hphase hok =>
    exact guarded_commit hs hphase (fun _ hQ => hmono hQ (processBatch_settles hok).1)
      (hcommit _ _ _ _ rfl hphase hok)
  | abort => exact guarded_receiving hs
  | fail => exact guarded_receiving hs
  | ack ok hphase => exact guarded_ack hs hphase ok
  | acked => exact guarded_receiving hs
  | sendAck hacks => exact guarded_sendAck hs hacks
  | reconnect keepAcks =>
    refine hs.of_le rfl rfl rfl (fun p hp => hp) (fun rest hr => hr) fun id hid => ?_
    cases keepAcks with
    | false => simp at hid
    | true => exact hid
  | crash =>
    exact hs.of_le rfl rfl rfl (fun p hp => by simp [State.inProcess] at hp)
      (fun rest hr => by simp at hr) fun id hid => by simp at hid

end Guarded

/-- The invariant of the writer: what it acknowledges, and what the broker has forgotten, is settled. -/
abbrev Inv (cfg : Config) (s : State) : Prop := Guarded Settled cfg s

theorem inv_init (cfg : Config) : Inv cfg (init cfg) := guarded_init Settled cfg

theorem inv_step {a : Action} (hs : Inv cfg s) (h : step D cfg s a = some s') : Inv cfg s' := by
  refine guarded_step (fun hset hsub => hset.mono hsub) ?_ hs h
  intro amb batch db result _ _ hok
  exact (processBatch_settles hok).2

/-- **No command is lost on the way in.**  In every reachable state, a decodable message that was
ever published is still unacknowledged at the broker, or the database has decided about its
command. -/
theorem no_command_lost (D : Deps) (cfg : Config) (s : State)
    (hreach : Reachable (step D cfg) (init cfg) s) (id : ℕ) (payload : Bytes) (cmd : WriteEnvelope)
    (hpub : s.published[id]? = some payload) (hdec : cfg.decode payload = some cmd) :
    id ∈ s.unacked ∨ Settled cmd s.db := by
  have hinv : Inv cfg s := hreach.invariant (inv_init cfg) fun s a s' hs h => inv_step hs h
  rcases hinv.retained id (List.getElem?_eq_some_iff.1 hpub).1 with hun | hf
  · exact Or.inl hun
  · obtain ⟨payload', hpay', hset⟩ := hf
    rw [hpub, Option.some.injEq] at hpay'
    exact Or.inr (hset cmd (hpay' ▸ hdec))

/-- The message of an upsert, as the API publishes it. -/
def sampleMessage : Bytes := History.sampleDeps.toVec (History.sampleUpsert "a" 1).toJson

/-- A writer for `main` that flushes every command at once. -/
def sampleConfig : Config where
  storeName := "main"
  batchSize := 1
  channelCapacity := 5000
  decode payload := if payload = sampleMessage then some (History.sampleUpsert "a" 1) else none

/-- The upsert is delivered, committed and acknowledged. -/
def sampleActions : List Action :=
  [.publish sampleMessage, .deliver 0 true, .recv false, .commit fun _ => History.sampleAmbient,
    .ack true, .sendAck]

theorem no_command_lost_after_sendAck :
    ∃ s, Reachable (step History.sampleDeps sampleConfig) (init sampleConfig) s ∧
      s.unacked = [] ∧ s.published = [sampleMessage] ∧
      Settled (History.sampleUpsert "a" 1) s.db := by
  have hrun : (runFrom (step History.sampleDeps sampleConfig) (init sampleConfig) sampleActions).map
      (fun s => (s.unacked, s.published)) = some ([], [sampleMessage]) := by decide +kernel
  obtain ⟨s, hreach, hs⟩ := exists_reachable hrun
  obtain ⟨hun, hpub⟩ := Prod.mk.inj hs
  refine ⟨s, hreach, hun, hpub, ?_⟩
  have hlost := no_command_lost History.sampleDeps sampleConfig s hreach 0 sampleMessage
    (History.sampleUpsert "a" 1) (by simp [hpub]) (by simp [sampleConfig])
  simpa [hun] using hlost

end Ingest

end Ixmati
