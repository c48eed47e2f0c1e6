import Ixmati.System.Step
import Ixmati.Writer.Consistency
import Ixmati.Lib.Backlog

/-!
# Coherence of the cache

The cache is a copy of the payload table that follows the commits through the queue of the worker,
and into which every read that misses puts what it selected.  The second way has no order with the
first: between the `SELECT` of a read and its `SET`, a later version can be committed *and* arrive in
the cache, and the read then puts the old one back, for good.

The copy with its backlog applied is coherent (`Synced`) as long as each fill brings the current row,
or one that a queued update will replace (`KeepsCoherent`).  Names matter too: two names must not
have one cache key (`("a:b", "c")` and `("a", "b:c")` have), and none may interfere with the protocol.

* `Synced` is what every such step keeps, `synced_step`;
* `coherent_at_quiescence` : when everything has settled, each entry is absent or current;
* `stale_fill_outlives_delete` : a run with a late fill, after which a deleted entity is cached.
-/

namespace Ixmati

open WriteEngine

namespace System

variable {D : Deps} {cfg : Config} {s s' : State} {a : Action} {N : Set (String × String)}

/-! ### Updates of the cache -/

/-- The cache key of an entity and key of the store. -/
def cacheKey (store : String) (n : String × String) : String :=
  (Cache.Name.entity store n.1 n.2).toKey

/-- The payloads in the table of the store, by entity and key. -/
def payloads (db : Database) (store : String) (n : String × String) : Option Bytes :=
  (History.findPayload db store n.1 n.2).map (·.payload)

/-- What a command leaves under its key. -/
def leaves (D : Deps) (cmd : WriteEnvelope) : Option Bytes :=
  if cmd.op = "delete" then none else some (D.toVec cmd.payload)

/-- The update of the cache that the worker makes for a command. -/
def update (D : Deps) (cmd : WriteEnvelope) : String × Option Bytes :=
  (cacheKey cmd.store (cmd.entity, cmd.key), leaves D cmd)

/-- The commands that the worker has still to apply, oldest first. -/
def State.pending (s : State) : List WriteEnvelope :=
  s.job ++ s.queue.flatten ++ s.phase.events.map eventToCacheCommand

/-- Their updates. -/
def State.backlog (D : Deps) (s : State) : List (String × Option Bytes) := s.pending.map (update D)

/-- An ending of an event type and its last part: one of them ends with the other. -/
theorem ends_eventType {a : Ambient} {cmd : WriteEnvelope} {ending : List Char}
    (h : ending <:+ (eventOf a cmd).eventType.toList) :
    ending <:+ ("." ++ eventSuffix cmd.op).toList ∨ ("." ++ eventSuffix cmd.op).toList <:+ ending := by
  have htype : (eventOf a cmd).eventType.toList =
      cmd.entity.toList ++ ("." ++ eventSuffix cmd.op).toList := by
    simp [eventOf, String.toList_append]
  rw [htype] at h
  exact List.suffix_or_suffix_of_suffix h (List.suffix_append ..)

/-- The type of an event says whether its command is a delete. -/
theorem eliminado_suffix_iff (a : Ambient) (cmd : WriteEnvelope) :
    ".eliminado".toList <:+ (eventOf a cmd).eventType.toList ↔ cmd.op = "delete" := by
  constructor
  · intro h
    by_contra hdel
    have hends := ends_eventType h
    unfold eventSuffix at hends
    rw [if_neg hdel] at hends
    split_ifs at hends
    all_goals revert hends; decide
  · intro hdel
    have htype : (eventOf a cmd).eventType.toList = cmd.entity.toList ++ ".eliminado".toList := by
      simp [eventOf, eventSuffix, hdel, String.toList_append]
    rw [htype]
    exact List.suffix_append _ _

/-- The event of a command is taken for a deletion exactly when the command is one. -/
theorem op_eventToCacheCommand (a : Ambient) (cmd : WriteEnvelope) :
    (eventToCacheCommand (eventOf a cmd)).op = "delete" ↔ cmd.op = "delete" := by
  rw [← eliminado_suffix_iff a cmd, ← List.isSuffixOf_iff_suffix]
  unfold eventToCacheCommand
  cases List.isSuffixOf ".eliminado".toList (eventOf a cmd).eventType.toList <;> simp

theorem update_eventToCacheCommand (D : Deps) (a : Ambient) (cmd : WriteEnvelope) :
    update D (eventToCacheCommand (eventOf a cmd)) =
      (cacheKey cmd.store (cmd.entity, cmd.key), leaves D cmd) := by
  have hop := op_eventToCacheCommand a cmd
  unfold update leaves
  by_cases hdel : cmd.op = "delete"
  · rw [if_pos hdel, if_pos (hop.2 hdel)]
    rfl
  · rw [if_neg hdel, if_neg fun h => hdel (hop.1 h)]
    rfl

/-- An applied command changes the payload of its own key only. -/
theorem payloads_applies {am : Ambient} {tx tx' : Database} {cmd : WriteEnvelope}
    (h : Applies D am tx cmd tx') :
    payloads tx' cmd.store =
      Function.update (payloads tx cmd.store) (cmd.entity, cmd.key) (leaves D cmd) := by
  obtain ⟨t, ht, hpay⟩ := h.payload
  funext n
  have hold : payloads tx cmd.store n = (t.find? n).map (·.payload) := by
    simp [payloads, History.findPayload, ht]
  simp only [payloads, History.findPayload, hpay, Function.update_self, Option.bind_some]
  by_cases hn : n = (cmd.entity, cmd.key)
  · subst hn
    rw [Function.update_self]
    by_cases hdel : cmd.op = "delete"
    · simp [hdel, leaves]
    · rw [if_neg hdel, Table.find?_upsert]
      simp [hdel, leaves, payloadRowOf, PayloadRow.pk]
  · rw [Function.update_of_ne hn, hold]
    by_cases hdel : cmd.op = "delete"
    · simp [hdel, hn]
    · rw [if_neg hdel, Table.find?_upsert]
      simp [payloadRowOf, PayloadRow.pk, hn]

/-- The events of a batch are those of commands of the batch, and bring a coherent copy to the new
payloads. -/
theorem coherent_of_processLoop {store : String} (hkey : Set.InjOn (cacheKey store) N)
    {amb : ℕ → Ambient} {tx tx' : Database} {result result' : BatchResult}
    {cmds : List WriteEnvelope}
    (hcmds : ∀ cmd ∈ cmds, cmd.store = store ∧ (cmd.entity, cmd.key) ∈ N)
    (hok : processLoop D amb tx result cmds = .ok (tx', result')) :
    ∃ events, result'.events = result.events ++ events ∧
      (∀ event ∈ events, ∃ am, ∃ cmd ∈ cmds, event = eventOf am cmd) ∧
      ∀ copy, Coherent N (cacheKey store) (payloads tx store) copy →
        Coherent N (cacheKey store) (payloads tx' store)
          (settle copy ((events.map eventToCacheCommand).map (update D))) := by
  induction cmds generalizing amb tx result with
  | nil =>
    simp only [processLoop, Except.ok.injEq, Prod.mk.injEq] at hok
    obtain ⟨rfl, rfl⟩ := hok
    exact ⟨[], by simp, by simp, fun copy h => h⟩
  | cons cmd cmds ih =>
    obtain ⟨tx₁, o, hc, hrest⟩ := processLoop_cons_ok.1 hok
    obtain ⟨events, hevents, hfrom, hcoh⟩ :=
      ih (fun c hcmd => hcmds c (List.mem_cons_of_mem _ hcmd)) hrest
    have hfrom' : ∀ event ∈ events, ∃ am, ∃ c ∈ cmd :: cmds, event = eventOf am c := by
      intro event hevent
      obtain ⟨am, c, hmem, heq⟩ := hfrom event hevent
      exact ⟨am, c, List.mem_cons_of_mem _ hmem, heq⟩
    rcases processCommand_cases hc with ⟨rfl, rfl, -⟩ | ⟨rfl, rfl, -⟩ | ⟨rfl, rfl, -⟩ |
      ⟨rfl, happ⟩
    · exact ⟨events, hevents, hfrom', hcoh⟩
    · exact ⟨events, hevents, hfrom', hcoh⟩
    · exact ⟨events, hevents, hfrom', hcoh⟩
    · -- the command is applied, and its event comes before those of the rest
      obtain ⟨hstore, hmem⟩ := hcmds cmd (List.mem_cons_self ..)
      refine ⟨eventOf (amb 0) cmd :: events, ?_, ?_, fun copy hcopy => ?_⟩
      · rw [hevents]
        simp [BatchResult.add]
      · intro event hevent
        rcases List.mem_cons.1 hevent with rfl | hevent
        · exact ⟨_, cmd, List.mem_cons_self .., rfl⟩
        · exact hfrom' event hevent
      · rw [List.map_cons, List.map_cons, settle_cons, update_eventToCacheCommand]
        refine hcoh _ ?_
        have hpay := payloads_applies happ
        rw [hstore] at hpay
        rw [hpay, hstore]
        exact hcopy.emit hkey hmem _

/-! ### Exchanges that do not interfere -/

/-- The names have one cache key each, and the keys do not interfere with the protocol. -/
structure Unambiguous (store : String) (N : Set (String × String)) : Prop where
  injOn : Set.InjOn (cacheKey store) N
  token : ∀ n ∈ N, Cache.Token (cacheKey store n).toList
  word : ∀ n ∈ N, Cache.Word (cacheKey store n).toList

theorem Unambiguous.wellFormed_get {store entity key : String} (hN : Unambiguous store N)
    (hmem : (entity, key) ∈ N) :
    (Cache.Call.get (.entity store entity key)).command.WellFormed := by
  have htoken := hN.token _ hmem
  unfold cacheKey at htoken
  exact htoken

theorem Unambiguous.wellFormed_set {store entity key : String} {bytes : Bytes}
    (hN : Unambiguous store N) (hmem : (entity, key) ∈ N) (hlen : bytes.length < 2 ^ 63) :
    (Cache.Call.set (.entity store entity key) bytes).command.WellFormed := by
  have hword := hN.word _ hmem
  unfold cacheKey at hword
  exact ⟨hword, hlen⟩

theorem apply_set (store entity key : String) (bytes : Bytes) (e : Cache.Entries) :
    (Cache.Call.set (.entity store entity key) bytes).command.apply e =
      Function.update e (cacheKey store (entity, key)) (some bytes) := rfl

/-- The command fits the store and the protocol. -/
structure Fits (D : Deps) (store : String) (N : Set (String × String)) (cmd : WriteEnvelope) :
    Prop where
  store_eq : cmd.store = store
  name : (cmd.entity, cmd.key) ∈ N
  length : (D.toVec cmd.payload).length < 2 ^ 63

theorem Fits.wellFormed (hN : Unambiguous cfg.store N) {cmd : WriteEnvelope}
    (h : Fits D cfg.store N cmd) : (syncCall D cmd).command.WellFormed := by
  have htoken := hN.token _ h.name
  have hword := hN.word _ h.name
  rw [← h.store_eq] at htoken hword
  unfold syncCall
  split_ifs
  · exact htoken
  · exact ⟨hword, h.length⟩

/-- The call of the worker makes the update of the command. -/
theorem apply_syncCall (D : Deps) (cmd : WriteEnvelope) (e : Cache.Entries) :
    (syncCall D cmd).command.apply e = Function.update e (update D cmd).1 (update D cmd).2 := by
  unfold syncCall update leaves
  split_ifs <;> rfl

theorem accepted_syncCall (D : Deps) (cmd : WriteEnvelope) (e : Cache.Entries) :
    (syncCall D cmd).accepted [(syncCall D cmd).command.reply e] = true := by
  unfold syncCall
  split_ifs <;> rfl

/-! ### What the steps keep -/

/-- The read that fills the cache, and what with. -/
def State.filling (s : State) (i : ℕ) : Option (Read × Bytes) :=
  s.reads[i]?.bind fun r =>
    match r.stage with
    | .filling bytes _ => some (r, bytes)
    | _ => none

/-- What a fill brings is the current payload, or an update of its key is still to come. -/
def FillsWell (D : Deps) (cfg : Config) (s : State) (r : Read) (bytes : Bytes) : Prop :=
  bytes.length < 2 ^ 63 ∧
    (cacheKey cfg.store (r.entity, r.key) ∈ (s.backlog D).map Prod.fst ∨
      payloads s.history.db cfg.store (r.entity, r.key) = some bytes)

/-- The condition on the steps: they name what is in `N`, with values that a slice of Rust can hold,
and each fill brings the current payload or one that will be replaced. -/
def KeepsCoherent (D : Deps) (cfg : Config) (N : Set (String × String)) (s : State) : Action → Prop
  | .commit _ batch =>
    ∀ cmd ∈ s.delivered cfg batch,
      (cmd.entity, cmd.key) ∈ N ∧ (D.toVec cmd.payload).length < 2 ^ 63
  | .startRead entity key => (entity, key) ∈ N
  | .fill i _ => ∀ p ∈ s.filling i, FillsWell D cfg s p.1 p.2
  | _ => True

instance (r : Read) (bytes : Bytes) : Decidable (FillsWell D cfg s r bytes) :=
  inferInstanceAs (Decidable (_ ∧ _))

instance [DecidablePred (· ∈ N)] : DecidablePred (KeepsCoherent D cfg N s)
  | .commit _ batch => inferInstanceAs (Decidable (∀ cmd ∈ s.delivered cfg batch,
      (cmd.entity, cmd.key) ∈ N ∧ (D.toVec cmd.payload).length < 2 ^ 63))
  | .startRead entity key => inferInstanceAs (Decidable ((entity, key) ∈ N))
  | .fill i _ => inferInstanceAs (Decidable (∀ p ∈ s.filling i, FillsWell D cfg s p.1 p.2))
  | .submit .. | .refuse .. | .poll .. | .deadline .. | .enqueue | .receive | .sync .. | .get .. |
    .select .. => isTrue trivial

/-- The cache with its backlog applied is coherent, unless something was lost on the way. -/
structure Synced (D : Deps) (cfg : Config) (N : Set (String × String)) (s : State) : Prop where
  pending : ∀ cmd ∈ s.pending, Fits D cfg.store N cmd
  reads : ∀ r ∈ s.reads, (r.entity, r.key) ∈ N
  coherent : s.dropped = 0 → s.errors = 0 →
    Coherent N (cacheKey cfg.store) (payloads s.history.db cfg.store) (settle s.cache (s.backlog D))

theorem synced_init (D : Deps) (cfg : Config) (N : Set (String × String)) :
    Synced D cfg N (init cfg) := by
  refine ⟨?_, ?_, fun _ _ n _ => Or.inl ?_⟩ <;>
    simp [init, State.pending, State.backlog, Phase.events]

/-- A step that leaves database, cache and backlog alone keeps the invariant. -/
theorem Synced.of_eq (hs : Synced D cfg N s) (hdb : s'.history.db = s.history.db)
    (hpending : s'.pending = s.pending) (hcache : s'.cache = s.cache)
    (hdropped : s'.dropped = s.dropped) (herrors : s'.errors = s.errors)
    (hreads : ∀ r ∈ s'.reads, (r.entity, r.key) ∈ N) : Synced D cfg N s' := by
  refine ⟨hpending ▸ hs.pending, hreads, fun h₁ h₂ => ?_⟩
  have hcoh := hs.coherent (hdropped ▸ h₁) (herrors ▸ h₂)
  unfold State.backlog at hcoh ⊢
  rw [hdb, hpending, hcache]
  exact hcoh

/-- A read that goes on keeps its names. -/
theorem Synced.reads_setStage (hs : Synced D cfg N s) {i : ℕ} {r : Read} (stage : Stage)
    (hread : s.reads[i]? = some r) :
    ∀ x ∈ (s.setStage i r stage).reads, (x.entity, x.key) ∈ N := by
  intro x hx
  rcases List.mem_or_eq_of_mem_set hx with hx | rfl
  · exact hs.reads x hx
  · exact hs.reads r (List.mem_of_getElem? hread)

theorem synced_commit (hN : Unambiguous cfg.store N) (hs : Synced D cfg N s)
    {ambient : ℕ → Ambient} {batch : List ℕ} {db : Database} {result : BatchResult}
    (hphase : s.phase = .receiving)
    (hcmds : ∀ cmd ∈ s.delivered cfg batch,
      (cmd.entity, cmd.key) ∈ N ∧ (D.toVec cmd.payload).length < 2 ^ 63)
    (hok : processBatch D ambient s.history.db (s.delivered cfg batch) = .ok (db, result)) :
    Synced D cfg N (s.afterBatch D ambient (s.delivered cfg batch) db result) := by
  have hfits : ∀ cmd ∈ s.delivered cfg batch, Fits D cfg.store N cmd := fun cmd hcmd =>
    ⟨(mem_delivered hcmd).2, (hcmds cmd hcmd).1, (hcmds cmd hcmd).2⟩
  obtain ⟨events, hevents, hfrom, hcoh⟩ := coherent_of_processLoop hN.injOn
    (fun cmd hcmd => ⟨(hfits cmd hcmd).store_eq, (hfits cmd hcmd).name⟩) hok
  rw [List.nil_append] at hevents
  have hpending : (s.afterBatch D ambient (s.delivered cfg batch) db result).pending =
      s.pending ++ events.map eventToCacheCommand := by
    simp [State.pending, State.afterBatch, Phase.events, hphase, hevents]
  refine ⟨fun cmd hcmd => ?_, hs.reads, fun h₁ h₂ => ?_⟩
  · rw [hpending] at hcmd
    rcases List.mem_append.1 hcmd with hcmd | hcmd
    · exact hs.pending cmd hcmd
    · obtain ⟨event, hevent, rfl⟩ := List.mem_map.1 hcmd
      obtain ⟨am, cmd, hmem, rfl⟩ := hfrom event hevent
      exact ⟨(hfits cmd hmem).store_eq, (hfits cmd hmem).name, (hfits cmd hmem).length⟩
  · unfold State.backlog
    rw [hpending, List.map_append, settle_append]
    exact hcoh _ (hs.coherent h₁ h₂)

theorem synced_sync (hN : Unambiguous cfg.store N) (hs : Synced D cfg N s) (link : Link)
    {cmd : WriteEnvelope} {job : List WriteEnvelope} (hjob : s.job = cmd :: job) :
    Synced D cfg N { s with
      job := job
      cache := (exchange s.cache (syncCall D cmd) link).1
      errors := if (syncCall D cmd).accepted (exchange s.cache (syncCall D cmd) link).2 then
        s.errors else s.errors + 1 } := by
  have hpending : s.pending = cmd :: State.pending { s with job := job } := by
    simp [State.pending, hjob]
  have hwf : (syncCall D cmd).command.WellFormed :=
    (hs.pending cmd (hpending ▸ List.mem_cons_self ..)).wellFormed hN
  refine ⟨fun c hc => hs.pending c (hpending ▸ List.mem_cons_of_mem _ hc), hs.reads,
    fun h₁ h₂ => ?_⟩
  by_cases hlink : link = .up
  · -- the update at the front of the backlog moves into the cache
    subst hlink
    simp only [exchange_up hwf, accepted_syncCall, if_true] at h₂ ⊢
    have hcoh := hs.coherent h₁ h₂
    rw [State.backlog, hpending, List.map_cons, settle_cons, ← apply_syncCall] at hcoh
    exact hcoh
  · simp only [not_accepted_of_down _ _ hlink, Bool.false_eq_true, if_false] at h₂
    omega

theorem synced_fill (hN : Unambiguous cfg.store N) (hs : Synced D cfg N s) {i : ℕ} (link : Link)
    {r : Read} {bytes : Bytes} (stage : Stage) (hread : s.reads[i]? = some r)
    (hfill : FillsWell D cfg s r bytes) :
    Synced D cfg N { s.setStage i r stage with
      cache := (exchange s.cache (.set (.entity cfg.store r.entity r.key) bytes) link).1 } := by
  have hmem : (r.entity, r.key) ∈ N := hs.reads r (List.mem_of_getElem? hread)
  have hwf := hN.wellFormed_set hmem hfill.1
  refine ⟨hs.pending, hs.reads_setStage stage hread, fun h₁ h₂ => ?_⟩
  by_cases hlink : link = .lost
  · subst hlink
    exact hs.coherent h₁ h₂
  · have hcoh := (hs.coherent h₁ h₂).fill hN.injOn hmem hfill.2
    rw [← apply_set, ← exchange_entries hwf _ hlink] at hcoh
    exact hcoh

theorem synced_get (hN : Unambiguous cfg.store N) (hs : Synced D cfg N s) {i : ℕ} (link : Link)
    {r : Read} (stage : Stage) (hread : s.reads[i]? = some r) :
    Synced D cfg N { s.setStage i r stage with
      cache := (exchange s.cache (.get (.entity cfg.store r.entity r.key)) link).1 } := by
  have hwf := hN.wellFormed_get (hs.reads r (List.mem_of_getElem? hread))
  refine hs.of_eq rfl rfl ?_ rfl rfl (hs.reads_setStage stage hread)
  by_cases hlink : link = .lost
  · subst hlink
    rfl
  · exact exchange_entries hwf _ hlink

theorem synced_step (hN : Unambiguous cfg.store N) (hs : Synced D cfg N s)
    (ha : KeepsCoherent D cfg N s a) (h : step D cfg s a = some s') : Synced D cfg N s' := by
  cases moves_of_step h with
  | commit hphase hok => exact synced_commit hN hs hphase ha hok
  | skip hphase => exact hs.of_eq rfl (by simp [State.pending, Phase.events, hphase]) rfl rfl rfl hs.reads
  | enqueue hphase hroom => exact hs.of_eq rfl (by simp [State.pending, Phase.events, hphase]) rfl rfl rfl hs.reads
  | drop hphase hne hfull =>
    -- a dropped job is gone for good, and nothing is promised any more
    refine ⟨fun cmd hcmd => hs.pending cmd ?_, hs.reads, fun h₁ => by simp at h₁⟩
    simp only [State.pending, Phase.events, List.map_nil, List.append_nil, hphase] at hcmd ⊢
    exact List.mem_append_left _ hcmd
  | receive hjob hqueue =>
    exact hs.of_eq rfl (by simp [State.pending, hjob, hqueue]) rfl rfl rfl hs.reads
  | sync link hjob => exact synced_sync hN hs link hjob
  | startRead entity key =>
    refine hs.of_eq rfl rfl rfl rfl rfl fun r hr => ?_
    rcases List.mem_append.1 hr with hr | hr
    · exact hs.reads r hr
    · rw [List.mem_singleton] at hr
      subst hr
      exact ha
  | get link hread hstage => exact synced_get hN hs link _ hread
  | select hread hstage =>
    exact hs.of_eq rfl rfl rfl rfl rfl (hs.reads_setStage _ hread)
  | fault detail hread hstage =>
    exact hs.of_eq rfl rfl rfl rfl rfl (hs.reads_setStage _ hread)
  | fill link hread hstage =>
    refine synced_fill hN hs link _ hread (ha (_, _) ?_)
    simp [State.filling, hread, hstage]
  | _ => exact hs.of_eq rfl rfl rfl rfl rfl hs.reads

/-! ### Quiescence -/

/-- The read has returned. -/
def Read.done (r : Read) : Bool :=
  match r.stage with
  | .returned .. => true
  | _ => false

/-- No read is on its way, the worker has nothing left to do, and nothing was lost. -/
def Quiescent (s : State) : Prop :=
  (∀ r ∈ s.reads, r.done = true) ∧ s.pending = [] ∧ s.dropped = 0 ∧ s.errors = 0

instance : Decidable (Quiescent s) := inferInstanceAs (Decidable (_ ∧ _))

/-- The cache entry of a name is absent, or the payload of its row; so it is absent when there is no
row. -/
def EntryIsCurrent (cfg : Config) (s : State) (n : String × String) : Prop :=
  s.cache (cacheKey cfg.store n) = none ∨
    ∃ row, History.findPayload s.history.db cfg.store n.1 n.2 = some row ∧
      s.cache (cacheKey cfg.store n) = some row.payload

/-- **The cache is coherent at quiescence**, in every run whose reads bring the current payload to
the cache, or one that a queued update replaces. -/
theorem coherent_at_quiescence (D : Deps) (cfg : Config) (N : Set (String × String))
    (hN : Unambiguous cfg.store N) (as : List Action) (s : State)
    (hmeet : StepsMeet (step D cfg) (KeepsCoherent D cfg N) (init cfg) as)
    (hrun : runFrom (step D cfg) (init cfg) as = some s) (hquiet : Quiescent s) :
    ∀ n ∈ N, EntryIsCurrent cfg s n := by
  have hs : Synced D cfg N s :=
    invariant_of_stepsMeet (fun s a s' hs ha h => synced_step hN hs ha h) (synced_init D cfg N)
      hmeet hrun
  obtain ⟨-, hpending, hdropped, herrors⟩ := hquiet
  intro n hn
  have hcoh := hs.coherent hdropped herrors n hn
  rw [State.backlog, hpending, List.map_nil, settle_nil] at hcoh
  rcases hcoh with hnone | hsome
  · exact Or.inl hnone
  · cases hrow : History.findPayload s.history.db cfg.store n.1 n.2 with
    | none => exact Or.inl (hsome.trans (by simp [payloads, hrow]))
    | some row => exact Or.inr ⟨row, hrow, hsome.trans (by simp [payloads, hrow])⟩

/-- A delete of `user/1` in the store `main`. -/
def sampleDelete (idempotencyKey : String) (version : UInt64) : WriteEnvelope :=
  { History.sampleUpsert idempotencyKey version with op := "delete" }

/-- A read misses, selects a row that is just committed, and fills before the worker does. -/
def sampleRead : List Action :=
  [.submit (History.sampleUpsert "a" 1) "", .commit (fun _ => History.sampleAmbient) [0],
    .startRead "user" "1", .get 0 .up, .get 0 .up, .select 0 none, .fill 0 .up,
    .enqueue, .receive, .sync .up]

theorem unambiguous_user : Unambiguous "main" {n | n = ("user", "1")} := by
  refine ⟨?_, ?_, ?_⟩
  · rintro n rfl m rfl -
    rfl
  · rintro n rfl
    decide +kernel
  · rintro n rfl
    decide +kernel

theorem coherent_at_quiescence_of_a_read :
    ∃ s, StepsMeet (step History.sampleDeps sampleConfig)
        (KeepsCoherent History.sampleDeps sampleConfig {n | n = ("user", "1")})
        (init sampleConfig) sampleRead ∧
      runFrom (step History.sampleDeps sampleConfig) (init sampleConfig) sampleRead = some s ∧
      Quiescent s ∧ s.cache "c:main:user:1" ≠ none ∧
      EntryIsCurrent sampleConfig s ("user", "1") := by
  have hmeet : StepsMeet (step History.sampleDeps sampleConfig)
      (KeepsCoherent History.sampleDeps sampleConfig {n | n = ("user", "1")})
      (init sampleConfig) sampleRead := by
    decide +kernel
  have hrun : (runFrom (step History.sampleDeps sampleConfig) (init sampleConfig)
      sampleRead).map (fun s => decide (Quiescent s ∧ s.cache "c:main:user:1" ≠ none)) =
        some true := by
    decide +kernel
  obtain ⟨s, hs, hdec⟩ := Option.map_eq_some_iff.1 hrun
  obtain ⟨hquiet, hcached⟩ := of_decide_eq_true hdec
  exact ⟨s, hmeet, hs, hquiet, hcached, coherent_at_quiescence History.sampleDeps sampleConfig _
    unambiguous_user sampleRead s hmeet hs hquiet _ rfl⟩

/-- The read selects version 1; version 1 and then the delete arrive in the cache; the read puts
version 1 back. -/
def sampleLateFill : List Action :=
  [.submit (History.sampleUpsert "a" 1) "", .commit (fun _ => History.sampleAmbient) [0],
    .startRead "user" "1", .get 0 .up, .get 0 .up, .select 0 none,
    .enqueue, .receive, .sync .up,
    .submit (sampleDelete "b" 2) "", .commit (fun _ => History.sampleAmbient) [1],
    .enqueue, .receive, .sync .up, .fill 0 .up]

/-- A deleted entity stays in the cache. -/
theorem stale_fill_outlives_delete :
    ∃ s, Reachable (step History.sampleDeps sampleConfig) (init sampleConfig) s ∧ Quiescent s ∧
      History.findPayload s.history.db "main" "user" "1" = none ∧
      s.cache "c:main:user:1" ≠ none ∧ ¬ EntryIsCurrent sampleConfig s ("user", "1") := by
  have hrun : (runFrom (step History.sampleDeps sampleConfig) (init sampleConfig)
      sampleLateFill).map (fun s => decide (Quiescent s ∧
        History.findPayload s.history.db "main" "user" "1" = none ∧
        s.cache (cacheKey "main" ("user", "1")) ≠ none ∧ s.cache "c:main:user:1" ≠ none)) =
          some true := by
    decide +kernel
  obtain ⟨s, hreach, hs⟩ := exists_reachable hrun
  obtain ⟨hquiet, hnone, hkey, hcached⟩ := of_decide_eq_true hs
  refine ⟨s, hreach, hquiet, hnone, hcached, ?_⟩
  rintro (h | ⟨row, hrow, -⟩)
  · exact hkey h
  · have : (none : Option PayloadRow) = some row := hnone.symm.trans hrow
    cases this

end System

end Ixmati
