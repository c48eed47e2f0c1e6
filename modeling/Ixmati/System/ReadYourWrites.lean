import Ixmati.System.Acknowledgement
import Ixmati.System.Coherence

/-!
# Reading one's writes

The `200` of a write comes from the database, and a read prefers the cache, which the worker brings
up to date later.  A client that reads right after its `200` can therefore be given the version
before its own.

When a read asks the cache only while no update of its key is on its way, what it finds is the
current payload, and what it selects is current anyway.  Then the answer of a read that began after
a `200` is the acknowledged version, unless a later one was applied before it returned:

* `ReadOk` is what every step keeps of each read, with the log it began with;
* `reads_own_writes` : every answer shows the writes acknowledged before;
* `hit_before_sync_is_stale` : a run in which it does not.
-/

namespace Ixmati

open WriteEngine

namespace System

variable {D : Deps} {cfg : Config} {s s' : State} {a : Action} {N : Set (String × String)}

/-! ### Answers -/

/-- The entry of the log is the command itself. -/
def Own (D : Deps) (c : WriteEnvelope) (it : Iteration) : Prop :=
  it.cmd.SameRequest c ∧ it.cmd.SameWrite c ∧ D.toVec it.cmd.payload = D.toVec c.payload

/-- No entry on the key has a later version. -/
def NoLaterVersion (c : WriteEnvelope) (log : List Iteration) : Prop :=
  ∀ it ∈ log, it.cmd.entity = c.entity → it.cmd.key = c.key → it.cmd.version ≤ c.version

instance (c : WriteEnvelope) (it : Iteration) : Decidable (Own D c it) :=
  inferInstanceAs (Decidable (_ ∧ _))

instance (c : WriteEnvelope) (log : List Iteration) : Decidable (NoLaterVersion c log) :=
  inferInstanceAs (Decidable (∀ it ∈ log, _))

/-- The answer to a read that shows the command: its document, or nothing after a delete. -/
def Shows (D : Deps) (cfg : Config) (c : WriteEnvelope)
    (result : Except (ℕ × CoreError) ReadResult) : Prop :=
  if c.op = "delete" then result = .ok (.notFound cfg.store c.entity c.key)
  else ∃ source, result =
    .ok (.found cfg.store c.entity c.key source ((D.fromSlice (D.toVec c.payload)).getD .null))

/-- The answer of a read that returned when the log was `log` shows the writes that were
acknowledged before it began: each that was applied itself, and with no later version. -/
def Answers (D : Deps) (cfg : Config) (r : Read) (result : Except (ℕ × CoreError) ReadResult)
    (log : List Iteration) : Prop :=
  ∀ c ∈ r.acked, c.entity = r.entity → c.key = r.key → (∃ it ∈ log, Own D c it) →
    NoLaterVersion c log → Shows D cfg c result

/-- Every read that has returned shows the writes that were acknowledged before it began. -/
def ReadsOwnWrites (D : Deps) (cfg : Config) (s : State) : Prop :=
  ∀ r ∈ s.reads, ∀ result log, r.stage = .returned result log → Answers D cfg r result log

/-! ### Rows and the log -/

/-- The payload of a key is what the last entry on it leaves. -/
theorem payloads_eq_lastOn (hc : History.Consistent D cfg.store s.history) (entity key : String) :
    payloads s.history.db cfg.store (entity, key) =
      (s.history.lastOn entity key).bind fun it => leaves D it.cmd := by
  unfold payloads
  rw [hc.current.payload]
  cases s.history.lastOn entity key with
  | none => rfl
  | some it =>
    by_cases hdel : it.cmd.op = "delete"
    · simp [History.payloadRow, leaves, hdel]
    · simp [History.payloadRow, leaves, hdel, payloadRowOf]

theorem selectPayload_eq (hc : History.Consistent D cfg.store s.history) (entity key : String) :
    selectPayload s.history.db cfg.store entity key =
      .ok (payloads s.history.db cfg.store (entity, key)) := by
  obtain ⟨t, ht⟩ := Option.isSome_iff_exists.1 hc.current.exists_table
  simp [selectPayload, payloads, History.findPayload, ht]

/-- Each request is in the log once. -/
theorem eq_of_sameRequest (hj : History.Journaled D s.history) {x y : Iteration} (hx : x ∈ s.log)
    (hy : y ∈ s.log) (hxy : x.cmd.SameRequest y.cmd) : x = y := by
  refine hj.idempotencyRow_inj hx hy ?_
  refine s.history.db.idempotency.eq_of_pk_eq (hj.mem_idempotency.2 ⟨x, hx, rfl⟩)
    (hj.mem_idempotency.2 ⟨y, hy, rfl⟩) ?_
  exact Prod.ext hxy.1 hxy.2

/-- An applied command with no later version is the last one on its key. -/
theorem lastOn_of_noLaterVersion (hc : History.Consistent D cfg.store s.history)
    {c : WriteEnvelope} {it : Iteration} (hit : it ∈ s.log) (hown : Own D c it)
    (hlast : NoLaterVersion c s.log) : s.history.lastOn c.entity c.key = some it := by
  obtain ⟨-, ⟨-, hentity, hkey, hversion⟩, -⟩ := hown
  have hon : History.onKey c.entity c.key it = true := by
    simp [History.onKey, hentity, hkey]
  cases hx : s.history.lastOn c.entity c.key with
  | none => exact absurd hon (lastWhere_eq_none.1 hx it hit)
  | some x =>
    obtain ⟨hxmem, hxon⟩ := mem_of_lastWhere hx
    have hrow := hc.journaled.mem_idempotency.2 ⟨it, hit, rfl⟩
    rcases hc.lastOn_max hx _ hrow ((hc.names_iff hit).2 hon) with heq | hlt
    · rw [hc.journaled.idempotencyRow_inj hit hxmem heq]
    · -- the last one is not above the command, so the row of the command is not below it
      simp only [History.onKey, decide_eq_true_eq] at hxon
      have hle := hlast x hxmem hxon.1 hxon.2
      rw [← hversion] at hle
      have hle' := (toInt64_le_iff_of_lt (hc.fits x hxmem).2 (hc.fits it hit).2).2 hle
      exact absurd hlt (Int64.not_lt.2 hle')

/-! ### What the steps keep -/

/-- The condition on the steps besides `KeepsCoherent`: versions fit the column, nothing is lost on
the way to the cache, SQLite answers, and a read asks the cache for a key only while no update of
the key is on its way, unless there is no entry. -/
def Prompt (D : Deps) (cfg : Config) (s : State) : Action → Prop
  | .commit _ batch => ∀ cmd ∈ s.delivered cfg batch, cmd.version.toNat < 2 ^ 63
  | .enqueue => s.phase.events = [] ∨ s.queue.length < max cfg.capacity 1
  | .sync link => link = .up
  | .get i _ =>
    ∀ r ∈ s.reads[i]?, cacheKey cfg.store (r.entity, r.key) ∉ (s.backlog D).map Prod.fst ∨
      s.cache (cacheKey cfg.store (r.entity, r.key)) = none
  | .select _ fault => fault = none
  | _ => True

instance : DecidablePred (Prompt D cfg s)
  | .commit _ batch =>
    inferInstanceAs (Decidable (∀ cmd ∈ s.delivered cfg batch, cmd.version.toNat < 2 ^ 63))
  | .enqueue => inferInstanceAs (Decidable (_ ∨ _))
  | .sync _ => inferInstanceAs (Decidable (_ = _))
  | .get i _ => inferInstanceAs (Decidable (∀ r ∈ s.reads[i]?, _ ∨ _))
  | .select _ _ => inferInstanceAs (Decidable (_ = _))
  | .submit .. | .refuse .. | .poll .. | .deadline .. | .receive | .startRead .. | .fill .. =>
    isTrue trivial

/-- The condition on the steps. -/
def KeepsFresh (D : Deps) (cfg : Config) (N : Set (String × String)) (s : State) (a : Action) :
    Prop := KeepsCoherent D cfg N s a ∧ Prompt D cfg s a

instance [DecidablePred (· ∈ N)] : Decidable (KeepsFresh D cfg N s a) :=
  inferInstanceAs (Decidable (_ ∧ _))

/-- What holds of a read. -/
structure ReadOk (D : Deps) (cfg : Config) (s : State) (r : Read) : Prop where
  /-- The log has only grown since the read began. -/
  begun : r.before <+: s.log
  /-- The writes acknowledged by then were recorded by then. -/
  acked : ∀ c ∈ r.acked, ∃ it ∈ r.before, it.cmd.SameRequest c
  /-- What the read fills with is current, unless a later command was applied since it began. -/
  filling : ∀ bytes again, r.stage = .filling bytes again → ∀ it ∈ r.before,
    s.history.lastOn r.entity r.key = some it → leaves D it.cmd = some bytes
  returned : ∀ result log, r.stage = .returned result log → Answers D cfg r result log

/-- What every step keeps. -/
structure Fresh (D : Deps) (cfg : Config) (N : Set (String × String)) (s : State) : Prop where
  synced : Synced D cfg N s
  recorded : Recorded D s
  consistent : History.Consistent D cfg.store s.history
  lossless : s.dropped = 0 ∧ s.errors = 0
  reads : ∀ r ∈ s.reads, ReadOk D cfg s r

theorem ReadOk.of_history {r : Read} (hr : ReadOk D cfg s r) (h : s'.history = s.history) :
    ReadOk D cfg s' r := by
  refine ⟨?_, hr.acked, ?_, hr.returned⟩
  · unfold State.log
    rw [h]
    exact hr.begun
  · rw [h]
    exact hr.filling

/-- A read that goes on within the same history. -/
theorem ReadOk.setStage {r : Read} (hr : ReadOk D cfg s r) (h : s'.history = s.history)
    {stage : Stage}
    (hfilling : ∀ bytes again, stage = .filling bytes again → ∀ it ∈ r.before,
      s.history.lastOn r.entity r.key = some it → leaves D it.cmd = some bytes)
    (hreturned : ∀ result log, stage = .returned result log → Answers D cfg r result log) :
    ReadOk D cfg s' { r with stage := stage } := by
  refine ReadOk.of_history (s := s) ⟨hr.begun, hr.acked, hfilling, ?_⟩ h
  exact hreturned

/-- The reads after one of them went on. -/
theorem reads_setStage (hs : ∀ r ∈ s.reads, ReadOk D cfg s r) {i : ℕ} {r : Read} {stage : Stage}
    (h : s'.history = s.history) (hreads : s'.reads = s.reads.set i { r with stage := stage })
    (hnew : ReadOk D cfg s' { r with stage := stage }) : ∀ x ∈ s'.reads, ReadOk D cfg s' x := by
  intro x hx
  rw [hreads] at hx
  rcases List.mem_or_eq_of_mem_set hx with hx | rfl
  · exact (hs x hx).of_history h
  · exact hnew

/-! ### Answers from the last entry -/

theorem shows_of_own {c : WriteEnvelope} {it : Iteration}
    {result : Except (ℕ × CoreError) ReadResult} (hown : Own D c it)
    (h : Shows D cfg it.cmd result) : Shows D cfg c result := by
  obtain ⟨-, ⟨hop, hentity, hkey, -⟩, hpayload⟩ := hown
  unfold Shows at h ⊢
  rwa [hop, hentity, hkey, hpayload] at h

/-- An answer that shows the last entry on its key shows the acknowledged writes. -/
theorem Fresh.answers (hs : Fresh D cfg N s) {r : Read} (hr : ReadOk D cfg s r)
    {result : Except (ℕ × CoreError) ReadResult}
    (hres : ∀ it ∈ r.before, s.history.lastOn r.entity r.key = some it → it.cmd.entity = r.entity →
      it.cmd.key = r.key → Shows D cfg it.cmd result) : Answers D cfg r result s.log := by
  rintro c hc hentity hkey ⟨it, hit, hown⟩ hlast
  obtain ⟨x, hx, hreq⟩ := hr.acked c hc
  -- the command was recorded before the read began
  have hxit : x = it := eq_of_sameRequest hs.consistent.journaled (hr.begun.subset hx) hit
    ⟨hreq.1.trans hown.1.1.symm, hreq.2.trans hown.1.2.symm⟩
  have hl := lastOn_of_noLaterVersion hs.consistent hit hown hlast
  rw [hentity, hkey] at hl
  exact shows_of_own hown (hres it (hxit ▸ hx) hl (hown.2.1.2.1.trans hentity)
    (hown.2.1.2.2.1.trans hkey))

/-- The answer with a document that an entry left. -/
theorem shows_found {cmd : WriteEnvelope} {bytes : Bytes} (h : leaves D cmd = some bytes)
    (source : Source) :
    Shows D cfg cmd
      (.ok (.found cfg.store cmd.entity cmd.key source ((D.fromSlice bytes).getD .null))) := by
  unfold leaves at h
  split_ifs at h with hdel
  rw [Option.some.injEq] at h
  unfold Shows
  rw [if_neg hdel, h]
  exact ⟨source, rfl⟩

/-- The answer after a delete. -/
theorem shows_notFound {cmd : WriteEnvelope} (h : leaves D cmd = none) :
    Shows D cfg cmd (.ok (.notFound cfg.store cmd.entity cmd.key)) := by
  unfold leaves at h
  split_ifs at h with hdel
  unfold Shows
  rw [if_pos hdel]

/-- The last entry on a key left its payload. -/
theorem Fresh.leaves_eq (hs : Fresh D cfg N s) {entity key : String} {it : Iteration}
    (hl : s.history.lastOn entity key = some it) :
    payloads s.history.db cfg.store (entity, key) = leaves D it.cmd := by
  rw [payloads_eq_lastOn hs.consistent, hl, Option.bind_some]

/-! ### The steps of a read -/

/-- A hit is an entry of the cache. -/
theorem entry_of_hit {store entity key : String} (hN : Unambiguous store N)
    (hmem : (entity, key) ∈ N) {e : Cache.Entries} {link : Link} {payload : Bytes}
    (h : (exchange e (.get (.entity store entity key)) link).2.head? = some (.hit payload)) :
    e (cacheKey store (entity, key)) = some payload := by
  cases link with
  | up =>
    rw [exchange_up (hN.wellFormed_get hmem)] at h
    have hreply : (Cache.Call.get (.entity store entity key)).command.reply e =
        (e (cacheKey store (entity, key))).elim .miss .hit := Cache.Command.reply_get ..
    rw [List.head?_cons, Option.some.injEq, hreply] at h
    cases hentry : e (cacheKey store (entity, key)) with
    | none => simp [hentry] at h
    | some bytes =>
      simp only [hentry, Option.elim_some, Cache.Reply.hit.injEq] at h
      rw [h]
  | lost => cases h
  | unanswered => cases h

/-- After the answer of the cache. -/
theorem readOk_get (hN : Unambiguous cfg.store N) (hs : Fresh D cfg N s) {i : ℕ} {link : Link}
    {r : Read} {again : Bool} (hread : s.reads[i]? = some r)
    (hask : cacheKey cfg.store (r.entity, r.key) ∉ (s.backlog D).map Prod.fst ∨
      s.cache (cacheKey cfg.store (r.entity, r.key)) = none)
    (h : s'.history = s.history) :
    ReadOk D cfg s'
      { r with
        stage := stageAfterGet D cfg s r again
          (exchange s.cache (.get (.entity cfg.store r.entity r.key)) link).2 } := by
  have hr : ReadOk D cfg s r := hs.reads r (List.mem_of_getElem? hread)
  have hmem : (r.entity, r.key) ∈ N := hs.synced.reads r (List.mem_of_getElem? hread)
  unfold stageAfterGet
  split
  · rename_i payload hhit
    have hentry := entry_of_hit hN hmem hhit
    have hfree := hask.resolve_right (by simp [hentry])
    have hrow := (hs.synced.coherent hs.lossless.1 hs.lossless.2).hit hmem hfree hentry
    split
    · -- the document that the cache gave is the one of the last entry
      rename_i value hvalue
      refine hr.setStage h (by simp) ?_
      rintro result log heq
      cases heq
      refine hs.answers hr fun it hit hl hentity hkey => ?_
      have hleaves := (hs.leaves_eq hl).symm.trans hrow
      have hdoc : (D.fromSlice payload).getD .null = value := by
        have : D.fromSlice payload = some value := hvalue
        rw [this]
        rfl
      rw [← hentity, ← hkey, ← hdoc]
      exact shows_found hleaves _
    · exact hr.setStage h (by simp) (by simp)
  · split_ifs
    · exact hr.setStage h (by simp) (by simp)
    · exact hr.setStage h (by simp) (by simp)

/-- After the query. -/
theorem readOk_select (hs : Fresh D cfg N s) {i : ℕ} {r : Read} (hread : s.reads[i]? = some r)
    (h : s'.history = s.history) :
    ReadOk D cfg s' { r with stage := stageAfterSelect D cfg s r } := by
  have hr : ReadOk D cfg s r := hs.reads r (List.mem_of_getElem? hread)
  unfold stageAfterSelect
  rw [selectPayload_eq hs.consistent]
  cases hrow : payloads s.history.db cfg.store (r.entity, r.key) with
  | none =>
    refine hr.setStage h (by simp) ?_
    rintro result log heq
    cases heq
    refine hs.answers hr fun it hit hl hentity hkey => ?_
    rw [← hentity, ← hkey]
    exact shows_notFound ((hs.leaves_eq hl).symm.trans hrow)
  | some bytes =>
    refine hr.setStage h ?_ (by simp)
    rintro b again heq it hit hl
    cases heq
    exact (hs.leaves_eq hl).symm.trans hrow

/-- After an attempt to fill. -/
theorem readOk_fill (hs : Fresh D cfg N s) {i : ℕ} {r : Read} {bytes : Bytes} {again : Bool}
    (hread : s.reads[i]? = some r) (hstage : r.stage = .filling bytes again) (accepted : Bool)
    (h : s'.history = s.history) :
    ReadOk D cfg s' { r with stage := stageAfterFill D cfg s r bytes again accepted } := by
  have hr : ReadOk D cfg s r := hs.reads r (List.mem_of_getElem? hread)
  have hbytes := hr.filling bytes again hstage
  unfold stageAfterFill
  split_ifs
  · refine hr.setStage h (by simp) ?_
    rintro result log heq
    cases heq
    refine hs.answers hr fun it hit hl hentity hkey => ?_
    rw [← hentity, ← hkey]
    exact shows_found (hbytes it hit hl) _
  · refine hr.setStage h ?_ (by simp)
    rintro b again' heq
    cases heq
    exact hbytes

/-- A batch leaves what the reads know as it is: a command that is still the last one was the last
one before. -/
theorem readOk_commit (hs : Fresh D cfg N s) {r : Read} (hr : r ∈ s.reads)
    (hj : History.Journaled D s'.history) {new : List Iteration} (hlog : s'.log = s.log ++ new) :
    ReadOk D cfg s' r := by
  have hok := hs.reads r hr
  have hnd : (s.log ++ new).Nodup := by
    rw [← hlog]
    have hrows : (s'.log.map (History.idempotencyRow D)).Nodup := by
      rw [State.log, ← hj.idempotency]
      exact List.Nodup.of_map _ s'.history.db.idempotency.nodup
    exact List.Nodup.of_map _ hrows
  refine ⟨?_, hok.acked, fun bytes again hstage it hit hl => ?_, hok.returned⟩
  · rw [hlog]
    exact hok.begun.trans (List.prefix_append _ _)
  · have hlast : lastWhere (History.onKey r.entity r.key) s'.log = some it := hl
    rw [hlog] at hlast
    exact hok.filling bytes again hstage it hit
      (lastWhere_of_append hnd (hok.begun.subset hit) hlast)

/-! ### Steps and runs -/

theorem consistent_step (hs : Fresh D cfg N s) (ha : Prompt D cfg s a)
    (h : step D cfg s a = some s') : History.Consistent D cfg.store s'.history := by
  cases moves_of_step h with
  | commit hphase hok =>
    refine history_afterBatch hok (fun h a cmd db o hc hcmd hcmd' => ?_) hs.consistent
    exact hc.extend ⟨(mem_delivered hcmd).2, ha cmd hcmd⟩ hcmd'
  | _ => exact hs.consistent

theorem lossless_step (hN : Unambiguous cfg.store N) (hs : Fresh D cfg N s) (ha : Prompt D cfg s a)
    (h : step D cfg s a = some s') : s'.dropped = 0 ∧ s'.errors = 0 := by
  cases moves_of_step h with
  | drop hphase hne hfull =>
    rcases ha with hnil | hroom
    · rw [hphase] at hnil
      exact absurd hnil hne
    · exact absurd hroom hfull
  | sync link hjob =>
    have hlink : link = .up := ha
    subst hlink
    have hfits := hs.synced.pending _ (by rw [State.pending, hjob]; exact List.mem_cons_self ..)
    refine ⟨hs.lossless.1, ?_⟩
    simp only [exchange_up (hfits.wellFormed hN), accepted_syncCall, if_true]
    exact hs.lossless.2
  | _ => exact hs.lossless

theorem reads_step (hN : Unambiguous cfg.store N) (hs : Fresh D cfg N s) (ha : Prompt D cfg s a)
    (h : step D cfg s a = some s') : ∀ r ∈ s'.reads, ReadOk D cfg s' r := by
  have hj := (consistent_step hs ha h).journaled
  cases moves_of_step h with
  | commit hphase hok =>
    obtain ⟨new, hlog, -⟩ := log_afterBatch hok
    exact fun r hr => readOk_commit hs hr hj hlog
  | startRead entity key =>
    intro r hr
    rcases List.mem_append.1 hr with hr | hr
    · exact (hs.reads r hr).of_history rfl
    · rw [List.mem_singleton] at hr
      subst hr
      refine ⟨List.prefix_refl _, fun c hc => ?_, by simp, by simp⟩
      obtain ⟨sub, hsub, rfl⟩ := List.mem_map.1 hc
      obtain ⟨hmem, hack⟩ := List.mem_filter.1 hsub
      exact hs.recorded.acked sub hmem hack
  | get link hread hstage =>
    exact reads_setStage hs.reads rfl rfl (readOk_get hN hs hread (ha _ hread) rfl)
  | select hread hstage => exact reads_setStage hs.reads rfl rfl (readOk_select hs hread rfl)
  | fault detail hread hstage => cases (show some detail = none from ha)
  | fill link hread hstage =>
    exact reads_setStage hs.reads rfl rfl (readOk_fill hs hread hstage _ rfl)
  | _ => exact fun r hr => (hs.reads r hr).of_history rfl

theorem fresh_step (hN : Unambiguous cfg.store N) (hs : Fresh D cfg N s)
    (ha : KeepsFresh D cfg N s a) (h : step D cfg s a = some s') : Fresh D cfg N s' where
  synced := synced_step hN hs.synced ha.1 h
  recorded := recorded_step hs.recorded h
  consistent := consistent_step hs ha.2 h
  lossless := lossless_step hN hs ha.2 h
  reads := reads_step hN hs ha.2 h

theorem fresh_init (D : Deps) (cfg : Config) (N : Set (String × String)) :
    Fresh D cfg N (init cfg) where
  synced := synced_init D cfg N
  recorded := recorded_init D cfg
  consistent := by
    show History.Consistent D cfg.store (History.run D cfg.store [])
    exact History.consistent_run (by simp)
  lossless := ⟨rfl, rfl⟩
  reads := by simp [init]

/-- **Clients read their writes**, in every run that keeps the cache coherent and loses nothing, and
whose reads ask the cache only while no update of their key is on its way. -/
theorem reads_own_writes (D : Deps) (cfg : Config) (N : Set (String × String))
    (hN : Unambiguous cfg.store N) (as : List Action) (s : State)
    (hmeet : StepsMeet (step D cfg) (KeepsFresh D cfg N) (init cfg) as)
    (hrun : runFrom (step D cfg) (init cfg) as = some s) : ReadsOwnWrites D cfg s := by
  have hs : Fresh D cfg N s :=
    invariant_of_stepsMeet (fun s a s' hs ha h => fresh_step hN hs ha h) (fresh_init D cfg N)
      hmeet hrun
  exact fun r hr => (hs.reads r hr).returned

/-- An upsert of `user/1` with another document. -/
def sampleRename (idempotencyKey : String) (version : UInt64) : WriteEnvelope :=
  { History.sampleUpsert idempotencyKey version with payload := .object [("name", .string "Eva")] }

/-- Crates that read both documents back. -/
def sampleDeps : Deps :=
  .compact [.object [("name", .string "Ana")], .object [("name", .string "Eva")]]
    "84840d0ded213b09c5fa24a25f31bb67bf860fee34b32199e9efd90ebd7fe999"

/-- The text of the document that a read returned. -/
def Read.text (r : Read) : Option String :=
  match r.stage with
  | .returned (.ok (.found _ _ _ _ payload)) _ => some payload.compact
  | _ => none

/-- The log when a read returned. -/
def Read.returnedLog (r : Read) : List Iteration :=
  match r.stage with
  | .returned _ log => log
  | _ => []

theorem Read.stage_of_text {r : Read} {text : String} (h : r.text = some text) :
    ∃ store entity key source payload log,
      r.stage = .returned (.ok (.found store entity key source payload)) log ∧
        payload.compact = text := by
  unfold Read.text at h
  split at h
  · rename_i store entity key source payload log hstage
    rw [Option.some.injEq] at h
    exact ⟨store, entity, key, source, payload, log, hstage, h⟩
  · cases h

/-- Two versions are written and acknowledged, and the worker has applied both when the read
begins. -/
def samplePatientRead : List Action :=
  [.submit (History.sampleUpsert "a" 1) "", .commit (fun _ => History.sampleAmbient) [0],
    .enqueue, .receive, .sync .up, .poll 0 true,
    .submit (sampleRename "b" 2) "", .commit (fun _ => History.sampleAmbient) [1], .poll 1 true,
    .enqueue, .receive, .sync .up, .startRead "user" "1", .get 0 .up]

/-- The same, with the read before the worker. -/
def sampleHastyRead : List Action :=
  [.submit (History.sampleUpsert "a" 1) "", .commit (fun _ => History.sampleAmbient) [0],
    .enqueue, .receive, .sync .up, .poll 0 true,
    .submit (sampleRename "b" 2) "", .commit (fun _ => History.sampleAmbient) [1], .poll 1 true,
    .startRead "user" "1", .get 0 .up]

theorem reads_own_writes_of_a_patient_read :
    ∃ s, StepsMeet (step sampleDeps sampleConfig)
        (KeepsFresh sampleDeps sampleConfig {n | n = ("user", "1")}) (init sampleConfig)
        samplePatientRead ∧
      runFrom (step sampleDeps sampleConfig) (init sampleConfig) samplePatientRead = some s ∧
      s.reads.map Read.text = [some "\x7b\"name\":\"Eva\"\x7d"] ∧
      ReadsOwnWrites sampleDeps sampleConfig s := by
  have hmeet : StepsMeet (step sampleDeps sampleConfig)
      (KeepsFresh sampleDeps sampleConfig {n | n = ("user", "1")}) (init sampleConfig)
      samplePatientRead := by
    decide +kernel
  have hrun : (runFrom (step sampleDeps sampleConfig) (init sampleConfig)
      samplePatientRead).map (fun s => s.reads.map Read.text) =
        some [some "\x7b\"name\":\"Eva\"\x7d"] := by
    decide +kernel
  obtain ⟨s, hs, htext⟩ := Option.map_eq_some_iff.1 hrun
  exact ⟨s, hmeet, hs, htext, reads_own_writes sampleDeps sampleConfig _ unambiguous_user
    samplePatientRead s hmeet hs⟩

/-- A client is given the version before the one that was acknowledged to it. -/
theorem hit_before_sync_is_stale :
    ∃ s, Reachable (step sampleDeps sampleConfig) (init sampleConfig) s ∧
      s.reads.map Read.text = [some "\x7b\"name\":\"Ana\"\x7d"] ∧
      ¬ ReadsOwnWrites sampleDeps sampleConfig s := by
  have hrun : (runFrom (step sampleDeps sampleConfig) (init sampleConfig) sampleHastyRead).map
      (fun s => decide (s.reads.map Read.text = [some "\x7b\"name\":\"Ana\"\x7d"] ∧
        ∃ r ∈ s.reads, r.text = some "\x7b\"name\":\"Ana\"\x7d" ∧
          ∃ c ∈ r.acked, c.entity = r.entity ∧ c.key = r.key ∧ c.op ≠ "delete" ∧
            (∃ it ∈ r.returnedLog, Own sampleDeps c it) ∧ NoLaterVersion c r.returnedLog ∧
            ((sampleDeps.fromSlice (sampleDeps.toVec c.payload)).getD .null).compact =
              "\x7b\"name\":\"Eva\"\x7d")) = some true := by
    decide +kernel
  obtain ⟨s, hreach, hs⟩ := exists_reachable hrun
  obtain ⟨htexts, r, hr, htext, c, hc, hentity, hkey, hop, hown, hlast, hdoc⟩ :=
    of_decide_eq_true hs
  refine ⟨s, hreach, htexts, fun hreads => ?_⟩
  obtain ⟨store, entity, key, source, payload, log, hstage, hcompact⟩ := Read.stage_of_text htext
  rw [Read.returnedLog, hstage] at hown hlast
  have hshows := hreads r hr _ _ hstage c hc hentity hkey hown hlast
  unfold Shows at hshows
  rw [if_neg hop] at hshows
  obtain ⟨source', heq⟩ := hshows
  cases heq
  rw [hdoc] at hcompact
  exact absurd hcompact (by decide)

end System

end Ixmati
