import Ixmati.Api.Evidence
import Ixmati.System.ReadYourWrites

/-!
# The API over its databases

The calls of the API run at the same time (`Pool`) beside the writers of all stores.  A writer takes
published commands of its store, in any order and any number of times, and commits batches of them to
its database; the API queries the same databases.  Cache, throttle and clock answer what they like, and
any query may fail.

* `Leads` : batches lead from one state of a database to another;
* `Told` : what a database tells a call is what it holds at a moment during the call;
* `applied_is_recorded` : a response of any endpoint that says applied is about a recorded command;
* `later_calls_agree` : what the calls say that are started after such a response.
-/

namespace Ixmati

open Ixmati.System WriteEngine
open Api

/-! ### Moments of a database -/

/-- Batches of commands with `P` lead from one state of a database to the other. -/
def Leads (D : Deps) (P : WriteEnvelope → Prop) (h h' : History) : Prop :=
  ∃ bs : List Batch, (∀ b ∈ bs, ∀ cmd ∈ b.commands, P cmd) ∧ bs.foldl (History.commit D) h = h'

namespace Leads

variable {D : Deps} {P P' : WriteEnvelope → Prop} {h h' h'' : History}

theorem self (h : History) : Leads D P h h := ⟨[], by simp, rfl⟩

theorem trans (h₁ : Leads D P h h') (h₂ : Leads D P h' h'') : Leads D P h h'' := by
  obtain ⟨bs, hbs, rfl⟩ := h₁
  obtain ⟨bs', hbs', rfl⟩ := h₂
  refine ⟨bs ++ bs', fun b hb => ?_, List.foldl_append⟩
  rcases List.mem_append.1 hb with hb | hb
  · exact hbs b hb
  · exact hbs' b hb

theorem commit {b : Batch} (hb : ∀ cmd ∈ b.commands, P cmd) : Leads D P h (History.commit D h b) :=
  ⟨[b], by simpa using hb, rfl⟩

theorem mono (hP : ∀ cmd, P cmd → P' cmd) (hl : Leads D P h h') : Leads D P' h h' := by
  obtain ⟨bs, hbs, rfl⟩ := hl
  exact ⟨bs, fun b hb cmd hcmd => hP cmd (hbs b hb cmd hcmd), rfl⟩

/-- What every iteration on a command with `P` keeps. -/
theorem invariant {I : History → Prop}
    (hstep : ∀ h a cmd db o, I h → P cmd → processCommand D a h.db cmd = .ok (db, o) →
      I (h.extend a cmd db o)) (hl : Leads D P h h') (hI : I h) : I h' := by
  obtain ⟨bs, hbs, rfl⟩ := hl
  induction bs generalizing h with
  | nil => exact hI
  | cons b bs ih =>
    refine ih ?_ fun b' hb' => hbs b' (List.mem_cons_of_mem _ hb')
    unfold History.commit
    split
    · rename_i db result hok
      exact History.processBatch_invariant hok
        (fun h a cmd db o hI hmem => hstep h a cmd db o hI (hbs b List.mem_cons_self cmd hmem)) hI
    · exact hI

theorem journaled (hl : Leads D P h h') (hj : History.Journaled D h) : History.Journaled D h' :=
  hl.invariant (fun _ _ _ _ _ hj _ hok => hj.extend hok) hj

theorem consistent {store : String} (hP : ∀ cmd, P cmd → History.FitsStore store cmd)
    (hl : Leads D P h h') (hc : History.Consistent D store h) : History.Consistent D store h' :=
  hl.invariant (fun _ _ _ _ _ hc hcmd hok => hc.extend (hP _ hcmd) hok) hc

/-- The log only grows, by commands with `P`. -/
theorem applied (hl : Leads D P h h') : ∃ new, h'.applied = h.applied ++ new ∧ ∀ it ∈ new, P it.cmd := by
  refine hl.invariant (I := fun h' => ∃ new, h'.applied = h.applied ++ new ∧ ∀ it ∈ new, P it.cmd)
    ?_ ⟨[], (List.append_nil _).symm, by simp⟩
  rintro h' a cmd db o ⟨new, hnew, hcmds⟩ hcmd hok
  rcases History.extend_cases hok with ⟨-, hlog⟩ | ⟨-, hlog⟩
  · exact ⟨new, hlog.trans hnew, hcmds⟩
  · refine ⟨new ++ [⟨h'.db, a, cmd, o⟩], by rw [hlog, hnew, List.append_assoc], fun it hit => ?_⟩
    rcases List.mem_append.1 hit with hit | hit
    · exact hcmds it hit
    · rw [List.mem_singleton.1 hit]
      exact hcmd

theorem mem_applied (hl : Leads D P h h') {it : Iteration} (hit : it ∈ h.applied) : it ∈ h'.applied := by
  obtain ⟨new, hnew, -⟩ := hl.applied
  rw [hnew]
  exact List.mem_append_left _ hit

end Leads

namespace Deployment

/-! ### The world of the API -/

/-- The databases by their paths, and the commands that were published. -/
structure State where
  histories : String → History
  published : List WriteEnvelope

/-- A writer commits a batch of published commands, given by their positions. -/
structure Commit where
  dbPath : String
  ambient : ℕ → Ambient
  batch : List ℕ

/-- What the databases do not decide: whether a query fails, and all that is asked of others. -/
@[reducible] def Chosen : Ask → Type
  | .status .. => Option String
  | .select .. => Option String
  | q => Answer q

/-- The answers. -/
def State.answer (s : State) : (q : Ask) → Chosen q → Answer q × State
  | .status dbPath store key, none =>
    (.ok (queryStatement (s.histories dbPath).db.idempotency store key), s)
  | .status .., some detail => (.error detail, s)
  | .select dbPath store entity key, none =>
    (selectPayload (s.histories dbPath).db store entity key, s)
  | .select .., some detail => (.error detail, s)
  | .publish cmd, .sent => (.sent, { s with published := s.published ++ [cmd] })
  | .publish _, published => (published, s)
  | .backlog _, depth => (depth, s)
  | .allow _, allowed => (allowed, s)
  | .uuid, uuid => (uuid, s)
  | .deadline, late => (late, s)
  | .cached _, bytes => (bytes, s)
  | .fill .., _ => ((), s)
  | .cursor .., message => (message, s)

/-- The published commands that the writer of a store is sent: those of its store, as in `System`
(`Routing.mem_delivered_iff`); a store string that goes on with a slash is left out. -/
def State.delivered (s : State) (store : String) (batch : List ℕ) : List WriteEnvelope :=
  (batch.filterMap fun i => s.published[i]?).filter fun cmd => decide (cmd.store = store)

section World

variable (V : Server) (storeAt : String → String)

/-- A writer commits a batch, or fails to. -/
def State.commit (s : State) (c : Commit) : State :=
  { s with
    histories := Function.update s.histories c.dbPath
      (History.commit V.codecs.deps (s.histories c.dbPath)
        ⟨c.ambient, s.delivered (storeAt c.dbPath) c.batch⟩) }

/-- The databases beside the API; `storeAt` tells which store's writer has a database. -/
def world : World Answer State where
  Choice := Chosen
  answer s q choice := some (s.answer q choice)
  Event := Commit
  outside s c := some (s.commit V storeAt c)

/-- New databases, and nothing published. -/
def init : State where
  histories dbPath := ⟨ensureSchema (storeAt dbPath), []⟩
  published := []

/-- One step of the deployment. -/
abbrev step := Pool.step (world V storeAt) (serve V)

/-- The command is one that the writer of a database may be sent. -/
def Sent (s : State) (dbPath : String) (cmd : WriteEnvelope) : Prop :=
  cmd.store = storeAt dbPath ∧ cmd ∈ s.published

/-- A state of a database between two states of the deployment. -/
def Between (since s : State) (dbPath : String) (h : History) : Prop :=
  Leads V.codecs.deps (Sent storeAt s dbPath) (since.histories dbPath) h ∧
    Leads V.codecs.deps (Sent storeAt s dbPath) h (s.histories dbPath)

/-- What a database told: what it held at a moment since `since`. -/
def Told (since s : State) : Sigma Answer → Prop
  | ⟨.status dbPath store key, .ok status⟩ => ∃ h, Between V storeAt since s dbPath h ∧
    queryStatement h.db.idempotency store key = status
  | ⟨.select dbPath store entity key, .ok row⟩ => ∃ h, Between V storeAt since s dbPath h ∧
    selectPayload h.db store entity key = .ok row
  | _ => True

/-- Only publishes and commits lie between the two states. -/
structure Later (s s' : State) : Prop where
  published : ∀ cmd ∈ s.published, cmd ∈ s'.published
  histories : ∀ dbPath, Leads V.codecs.deps (Sent storeAt s' dbPath) (s.histories dbPath)
    (s'.histories dbPath)

end World

variable {V : Server} {storeAt : String → String} {since s s' s'' : State} {dbPath : String}
  {h : History} {pool pool' : Pool Answer State Request Response}

/-! ### What a database tells -/

theorem Later.self (s : State) : Later V storeAt s s := ⟨fun _ hcmd => hcmd, fun _ => .self _⟩

theorem Later.leads (h : Later V storeAt s s') {h₁ h₂ : History}
    (hl : Leads V.codecs.deps (Sent storeAt s dbPath) h₁ h₂) :
    Leads V.codecs.deps (Sent storeAt s' dbPath) h₁ h₂ :=
  hl.mono fun cmd hcmd => ⟨hcmd.1, h.published cmd hcmd.2⟩

theorem Later.trans (h : Later V storeAt s s') (h' : Later V storeAt s' s'') :
    Later V storeAt s s'' where
  published cmd hcmd := h'.published cmd (h.published cmd hcmd)
  histories dbPath := (h'.leads (h.histories dbPath)).trans (h'.histories dbPath)

theorem later_answer (s : State) (q : Ask) (choice : Chosen q) :
    Later V storeAt s (s.answer q choice).2 := by
  cases q with
  | status => cases choice <;> exact .self s
  | select => cases choice <;> exact .self s
  | publish cmd =>
    cases choice with
    | sent => exact ⟨fun _ hcmd => List.mem_append_left _ hcmd, fun _ => .self _⟩
    | unavailable => exact .self s
    | failed detail => exact .self s
  | _ => exact .self s

theorem later_commit (s : State) (c : Commit) : Later V storeAt s (s.commit V storeAt c) where
  published _ hcmd := hcmd
  histories dbPath := by
    rcases eq_or_ne dbPath c.dbPath with rfl | hne
    · simp only [State.commit, Function.update_self]
      refine Leads.commit fun cmd hcmd => ?_
      obtain ⟨hmem, hstore⟩ := List.mem_filter.1 hcmd
      obtain ⟨i, -, hi⟩ := List.mem_filterMap.1 hmem
      exact ⟨of_decide_eq_true hstore, List.mem_of_getElem? hi⟩
    · simp only [State.commit, Function.update_of_ne hne]
      exact .self _

theorem Between.later (hb : Between V storeAt since s dbPath h) (hl : Later V storeAt s s') :
    Between V storeAt since s' dbPath h :=
  ⟨hl.leads hb.1, (hl.leads hb.2).trans (hl.histories dbPath)⟩

theorem Told.later {e : Sigma Answer} (he : Told V storeAt since s e) (hl : Later V storeAt s s') :
    Told V storeAt since s' e := by
  obtain ⟨q, answer⟩ := e
  cases q with
  | status =>
    cases answer with
    | error detail => trivial
    | ok status =>
      obtain ⟨h, hb, hstatus⟩ := he
      exact ⟨h, hb.later hl, hstatus⟩
  | select =>
    cases answer with
    | error detail => trivial
    | ok row =>
      obtain ⟨h, hb, hrow⟩ := he
      exact ⟨h, hb.later hl, hrow⟩
  | _ => trivial

/-- An answer is what the database holds at the moment. -/
theorem told_answer (hl : Later V storeAt since s) (q : Ask) (choice : Chosen q) :
    Told V storeAt since (s.answer q choice).2 ⟨q, (s.answer q choice).1⟩ := by
  cases q with
  | status dbPath store key =>
    cases choice with
    | none => exact ⟨s.histories dbPath, ⟨hl.histories dbPath, .self _⟩, rfl⟩
    | some detail => trivial
  | select dbPath store entity key =>
    cases choice with
    | none =>
      show Told V storeAt since s
        ⟨.select dbPath store entity key, selectPayload (s.histories dbPath).db store entity key⟩
      cases hrow : selectPayload (s.histories dbPath).db store entity key with
      | error detail => trivial
      | ok row => exact ⟨s.histories dbPath, ⟨hl.histories dbPath, .self _⟩, hrow⟩
    | some detail => trivial
  | _ => trivial

/-- All that the calls are told that are started since a state, was so since then. -/
theorem told_of_reachable (hreach : Reachable (step V storeAt) pool pool') :
    pool'.Traced (serve V) (Later V storeAt pool.world) (Told V storeAt pool.world)
      pool.calls.length := by
  refine Pool.traced_of_reachable ?_ ?_ (.self _) hreach
  · intro s q choice answer s' hsince hanswer
    have hanswer' : s.answer q choice = (answer, s') := Option.some.inj hanswer
    have hl : Later V storeAt s (s.answer q choice).2 := later_answer s q choice
    have htold := told_answer hsince q choice
    rw [hanswer'] at hl htold
    exact ⟨hsince.trans hl, htold, fun e he => he.later hl⟩
  · rintro s c s' hsince ⟨⟩
    exact ⟨hsince.trans (later_commit s c), fun e he => he.later (later_commit s c)⟩

/-- The response of a call that was started since a state, with what it was told. -/
theorem evident_of_returned (hreach : Reachable (step V storeAt) pool pool') {i : ℕ} {request : Request}
    {response : Response} (hi : pool.calls.length ≤ i)
    (hcall : pool'.calls[i]? = some ⟨request, .ret response⟩) :
    ∃ es, (∀ e ∈ es, Told V storeAt pool.world pool'.world e) ∧ Evident V es response := by
  obtain ⟨es, hpath, hes⟩ := (told_of_reachable hreach).calls i _ hi hcall
  exact ⟨es, hes, (rests_serve V request).path hpath⟩

/-! ### What the databases hold -/

theorem journaled_of_reachable (hreach : Reachable (step V storeAt) ⟨init storeAt, []⟩ pool)
    (dbPath : String) : History.Journaled V.codecs.deps (pool.world.histories dbPath) :=
  ((told_of_reachable hreach).world.histories dbPath).journaled ⟨rfl, rfl, rfl⟩

/-- An applied command was published, and is of the store of the database. -/
theorem sent_of_applied (hreach : Reachable (step V storeAt) ⟨init storeAt, []⟩ pool) {it : Iteration}
    (hit : it ∈ (pool.world.histories dbPath).applied) : Sent storeAt pool.world dbPath it.cmd := by
  obtain ⟨new, hnew, hsent⟩ := ((told_of_reachable hreach).world.histories dbPath).applied
  rw [hnew] at hit
  rcases List.mem_append.1 hit with hit | hit
  · cases hit
  · exact hsent it hit

theorem find?_of_queryStatement {t : IdempotencyTable} {store key rowKey rowStore entity entityKey : String}
    {version : UInt64} {appliedAt : String}
    (hq : queryStatement t store key = .applied rowKey rowStore entity entityKey version appliedAt) :
    ∃ row, t.find? (store, key) = some row ∧ row.store = rowStore ∧ row.idempotencyKey = rowKey := by
  unfold queryStatement at hq
  cases hfind : t.find? (store, key) with
  | none =>
    rw [hfind] at hq
    cases hq
  | some row =>
    rw [hfind] at hq
    cases hq
    exact ⟨row, rfl, rfl, rfl⟩

theorem find?_of_pending {t : IdempotencyTable} {store key store' key' : String}
    (hq : queryStatement t store' key' = .pending store key) :
    t.find? (store, key) = none ∧ store' = store ∧ key' = key := by
  unfold queryStatement at hq
  cases hfind : t.find? (store', key') with
  | none =>
    rw [hfind] at hq
    cases hq
    exact ⟨hfind, rfl, rfl⟩
  | some row =>
    rw [hfind] at hq
    cases hq

theorem exists_entry {D : Deps} (hj : History.Journaled D h) {store key : String} {row : IdempotencyRow}
    (hrow : h.db.idempotency.find? (store, key) = some row) :
    ∃ it ∈ h.applied, History.idempotencyRow D it = row ∧ row.store = store ∧
      row.idempotencyKey = key := by
  obtain ⟨hmem, hpk⟩ := (Table.find?_eq_some _).1 hrow
  obtain ⟨it, hit, rfl⟩ := hj.mem_idempotency.1 hmem
  obtain ⟨hstore, hkey⟩ := Prod.mk.inj hpk
  exact ⟨it, hit, rfl, hstore, hkey⟩

theorem find?_of_applied {D : Deps} (hj : History.Journaled D h) {it : Iteration} (hit : it ∈ h.applied) :
    h.db.idempotency.find? (it.cmd.store, it.cmd.idempotencyKey) =
      some (History.idempotencyRow D it) :=
  (Table.find?_eq_some _).2 ⟨hj.mem_idempotency.2 ⟨it, hit, rfl⟩, rfl⟩

/-- **Applied means recorded.**  In every interleaving of the calls and the writers: a response of any
endpoint, over either transport, that says a write is applied is about a published command that its
store's database has recorded under this key, and still has. -/
theorem applied_is_recorded (V : Server) (storeAt : String → String)
    (pool : Pool Answer State Request Response)
    (hreach : Reachable (step V storeAt) ⟨init storeAt, []⟩ pool) (i : ℕ) (request : Request)
    (response : Response) (hcall : pool.calls[i]? = some ⟨request, .ret response⟩) (store key : String)
    (htold : response.SaysApplied store key) :
    ∃ dbPath it, V.state.dbPathFor store = some dbPath ∧
      it ∈ (pool.world.histories dbPath).applied ∧ it.cmd.store = store ∧
      it.cmd.idempotencyKey = key ∧ Sent storeAt pool.world dbPath it.cmd ∧
      (pool.world.histories dbPath).db.idempotency.find? (store, key) =
        some (History.idempotencyRow V.codecs.deps it) := by
  obtain ⟨es, hes, hevident⟩ := evident_of_returned hreach (Nat.zero_le i) hcall
  obtain ⟨store', key', row, ⟨entity, entityKey, version, appliedAt, dbPath, hpath, hmem⟩, hsame⟩ :=
    hevident.applied store key htold
  obtain ⟨h, ⟨hbefore, hafter⟩, hquery⟩ := hes _ hmem
  obtain ⟨r, hfind, hstore, hkey⟩ := find?_of_queryStatement hquery
  obtain ⟨it, hit, hrow, hstore', hkey'⟩ :=
    exists_entry (hbefore.journaled ⟨rfl, rfl, rfl⟩) hfind
  -- the row found is the one asked for, so the response says the same in both cases
  have hrequest : store' = store ∧ key' = key := by
    rcases hsame with heq | heq
    · exact ⟨(Prod.mk.inj heq).1.symm, (Prod.mk.inj heq).2.symm⟩
    · obtain ⟨rowStore, rowKey⟩ := row
      obtain ⟨rfl, rfl⟩ := Prod.mk.inj heq
      exact ⟨hstore'.symm.trans hstore, hkey'.symm.trans hkey⟩
  obtain ⟨rfl, rfl⟩ := hrequest
  have hlog := hafter.mem_applied hit
  have hcmd : it.cmd.store = store' ∧ it.cmd.idempotencyKey = key' := by
    rw [← hrow] at hstore' hkey'
    exact ⟨hstore', hkey'⟩
  refine ⟨dbPath, it, hpath, hlog, hcmd.1, hcmd.2, sent_of_applied hreach hlog, ?_⟩
  rw [← hcmd.1, ← hcmd.2]
  exact find?_of_applied (journaled_of_reachable hreach dbPath) hlog

/-- The server of `sampleServer`, which can digest and read back the document of `sampleWrite`. -/
def readingServer : Server :=
  { sampleServer with
    codecs := { sampleServer.codecs with
      deps := .compact [.object []]
        "a0bddf7745083048c7b9596907f90fb3628acdc675b771b831ac8a5f981215f5" } }

/-- No query fails, the broker takes every command, and the cache is empty. -/
def sampleAnswers : ∀ q, Chosen q
  | .status .. => none
  | .select .. => none
  | .publish _ => .sent
  | .backlog _ => none
  | .allow _ => true
  | .uuid => ""
  | .deadline => true
  | .cached _ => none
  | .fill .. => ()
  | .cursor .. => .ok none

/-- A write that is committed before it asks for its row. -/
def sampleWritten : List (Pool.Action (world readingServer fun _ => "orders") Request) :=
  [.start sampleWrite, .answer 0 sampleAnswers, .answer 0 sampleAnswers, .answer 0 sampleAnswers,
    .outside ⟨"/data/orders.db", fun _ => History.sampleAmbient, [0]⟩, .answer 0 sampleAnswers]

/-- What the response to a gRPC write says. -/
def written? : Response → Option (String × String × String)
  | .grpcWrite (.ok response) => some (response.status, response.store, response.idempotencyKey)
  | _ => none

theorem saysApplied_of_written? {response : Response} {store key : String}
    (h : written? response = some ("COMMITTED", store, key)) : response.SaysApplied store key := by
  unfold written? at h
  split at h
  · rename_i pb
    simp only [Option.some.injEq, Prod.mk.injEq] at h
    exact ⟨.writeResponse pb, rfl, h⟩
  · cases h

/-- The first call of the run returns that its write is applied. -/
theorem sampleWritten_returns :
    ∃ pool : Pool Answer State Request Response,
      runFrom (step readingServer fun _ => "orders") ⟨init fun _ => "orders", []⟩ sampleWritten =
        some pool ∧
      ∃ request response, pool.calls[0]? = some ⟨request, .ret response⟩ ∧
        response.SaysApplied "orders" "a" := by
  have hrun : (runFrom (step readingServer fun _ => "orders") ⟨init fun _ => "orders", []⟩
      sampleWritten).map (fun pool => pool.calls[0]?.bind fun call => call.prog.result?.bind written?) =
        some (some ("COMMITTED", "orders", "a")) := by
    decide +kernel
  obtain ⟨pool, hpool, hcall⟩ := Option.map_eq_some_iff.1 hrun
  obtain ⟨⟨request, prog⟩, hget, hresult⟩ := Option.bind_eq_some_iff.1 hcall
  obtain ⟨response, hret, hwritten⟩ := Option.bind_eq_some_iff.1 hresult
  cases Prog.eq_ret_of_result? hret
  exact ⟨pool, hpool, request, response, hget, saysApplied_of_written? hwritten⟩

theorem applied_is_recorded_of_a_write :
    ∃ pool : Pool Answer State Request Response,
      Reachable (step readingServer fun _ => "orders") ⟨init fun _ => "orders", []⟩ pool ∧
      ∃ dbPath it, readingServer.state.dbPathFor "orders" = some dbPath ∧
        it ∈ (pool.world.histories dbPath).applied ∧ it.cmd.idempotencyKey = "a" := by
  obtain ⟨pool, hrun, request, response, hcall, htold⟩ := sampleWritten_returns
  obtain ⟨dbPath, it, hpath, hit, -, hkey, -⟩ := applied_is_recorded readingServer (fun _ => "orders") pool
    ⟨sampleWritten, hrun⟩ 0 request response hcall "orders" "a" htold
  exact ⟨pool, ⟨sampleWritten, hrun⟩, dbPath, it, hpath, hit, hkey⟩

/-! ### Later calls -/

section LaterCalls

variable {i : ℕ} {request : Request} {response : Response} {it : Iteration}

/-- What is recorded is not called pending by a call that is started later. -/
theorem not_pending_later (hreach : Reachable (step V storeAt) ⟨init storeAt, []⟩ pool)
    (hlater : Reachable (step V storeAt) pool pool')
    (hpath : V.state.dbPathFor it.cmd.store = some dbPath)
    (hit : it ∈ (pool.world.histories dbPath).applied) (hi : pool.calls.length ≤ i)
    (hcall : pool'.calls[i]? = some ⟨request, .ret response⟩) :
    ¬ response.SaysPending it.cmd.store it.cmd.idempotencyKey := by
  intro htold
  obtain ⟨es, hes, hevident⟩ := evident_of_returned hlater hi hcall
  obtain ⟨store', key', dbPath', hpath', hmem⟩ := hevident.pending _ _ htold
  obtain ⟨h, ⟨hbefore, -⟩, hquery⟩ := hes _ hmem
  obtain ⟨hnone, rfl, rfl⟩ := find?_of_pending hquery
  cases hpath.symm.trans hpath'
  rw [find?_of_applied (hbefore.journaled (journaled_of_reachable hreach dbPath))
    (hbefore.mem_applied hit)] at hnone
  cases hnone

/-- The payload row of a key is what the last command on it leaves. -/
theorem selectPayload_of_consistent {D : Deps} {store : String} (hc : History.Consistent D store h)
    (entity key : String) :
    selectPayload h.db store entity key =
      .ok ((h.lastOn entity key).bind fun it => leaves D it.cmd) := by
  have hselect := @selectPayload_eq D ⟨store, 0, 0⟩
    { System.init ⟨store, 0, 0⟩ with history := h } hc entity key
  have hpayloads := @payloads_eq_lastOn D ⟨store, 0, 0⟩
    { System.init ⟨store, 0, 0⟩ with history := h } hc entity key
  rw [← hpayloads]
  exact hselect

/-- A database as it is between two states of the deployment, if all versions fit the column. -/
theorem Between.consistent (hreach : Reachable (step V storeAt) ⟨init storeAt, []⟩ pool)
    (hlater : Reachable (step V storeAt) pool pool')
    (hfit : ∀ cmd ∈ pool'.world.published, cmd.version.toNat < 2 ^ 63)
    (hb : Between V storeAt pool.world pool'.world dbPath h) :
    History.Consistent V.codecs.deps (storeAt dbPath) h := by
  have hl := (told_of_reachable hlater).world
  have hstart := hl.leads ((told_of_reachable hreach).world.histories dbPath)
  have hnone : ∀ b ∈ ([] : List Batch), ∀ cmd ∈ b.commands,
      History.FitsStore (storeAt dbPath) cmd := by simp
  have hempty : History.Consistent V.codecs.deps (storeAt dbPath) ((init storeAt).histories dbPath) :=
    History.consistent_run hnone
  exact (hstart.trans hb.1).consistent (fun cmd hcmd => ⟨hcmd.1, hfit cmd hcmd.2⟩) hempty

/-- A payload row that a call is told that is started later shows the command or a later one. -/
theorem row_later (hreach : Reachable (step V storeAt) ⟨init storeAt, []⟩ pool)
    (hlater : Reachable (step V storeAt) pool pool')
    (hfit : ∀ cmd ∈ pool'.world.published, cmd.version.toNat < 2 ^ 63)
    (hit : it ∈ (pool.world.histories dbPath).applied)
    (hb : Between V storeAt pool.world pool'.world dbPath h) {row : Option Bytes}
    (hrow : selectPayload h.db it.cmd.store it.cmd.entity it.cmd.key = .ok row) :
    ∃ last ∈ (pool'.world.histories dbPath).applied, last.cmd.SameKey it.cmd ∧
      it.cmd.version ≤ last.cmd.version ∧ row = leaves V.codecs.deps last.cmd := by
  have hc := hb.consistent hreach hlater hfit
  have hstore := (sent_of_applied hreach hit).1
  obtain ⟨last, hlast, hle⟩ := hc.exists_lastOn (hb.1.mem_applied hit)
    (decide_eq_true ⟨rfl, rfl⟩ : History.onKey it.cmd.entity it.cmd.key it = true)
  rw [hstore, selectPayload_of_consistent hc, hlast, Option.bind_some, Except.ok.injEq] at hrow
  obtain ⟨hmem, hon⟩ := mem_of_lastWhere hlast
  obtain ⟨hentity, hkey⟩ := of_decide_eq_true hon
  exact ⟨last, hb.2.mem_applied hmem, ⟨(hc.fits last hmem).1.trans hstore.symm, hentity, hkey⟩, hle,
    hrow.symm⟩

end LaterCalls

/-- **Later calls agree.**  Let a response of any endpoint have said that a write is applied.  In every
interleaving from there on, the command recorded for it binds the calls that are started later, over both
transports: no status calls the write pending again, and a read whose result is not from the cache
shows, for the key of this command, what the command or one of at least its version left. -/
theorem later_calls_agree (V : Server) (storeAt : String → String)
    (pool : Pool Answer State Request Response)
    (hreach : Reachable (step V storeAt) ⟨init storeAt, []⟩ pool) (i : ℕ) (request : Request)
    (response : Response) (hcall : pool.calls[i]? = some ⟨request, .ret response⟩) (store key : String)
    (htold : response.SaysApplied store key) :
    ∃ dbPath, ∃ it ∈ (pool.world.histories dbPath).applied, it.cmd.store = store ∧
      it.cmd.idempotencyKey = key ∧
      ∀ (pool' : Pool Answer State Request Response) (i' : ℕ) (request' : Request)
        (response' : Response), Reachable (step V storeAt) pool pool' → pool.calls.length ≤ i' →
        pool'.calls[i']? = some ⟨request', .ret response'⟩ →
        ¬ response'.SaysPending store key ∧
        ((∀ cmd ∈ pool'.world.published, cmd.version.toNat < 2 ^ 63) →
          ∀ body, response'.body? = some body → body.IsRead →
          ∃ result, response'.Shows V result ∧ (result.IsCached ∨
            ∃ store' entity key' row, result = fromRow V.codecs.deps store' entity key' row ∧
              (store' = store → entity = it.cmd.entity → key' = it.cmd.key →
                ∃ last ∈ (pool'.world.histories dbPath).applied, last.cmd.SameKey it.cmd ∧
                  it.cmd.version ≤ last.cmd.version ∧ row = leaves V.codecs.deps last.cmd))) := by
  obtain ⟨dbPath, it, hpath, hit, rfl, rfl, -, -⟩ :=
    applied_is_recorded V storeAt pool hreach i request response hcall store key htold
  refine ⟨dbPath, it, hit, rfl, rfl, fun pool' i' request' response' hlater hi hcall' => ⟨?_, ?_⟩⟩
  · exact not_pending_later hreach hlater hpath hit hi hcall'
  · intro hfit body hbody hread
    obtain ⟨es, hes, hevident⟩ := evident_of_returned hlater hi hcall'
    obtain ⟨result, hshows, hresult⟩ := hevident.read body hbody hread
    refine ⟨result, hshows, hresult.imp_right ?_⟩
    rintro ⟨store', entity, key', row, ⟨dbPath', hpath', hmem⟩, rfl⟩
    obtain ⟨h, hb, hrow⟩ := hes _ hmem
    refine ⟨store', entity, key', row, rfl, ?_⟩
    rintro rfl rfl rfl
    cases hpath.symm.trans hpath'
    exact row_later hreach hlater hfit hit hb hrow

/-- The document of the write is read. -/
def sampleReading : List (Pool.Action (world readingServer fun _ => "orders") Request) :=
  [.start (.grpcRead (some "orders-key") ⟨"orders", "order", "1", ""⟩), .answer 1 sampleAnswers,
    .answer 1 sampleAnswers, .answer 1 sampleAnswers]

/-- The source in the response to a gRPC read. -/
def source? : Response → Option String
  | .grpcRead (.ok response) => some response.source
  | _ => none

theorem isRead_of_source? {response : Response} {source : String} (h : source? response = some source) :
    ∃ body, response.body? = some body ∧ body.IsRead := by
  unfold source? at h
  split at h
  · exact ⟨_, rfl, trivial⟩
  · cases h

theorem later_calls_agree_of_a_read :
    ∃ (pool pool' : Pool Answer State Request Response) (request' : Request) (response' : Response)
      (it : Iteration),
      Reachable (step readingServer fun _ => "orders") pool pool' ∧
      pool'.calls[1]? = some ⟨request', .ret response'⟩ ∧ source? response' = some "sqlite" ∧
      ¬ response'.SaysPending "orders" "a" ∧
      ∃ result, response'.Shows readingServer result ∧ (result.IsCached ∨
        ∃ store' entity key' row, result = fromRow readingServer.codecs.deps store' entity key' row ∧
          (store' = "orders" → entity = it.cmd.entity → key' = it.cmd.key →
            ∃ last : Iteration, last.cmd.SameKey it.cmd ∧ it.cmd.version ≤ last.cmd.version)) := by
  obtain ⟨pool, hpool, request, response, hcall, htold⟩ := sampleWritten_returns
  have hlater : ((runFrom (step readingServer fun _ => "orders") ⟨init fun _ => "orders", []⟩
      sampleWritten).bind fun pool => (runFrom (step readingServer fun _ => "orders") pool
      sampleReading).map fun pool' => (pool.calls.length,
        pool'.calls[1]?.bind fun call => call.prog.result?.bind source?,
        pool'.world.published.map (·.version))) = some (1, some "sqlite", [1]) := by
    decide +kernel
  rw [hpool, Option.bind_some, Option.map_eq_some_iff] at hlater
  obtain ⟨pool', hpool', heq⟩ := hlater
  simp only [Prod.mk.injEq] at heq
  obtain ⟨hlength, hread, hversions⟩ := heq
  obtain ⟨⟨request', prog⟩, hget, hresult⟩ := Option.bind_eq_some_iff.1 hread
  obtain ⟨response', hret, hsource⟩ := Option.bind_eq_some_iff.1 hresult
  cases Prog.eq_ret_of_result? hret
  obtain ⟨body, hbody, hisRead⟩ := isRead_of_source? hsource
  have hfit : ∀ cmd ∈ pool'.world.published, cmd.version.toNat < 2 ^ 63 := by
    intro cmd hcmd
    have hmem := List.mem_map_of_mem (f := (·.version)) hcmd
    rw [hversions, List.mem_singleton] at hmem
    rw [hmem]
    decide
  obtain ⟨dbPath, it, -, -, -, hagree⟩ := later_calls_agree readingServer (fun _ => "orders") pool
    ⟨sampleWritten, hpool⟩ 0 request response hcall "orders" "a" htold
  obtain ⟨hpending, hshown⟩ := hagree pool' 1 request' response' ⟨sampleReading, hpool'⟩
    (Nat.le_of_eq hlength) hget
  obtain ⟨result, hshows, hres⟩ := hshown hfit body hbody hisRead
  refine ⟨pool, pool', request', response', it, ⟨sampleReading, hpool'⟩, hget, hsource, hpending,
    result, hshows, hres.imp_right ?_⟩
  rintro ⟨store', entity, key', row, hrow, hlast⟩
  refine ⟨store', entity, key', row, hrow, fun hstore hentity hkey => ?_⟩
  obtain ⟨last, -, hsame, hle, -⟩ := hlast hstore hentity hkey
  exact ⟨last, hsame, hle⟩

end Deployment

end Ixmati
