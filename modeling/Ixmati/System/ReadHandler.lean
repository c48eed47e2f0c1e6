import Ixmati.System.Step

/-!
# Reads on their own

`readHandler` is `read_handler` in one go, on a fixed cache and database; the reads of the system go
from stage to stage, with other steps in between.  A read that nothing interrupts returns what
`readHandler` says (`read_alone`), so the two models of the function agree.
-/

namespace Ixmati

namespace System

variable {D : Deps} {cfg : Config} {s : State} {r : Read}

/-- What a read finds in a state. -/
def State.readEnv (s : State) : ReadEnv where
  cached
    | .projection name key => s.cache (Cache.Name.projection name key).toKey
    | .entity store entity key => s.cache (Cache.Name.entity store entity key).toKey
  select store entity key := some (selectPayload s.history.db store entity key)

/-- What `readHandler` returns for an entity and key of the store. -/
def handled (D : Deps) (cfg : Config) (s : State) (entity key : String) :
    Except (ℕ × CoreError) ReadResult :=
  readHandler D s.readEnv ⟨some cfg.store, some entity, some key, none⟩

theorem handled_of_hit {entity key : String} {value : Json}
    (h : cacheHit D (s.cache (Cache.Name.entity cfg.store entity key).toKey) = some value) :
    handled D cfg s entity key = .ok (.found cfg.store entity key .cache value) := by
  simp only [handled, readHandler, readTarget, Option.getD_some, State.readEnv, h]

theorem handled_of_miss {entity key : String}
    (h : cacheHit D (s.cache (Cache.Name.entity cfg.store entity key).toKey) = none) :
    (∀ detail, selectPayload s.history.db cfg.store entity key = .error detail →
      handled D cfg s entity key = .error (500, .internal detail)) ∧
    ∀ row, selectPayload s.history.db cfg.store entity key = .ok row →
      handled D cfg s entity key = .ok (fromRow D cfg.store entity key row) := by
  constructor
  · intro detail hrow
    simp only [handled, readHandler, readTarget, Option.getD_some, State.readEnv, h, hrow]
  · intro row hrow
    simp only [handled, readHandler, readTarget, Option.getD_some, State.readEnv, h, hrow]

/-! ### One step of the last read -/

/-- The state with one more read. -/
def State.withRead (s : State) (r : Read) : State := { s with reads := s.reads ++ [r] }

theorem withRead_getElem? (s : State) (r : Read) :
    (s.withRead r).reads[s.reads.length]? = some r := by
  simp [State.withRead]

theorem withRead_setStage (s : State) (r : Read) (stage : Stage) :
    (s.withRead r).setStage s.reads.length r stage = s.withRead { r with stage := stage } := by
  simp [State.withRead, State.setStage]

theorem step_get_alone {again : Bool} (hstage : r.stage = .asking again)
    (hwf : (Cache.Call.get (.entity cfg.store r.entity r.key)).command.WellFormed) :
    step D cfg (s.withRead r) (.get s.reads.length .up) =
      some (s.withRead { r with
        stage := stageAfterGet D cfg s r again
          [(Cache.Call.get (.entity cfg.store r.entity r.key)).command.reply s.cache] }) := by
  simp only [step, withRead_getElem?, hstage, exchange_up hwf, withRead_setStage]
  rfl

theorem step_select_alone (hstage : r.stage = .selecting) :
    step D cfg (s.withRead r) (.select s.reads.length none) =
      some (s.withRead { r with stage := stageAfterSelect D cfg s r }) := by
  simp only [step, withRead_getElem?, hstage, withRead_setStage]
  rfl

theorem step_fill_alone {bytes : Bytes} {again : Bool} (hstage : r.stage = .filling bytes again)
    (hwf : (Cache.Call.set (.entity cfg.store r.entity r.key) bytes).command.WellFormed) :
    ∃ s', step D cfg (s.withRead r) (.fill s.reads.length .up) = some s' ∧
      s'.reads = s.reads ++ [{ r with
        stage := .returned (.ok (fromRow D cfg.store r.entity r.key (some bytes))) s.log }] := by
  simp only [step, withRead_getElem?, hstage, exchange_up hwf, withRead_setStage]
  exact ⟨_, rfl, rfl⟩

/-! ### A whole read -/

/-- The second half of a read: the query, and the fill if there is a row. -/
theorem select_alone (hstage : r.stage = .selecting)
    (hset : ∀ bytes, selectPayload s.history.db cfg.store r.entity r.key = .ok (some bytes) →
      (Cache.Call.set (.entity cfg.store r.entity r.key) bytes).command.WellFormed)
    (hmiss : cacheHit D (s.cache (Cache.Name.entity cfg.store r.entity r.key).toKey) = none) :
    ∃ as s', runFrom (step D cfg) (s.withRead r) as = some s' ∧
      s'.reads = s.reads ++ [{ r with
        stage := .returned (handled D cfg s r.entity r.key) s.log }] := by
  have hsel : step D cfg (s.withRead r) (.select s.reads.length none) = _ :=
    step_select_alone hstage
  obtain ⟨herror, hok⟩ := handled_of_miss (D := D) hmiss
  unfold stageAfterSelect at hsel
  cases hrow : selectPayload s.history.db cfg.store r.entity r.key with
  | error detail =>
    rw [hrow] at hsel
    exact ⟨[_], _, runFrom_cons.2 ⟨_, hsel, rfl⟩, by rw [herror detail hrow]; rfl⟩
  | ok row =>
    rw [hrow] at hsel
    cases row with
    | none => exact ⟨[_], _, runFrom_cons.2 ⟨_, hsel, rfl⟩, by rw [hok none hrow]; rfl⟩
    | some bytes =>
      obtain ⟨s', hfill, hreads⟩ :=
        step_fill_alone (D := D) (s := s) (r := { r with stage := .filling bytes false }) rfl
          (hset bytes hrow)
      refine ⟨[_, _], s', runFrom_cons.2 ⟨_, hsel, runFrom_cons.2 ⟨s', hfill, rfl⟩⟩, ?_⟩
      rw [hok (some bytes) hrow]
      exact hreads

/-- **A read that nothing interrupts returns what `readHandler` says** of the cache and database it
begins with. -/
theorem read_alone (D : Deps) (cfg : Config) (s : State) (entity key : String)
    (hget : (Cache.Call.get (.entity cfg.store entity key)).command.WellFormed)
    (hset : ∀ bytes, selectPayload s.history.db cfg.store entity key = .ok (some bytes) →
      (Cache.Call.set (.entity cfg.store entity key) bytes).command.WellFormed) :
    ∃ as s', runFrom (step D cfg) s (.startRead entity key :: as) = some s' ∧
      s'.reads = s.reads ++ [⟨entity, key, s.acked, s.log,
        .returned (handled D cfg s entity key) s.log⟩] := by
  have hstart : step D cfg s (.startRead entity key) =
      some (s.withRead ⟨entity, key, s.acked, s.log, .asking false⟩) := rfl
  have hask : ∀ again, step D cfg (s.withRead ⟨entity, key, s.acked, s.log, .asking again⟩)
      (.get s.reads.length .up) = _ := fun again => step_get_alone rfl hget
  have hreply : (Cache.Call.get (.entity cfg.store entity key)).command.reply s.cache =
      (s.cache (Cache.Name.entity cfg.store entity key).toKey).elim .miss .hit :=
    Cache.Command.reply_get ..
  simp only [hreply, stageAfterGet, List.head?_cons] at hask
  cases hhit : cacheHit D (s.cache (Cache.Name.entity cfg.store entity key).toKey) with
  | some value =>
    -- a hit that is a document ends the read
    obtain ⟨payload, hpayload, -⟩ := Option.bind_eq_some_iff.1 hhit
    rw [hpayload] at hhit hask
    have hget' := hask false
    simp only [Option.elim_some, hhit] at hget'
    refine ⟨[_], _, runFrom_cons.2 ⟨_, hstart, runFrom_cons.2 ⟨_, hget', rfl⟩⟩, ?_⟩
    rw [handled_of_hit (by rw [hpayload, hhit])]
    rfl
  | none =>
    obtain ⟨as, s', hrun, hreads⟩ :=
      select_alone (D := D) (s := s) (r := ⟨entity, key, s.acked, s.log, .selecting⟩) rfl hset hhit
    cases hcache : s.cache (Cache.Name.entity cfg.store entity key).toKey with
    | none =>
      -- a miss is asked again
      have hfirst := hask false
      have hsecond := hask true
      simp only [hcache, Option.elim_none, if_true, Bool.false_eq_true, if_false] at hfirst hsecond
      exact ⟨_ :: _ :: as, s', runFrom_cons.2 ⟨_, hstart, runFrom_cons.2 ⟨_, hfirst,
        runFrom_cons.2 ⟨_, hsecond, hrun⟩⟩⟩, hreads⟩
    | some payload =>
      -- a hit that is not a document goes to the database
      have hget' := hask false
      rw [hcache] at hhit
      simp only [hcache, Option.elim_some, hhit] at hget'
      exact ⟨_ :: as, s', runFrom_cons.2 ⟨_, hstart, runFrom_cons.2 ⟨_, hget', hrun⟩⟩, hreads⟩

end System

end Ixmati
