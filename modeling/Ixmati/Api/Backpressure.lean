import Ixmati.System.Step
import Mathlib.Data.List.Dedup

/-!
# Backpressure

`submit_write` refuses writes to a store whose outbox is too long.  It asks `OutboxBacklog`, a map from
stores to depths, which `self_monitor.rs` fills: every few seconds it goes through the configured
databases and counts the unpublished rows of each.

One poll of a database records the stores it finds there and sets every other store of the map to `0`,
so a round knows only what its last poll saw (`get_pollRound_polls`): the backlog is right exactly when
the databases polled before the last one have nothing to publish (`seesEvery_pollRound_iff`).
-/

namespace Ixmati

open Ixmati.System

/-- `OutboxBacklog`. -/
structure OutboxBacklog where
  threshold : ℤ
  depths : Dict String ℤ

namespace OutboxBacklog

/-- `OutboxBacklog::update`. -/
def update (b : OutboxBacklog) (store : String) (depth : ℤ) : OutboxBacklog :=
  { b with depths := b.depths.insert store depth }

/-- `OutboxBacklog::reset_missing`, and the stores that changed. -/
def resetMissing (b : OutboxBacklog) (seen : List String) : OutboxBacklog × List String :=
  ({ b with depths := b.depths.modify fun store depth => if store ∈ seen then depth else 0 },
    (b.depths.rows.filter fun p => decide (p.1 ∉ seen ∧ p.2 ≠ 0)).map Prod.fst)

/-- `OutboxBacklog::check`. -/
def check (b : OutboxBacklog) (store : String) : Option ℤ :=
  if b.threshold ≤ 0 then none
  else (b.depths.get store).filter fun d => decide (b.threshold < d)

/-- What `submit_write` refuses a write to the store with. -/
def refusal (b : OutboxBacklog) (store : String) : Option Refusal :=
  (b.check store).map fun depth => .outboxBacklog (Int64.ofInt depth) (Int64.ofInt b.threshold)

end OutboxBacklog

/-! ### The monitor -/

/-- The unpublished rows of a store. -/
def Outbox.unpublished (t : Outbox) (store : String) : ℕ :=
  (t.rows.filter fun r => decide (r.store = store ∧ r.publishedAt = none)).length

/-- `SELECT store, COUNT(*) FROM _outbox WHERE published_at IS NULL GROUP BY store`. -/
def Outbox.backlog (t : Outbox) : List (String × ℤ) :=
  (((t.rows.filter fun r => decide (r.publishedAt = none)).map (·.store)).dedup).map fun store =>
    (store, t.unpublished store)

/-- `collect_outbox_metrics`; `none` is a database that cannot be queried. -/
def collectOutboxMetrics (b : OutboxBacklog) : Option Outbox → OutboxBacklog
  | none => b
  | some t =>
    ((t.backlog.foldl (fun b p => b.update p.1 p.2) b).resetMissing (t.backlog.map Prod.fst)).1

/-- A round of the loop of `spawn` over the databases. -/
def pollRound (b : OutboxBacklog) (databases : List (Option Outbox)) : OutboxBacklog :=
  databases.foldl collectOutboxMetrics b

variable {b : OutboxBacklog} {t : Outbox} {store : String}

theorem mem_backlog {p : String × ℤ} :
    p ∈ t.backlog ↔ 0 < t.unpublished p.1 ∧ p.2 = t.unpublished p.1 := by
  have hmem : ∀ s, s ∈ (t.rows.filter fun r => decide (r.publishedAt = none)).map (·.store) ↔
      0 < t.unpublished s := by
    intro s
    simp only [Outbox.unpublished, List.length_pos_iff_exists_mem, List.mem_map, List.mem_filter,
      decide_eq_true_eq]
    constructor
    · rintro ⟨r, ⟨hr, hun⟩, rfl⟩
      exact ⟨r, hr, rfl, hun⟩
    · rintro ⟨r, hr, rfl, hun⟩
      exact ⟨r, ⟨hr, hun⟩, rfl⟩
  rw [Outbox.backlog, List.mem_map]
  constructor
  · rintro ⟨s, hs, rfl⟩
    exact ⟨(hmem s).1 (List.mem_dedup.1 hs), rfl⟩
  · rintro ⟨hpos, hp⟩
    exact ⟨p.1, List.mem_dedup.2 ((hmem p.1).2 hpos), by rw [← hp]⟩

/-- The loop over the result set records the depth each of its stores has there. -/
theorem get_updates {n : String → ℤ} (l : List (String × ℤ)) (hl : ∀ p ∈ l, p.2 = n p.1) :
    (l.foldl (fun b p => b.update p.1 p.2) b).depths.get store =
      if store ∈ l.map Prod.fst then some (n store) else b.depths.get store := by
  induction l generalizing b with
  | nil => rfl
  | cons p l ih =>
    rw [List.foldl_cons, ih fun q hq => hl q (List.mem_cons_of_mem _ hq)]
    have hget : (b.update p.1 p.2).depths.get store =
        if store = p.1 then some (n store) else b.depths.get store := by
      show (Dict.insert _ p.1 p.2).get store = _
      rw [Dict.get_insert, Function.update_apply, hl p List.mem_cons_self]
      split_ifs with hp
      · rw [hp]
      · rfl
    have hcons : store ∈ (p :: l).map Prod.fst ↔ store = p.1 ∨ store ∈ l.map Prod.fst := by
      rw [List.map_cons, List.mem_cons]
    rw [hget]
    by_cases hmem : store ∈ l.map Prod.fst
    · rw [if_pos hmem, if_pos (hcons.2 (Or.inr hmem))]
    · rw [if_neg hmem]
      by_cases hp : store = p.1
      · rw [if_pos hp, if_pos (hcons.2 (Or.inl hp))]
      · rw [if_neg hp, if_neg fun h => (hcons.1 h).elim hp hmem]

/-- One poll records the stores of its database and sets every other store to `0`. -/
theorem get_collectOutboxMetrics (b : OutboxBacklog) (t : Outbox) (store : String) :
    (collectOutboxMetrics b (some t)).depths.get store =
      if 0 < t.unpublished store then some (t.unpublished store : ℤ)
      else (b.depths.get store).map fun _ => 0 := by
  have hseen : store ∈ t.backlog.map Prod.fst ↔ 0 < t.unpublished store := by
    rw [List.mem_map]
    constructor
    · rintro ⟨p, hp, rfl⟩
      exact (mem_backlog.1 hp).1
    · intro hpos
      exact ⟨(store, t.unpublished store), mem_backlog.2 ⟨hpos, rfl⟩, rfl⟩
  unfold collectOutboxMetrics OutboxBacklog.resetMissing
  rw [Dict.get_modify, get_updates (n := fun s => (t.unpublished s : ℤ)) _
    fun p hp => (mem_backlog.1 hp).2]
  simp only [hseen]
  split_ifs with hpos
  · rfl
  · rfl

@[simp]
theorem threshold_collectOutboxMetrics (b : OutboxBacklog) (db : Option Outbox) :
    (collectOutboxMetrics b db).threshold = b.threshold := by
  cases db with
  | none => rfl
  | some t =>
    have hfold : ∀ (l : List (String × ℤ)) (b : OutboxBacklog),
        (l.foldl (fun b p => b.update p.1 p.2) b).threshold = b.threshold := by
      intro l
      induction l with
      | nil => exact fun _ => rfl
      | cons p l ih => exact fun b => ih (b.update p.1 p.2)
    exact hfold t.backlog b

theorem threshold_pollRound (b : OutboxBacklog) (dbs : List (Option Outbox)) :
    (pollRound b dbs).threshold = b.threshold := by
  induction dbs generalizing b with
  | nil => rfl
  | cons db dbs ih => exact (ih _).trans (threshold_collectOutboxMetrics b db)

/-! ### What a round leaves -/

/-- The backlog shows the databases as they are: the depth of each store with unpublished rows is the
number of these rows, every other recorded depth is `0`, and the stores refused are those above the
threshold. -/
structure OutboxBacklog.SeesEvery (b : OutboxBacklog) (dbs : List (String × Outbox)) : Prop where
  depth : ∀ db ∈ dbs, 0 < db.2.unpublished db.1 →
    b.depths.get db.1 = some (db.2.unpublished db.1 : ℤ)
  zero : ∀ store depth, b.depths.get store = some depth →
    (∀ db ∈ dbs, db.1 = store → db.2.unpublished db.1 = 0) → depth = 0
  refused : ∀ store, (b.refusal store).isSome ↔
    ∃ db ∈ dbs, db.1 = store ∧ b.threshold < (db.2.unpublished db.1 : ℤ)

theorem isSome_refusal (hpos : 0 < b.threshold) :
    (b.refusal store).isSome ↔ ∃ depth, b.depths.get store = some depth ∧ b.threshold < depth := by
  rw [OutboxBacklog.refusal, Option.isSome_map, OutboxBacklog.check, if_neg (not_le.2 hpos)]
  cases b.depths.get store with
  | none => simp
  | some depth => simp [Option.isSome_filter]

/-- The last poll of a round decides every depth. -/
theorem get_pollRound_append (b : OutboxBacklog) (dbs : List (Option Outbox)) (t : Outbox)
    (store : String) :
    (pollRound b (dbs ++ [some t])).depths.get store =
      if 0 < t.unpublished store then some (t.unpublished store : ℤ)
      else ((pollRound b dbs).depths.get store).map fun _ => 0 := by
  rw [pollRound, List.foldl_append]
  exact get_collectOutboxMetrics (pollRound b dbs) t store

/-- The rounds before the last one, any of whose polls may have failed. -/
def pollRounds (b : OutboxBacklog) (rounds : List (List (Option Outbox))) : OutboxBacklog :=
  rounds.foldl pollRound b

theorem threshold_pollRounds (b : OutboxBacklog) (rounds : List (List (Option Outbox))) :
    (pollRounds b rounds).threshold = b.threshold := by
  induction rounds generalizing b with
  | nil => rfl
  | cons dbs rounds ih => exact (ih _).trans (threshold_pollRound b dbs)

theorem unpublished_eq_zero_of_ne {db : String × Outbox} (hone : ∀ r ∈ db.2.rows, r.store = db.1)
    (hne : db.1 ≠ store) : db.2.unpublished store = 0 := by
  rw [Outbox.unpublished, List.length_eq_zero_iff, List.filter_eq_nil_iff]
  intro r hr h
  exact hne ((hone r hr).symm.trans (of_decide_eq_true h).1)

section Round

variable {dbs : List (String × Outbox)} {db : String × Outbox}

/-- The polls of a round in which every query succeeds. -/
def polls (dbs : List (String × Outbox)) : List (Option Outbox) := dbs.map fun db => some db.2

/-- A round whose last database is `db` knows only `db`'s rows. -/
theorem get_pollRound_polls (hone : ∀ r ∈ db.2.rows, r.store = db.1) (b : OutboxBacklog)
    (store : String) :
    (pollRound b (polls (dbs ++ [db]))).depths.get store =
      if store = db.1 ∧ 0 < db.2.unpublished db.1 then some (db.2.unpublished db.1 : ℤ)
      else ((pollRound b (polls dbs)).depths.get store).map fun _ => 0 := by
  have hround : polls (dbs ++ [db]) = polls dbs ++ [some db.2] := by simp [polls]
  rw [hround, get_pollRound_append]
  by_cases hs : store = db.1
  · subst hs
    simp
  · rw [unpublished_eq_zero_of_ne hone (Ne.symm hs)]
    simp [hs]

theorem seesEvery_of_last (hone : ∀ r ∈ db.2.rows, r.store = db.1) (hpos : 0 < b.threshold)
    (hrest : ∀ d ∈ dbs, d.2.unpublished d.1 = 0) :
    (pollRound b (polls (dbs ++ [db]))).SeesEvery (dbs ++ [db]) := by
  have hzero : ∀ d ∈ dbs ++ [db], 0 < d.2.unpublished d.1 → d = db := by
    intro d hd hun
    rcases List.mem_append.1 hd with hd | hd
    · rw [hrest d hd] at hun
      exact absurd hun (lt_irrefl 0)
    · exact List.mem_singleton.1 hd
  have hthreshold : 0 < (pollRound b (polls (dbs ++ [db]))).threshold := by
    rwa [threshold_pollRound]
  refine ⟨?_, ?_, ?_⟩
  · intro d hd hun
    rw [get_pollRound_polls hone, hzero d hd hun] at *
    rw [if_pos ⟨rfl, hun⟩]
  · intro store depth hget hnone
    rw [get_pollRound_polls hone] at hget
    split_ifs at hget with hlast
    · exact absurd (hnone db (by simp) hlast.1.symm) hlast.2.ne'
    · obtain ⟨_, _, rfl⟩ := Option.map_eq_some_iff.1 hget
      rfl
  · intro store
    rw [isSome_refusal hthreshold]
    constructor
    · rintro ⟨depth, hget, hlt⟩
      rw [get_pollRound_polls hone] at hget
      split_ifs at hget with hlast
      · refine ⟨db, by simp, hlast.1.symm, ?_⟩
        rwa [Option.some.inj hget]
      · obtain ⟨_, _, rfl⟩ := Option.map_eq_some_iff.1 hget
        exact absurd (hthreshold.trans hlt) (lt_irrefl 0)
    · rintro ⟨d, hd, rfl, hlt⟩
      have hun : 0 < d.2.unpublished d.1 := by
        have := hthreshold.trans hlt
        exact_mod_cast this
      obtain rfl := hzero d hd hun
      refine ⟨_, ?_, hlt⟩
      rw [get_pollRound_polls hone, if_pos ⟨rfl, hun⟩]

/-- A database polled before the last one is forgotten. -/
theorem unpublished_eq_zero_of_seesEvery (hone : ∀ r ∈ db.2.rows, r.store = db.1)
    (hnodup : ((dbs ++ [db]).map Prod.fst).Nodup)
    (h : (pollRound b (polls (dbs ++ [db]))).SeesEvery (dbs ++ [db])) :
    ∀ d ∈ dbs, d.2.unpublished d.1 = 0 := by
  intro d hd
  by_contra hun
  have hne : d.1 ≠ db.1 := by
    rw [List.map_append, List.nodup_append] at hnodup
    exact hnodup.2.2 d.1 (List.mem_map_of_mem hd) db.1 (by simp)
  have hget := h.depth d (List.mem_append_left _ hd) (Nat.pos_of_ne_zero hun)
  rw [get_pollRound_polls hone, if_neg fun hlast => hne hlast.1] at hget
  obtain ⟨_, _, hdepth⟩ := Option.map_eq_some_iff.1 hget
  exact hun (by exact_mod_cast hdepth.symm)

/-- With no database at all a round does nothing. -/
theorem seesEvery_nil_iff (hpos : 0 < b.threshold) :
    b.SeesEvery [] ↔ ∀ store depth, b.depths.get store = some depth → depth = 0 := by
  constructor
  · intro h store depth hget
    exact h.zero store depth hget (by simp)
  · intro hzero
    refine ⟨by simp, fun store depth hget _ => hzero store depth hget, fun store => ?_⟩
    rw [isSome_refusal hpos]
    constructor
    · rintro ⟨depth, hget, hlt⟩
      rw [hzero store depth hget] at hlt
      exact absurd (hpos.trans hlt) (lt_irrefl 0)
    · rintro ⟨_, hmem, _⟩
      cases hmem

end Round

/-- After any rounds and a last one over databases of one store each, the backlog shows the databases as
they are if and only if those polled before the last one have no unpublished row.  Without databases
nothing is polled, and the backlog has to be empty before. -/
theorem seesEvery_pollRound_iff (b : OutboxBacklog) (hpos : 0 < b.threshold)
    (rounds : List (List (Option Outbox))) (dbs : List (String × Outbox))
    (hnodup : (dbs.map Prod.fst).Nodup) (hone : ∀ db ∈ dbs, ∀ r ∈ db.2.rows, r.store = db.1) :
    (pollRound (pollRounds b rounds) (polls dbs)).SeesEvery dbs ↔
      (∀ db ∈ dbs.dropLast, db.2.unpublished db.1 = 0) ∧
      (dbs = [] → ∀ store depth, (pollRounds b rounds).depths.get store = some depth → depth = 0) := by
  have hthreshold : 0 < (pollRounds b rounds).threshold := by rwa [threshold_pollRounds]
  rcases List.eq_nil_or_concat' dbs with rfl | ⟨init, last, rfl⟩
  · simpa [polls, pollRound] using seesEvery_nil_iff hthreshold
  · have hlast := hone last (by simp)
    rw [List.dropLast_concat]
    constructor
    · intro h
      exact ⟨unpublished_eq_zero_of_seesEvery hlast hnodup h, by simp⟩
    · intro h
      exact seesEvery_of_last hlast hthreshold h.1

/-- Two unpublished rows of a store. -/
def twoUnpublished (store : String) : Outbox where
  rows := [⟨1, "e1", "ItemCreated", store, "item", "k", 1, "2026-01-01T00:00:00Z", [], none⟩,
    ⟨2, "e2", "ItemUpdated", store, "item", "k", 2, "2026-01-01T00:00:01Z", [], none⟩]
  seq := 2
  sorted := by simp
  bounded := by simp
  seq_le := by decide

/-- Both stores are above the threshold; the one polled first is recorded with depth `0`. -/
theorem not_seesEvery_two_databases :
    let dbs := [("inventory", twoUnpublished "inventory"), ("sales", twoUnpublished "sales")]
    let b : OutboxBacklog := pollRound ⟨1, Table.empty⟩ (polls dbs)
    (dbs.map Prod.fst).Nodup ∧ (∀ db ∈ dbs, ∀ r ∈ db.2.rows, r.store = db.1) ∧
    (∀ db ∈ dbs, db.2.unpublished db.1 = 2) ∧ b.depths.get "inventory" = some 0 ∧
    b.refusal "inventory" = none ∧ (b.refusal "sales").isSome ∧ ¬ b.SeesEvery dbs := by
  intro dbs b
  have hcount : ∀ db ∈ dbs, db.2.unpublished db.1 = 2 := by decide
  have hget : b.depths.get "inventory" = some 0 := by decide
  refine ⟨by decide, by decide, hcount, hget, rfl, rfl, fun h => ?_⟩
  have hdepth := h.depth ("inventory", twoUnpublished "inventory") (by simp [dbs]) (by decide)
  rw [hget] at hdepth
  exact absurd hdepth (by decide)

/-- The rows are published. -/
def twoPublished (store : String) : Outbox where
  rows := [⟨1, "e1", "ItemCreated", store, "item", "k", 1, "2026-01-01T00:00:00Z", [],
      some "2026-01-01T00:00:02Z"⟩,
    ⟨2, "e2", "ItemUpdated", store, "item", "k", 2, "2026-01-01T00:00:01Z", [],
      some "2026-01-01T00:00:02Z"⟩]
  seq := 2
  sorted := by simp
  bounded := by simp
  seq_le := by decide

/-- The store that is polled first was above the threshold in the round before, and is drained. -/
theorem seesEvery_pollRound_of_a_drained_store :
    (pollRound
      (pollRounds ⟨1, Table.empty⟩
        [polls [("inventory", twoUnpublished "inventory"), ("sales", twoUnpublished "sales")]])
      (polls [("inventory", twoPublished "inventory"), ("sales", twoUnpublished "sales")])).SeesEvery
      [("inventory", twoPublished "inventory"), ("sales", twoUnpublished "sales")] :=
  (seesEvery_pollRound_iff ⟨1, Table.empty⟩ (by decide) _ _ (by decide) (by decide)).2
    ⟨by decide, by simp⟩

end Ixmati
