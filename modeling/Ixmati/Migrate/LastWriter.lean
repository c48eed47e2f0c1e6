import Ixmati.Migrate.Collect

/-!
# The last writer wins

The states of all sources are merged by `compare_state`, which compares versions, then timestamps, then
names of sources.  This is a linear order on the rows as far as these three are concerned
(`StateRow.rank`), and two rows that it does not tell apart are of one source.  So the state that is kept
of a key is the greatest of its rows, and the first one if there are several, in whatever order the
sources are listed.  Within a source payload rows come before tombstones.
-/

namespace Ixmati

namespace Migrate

/-! ### The order -/

/-- The order of `compare_state`: the version, then the timestamp, then the smaller source. -/
def StateRow.rank (s : StateRow) : ℕ ×ₗ String ×ₗ Stringᵒᵈ :=
  toLex (s.version.toNat, toLex (s.timestamp, OrderDual.toDual s.source))

theorem StateRow.rank_lt {a b : StateRow} :
    a.rank < b.rank ↔ a.version < b.version ∨ a.version = b.version ∧
      (a.timestamp < b.timestamp ∨ a.timestamp = b.timestamp ∧ b.source < a.source) := by
  unfold rank
  rw [Prod.Lex.toLex_lt_toLex, Prod.Lex.toLex_lt_toLex, UInt64.lt_iff_toNat_lt, UInt64.toNat_inj]
  rfl

theorem newer_eq_higher : newer = higher StateRow.rank := by
  funext a b
  refine decide_eq_decide.2 ?_
  rw [compareState, Ordering.then_eq_gt, Ordering.then_eq_gt, StateRow.rank_lt, Std.compare_eq_gt,
    Std.compare_eq_iff_eq, compare_gt_iff_gt, Std.compare_eq_iff_eq, compare_gt_iff_gt,
    eq_comm (a := a.version), eq_comm (a := a.timestamp)]

/-- Rows of one rank are of one source. -/
theorem source_of_rank {a b : StateRow} (h : a.rank = b.rank) : a.source = b.source := by
  have hpair := (Prod.mk.inj (toLex_inj.1 h)).2
  exact OrderDual.toDual_inj.1 (Prod.mk.inj (toLex_inj.1 hpair)).2

/-! ### The rows of the sources -/

section Rows

variable {s : Source} {rows : List StateRow} {r : StateRow}

theorem source_of_payloadStates (h : s.payloadStates = .ok rows) (hr : r ∈ rows) :
    r.source = s.name ∧ r.payload.isSome := by
  obtain ⟨cells, -, hcells⟩ := mem_of_mapM_ok h hr
  simp only [bind, Except.bind, pure, Except.pure] at hcells
  cases hread : readBlob 3 cells.payload with
  | error e =>
    rw [hread] at hcells
    cases hcells
  | ok bytes =>
    rw [hread] at hcells
    obtain rfl := Except.ok.inj hcells
    exact ⟨rfl, rfl⟩

theorem source_of_tombstoneStates (hr : r ∈ s.tombstoneStates) : r.source = s.name ∧ r.payload = none := by
  obtain ⟨row, -, rfl⟩ := List.mem_map.1 hr
  exact ⟨rfl, rfl⟩

theorem states_ok (h : s.states = .ok rows) :
    ∃ payloads, s.payloadStates = .ok payloads ∧ rows = payloads ++ s.tombstoneStates := by
  simp only [Source.states, bind, Except.bind, pure, Except.pure] at h
  cases hread : s.payloadStates with
  | error e =>
    rw [hread] at h
    cases h
  | ok payloads =>
    rw [hread] at h
    exact ⟨payloads, rfl, (Except.ok.inj h).symm⟩

theorem source_of_states (h : s.states = .ok rows) (hr : r ∈ rows) : r.source = s.name := by
  obtain ⟨payloads, hread, rfl⟩ := states_ok h
  rcases List.mem_append.1 hr with hr | hr
  · exact (source_of_payloadStates hread hr).1
  · exact (source_of_tombstoneStates hr).1

/-- In a source no tombstone comes before a payload row. -/
theorem payloads_first (h : s.states = .ok rows) :
    rows.Pairwise fun a b => b.payload.isSome → a.payload.isSome := by
  obtain ⟨payloads, hread, rfl⟩ := states_ok h
  refine List.pairwise_append.2 ⟨List.pairwise_of_forall_mem_list ?_, ?_, ?_⟩
  · exact fun a ha b _ _ => (source_of_payloadStates hread ha).2
  · refine List.pairwise_of_forall_mem_list fun a _ b hb hsome => ?_
    rw [(source_of_tombstoneStates hb).2] at hsome
    cases hsome
  · exact fun a ha b _ _ => (source_of_payloadStates hread ha).2

/-- The rows of a source that can be read. -/
def Source.stateRows (s : Source) : List StateRow := s.states.toOption.getD []

variable {sources : List Source}

theorem states_of_readAll (h : readAll Source.states sources = .ok rows) :
    ∀ s ∈ sources, s.states = .ok s.stateRows := by
  intro s hs
  obtain ⟨first, hfirst⟩ := exists_of_readAll h s hs
  rw [Source.stateRows, hfirst]
  rfl

theorem eq_flatMap_of_readAll (h : readAll Source.states sources = .ok rows) :
    rows = sources.flatMap Source.stateRows :=
  (Except.ok.inj ((readAll_of_ok (states_of_readAll h)).symm.trans h)).symm

/-- Of two rows of one rank the later one is a payload row only if the first is. -/
theorem ties_payload_first (hnames : (sources.map Source.name).Nodup)
    (h : readAll Source.states sources = .ok rows) :
    rows.Pairwise fun a b => a.rank = b.rank → b.payload.isSome → a.payload.isSome := by
  have hread := states_of_readAll h
  rw [eq_flatMap_of_readAll h]
  refine List.pairwise_flatMap.2 ⟨fun s hs => ?_, ?_⟩
  · refine (payloads_first (hread s hs)).imp fun {a b} hab heq => ?_
    exact hab
  · refine (List.pairwise_map.1 hnames).imp_of_mem fun {s s'} hs hs' hne a ha b hb heq => ?_
    refine absurd ?_ hne
    rw [← source_of_states (hread s hs) ha, ← source_of_states (hread s' hs') hb, source_of_rank heq]

end Rows

/-! ### The greatest row of each key -/

/-- The row is the greatest of its key, and a payload row if a payload row ties with it. -/
def Greatest (rows : List StateRow) (s : StateRow) : Prop :=
  s ∈ rows ∧ ∀ r ∈ rows, r.pk = s.pk →
    r.rank ≤ s.rank ∧ (r.rank = s.rank → r.payload.isSome → s.payload.isSome)

section Kept

variable {sources : List Source} {rows : List StateRow}

theorem greatest_of_mem_keptStates (hnames : (sources.map Source.name).Nodup)
    (h : readAll Source.states sources = .ok rows) {s : StateRow} (hs : s ∈ keptStates rows) :
    Greatest rows s := by
  rw [mem_keptStates, newer_eq_higher] at hs
  have hties := (ties_payload_first hnames h).filter fun r => decide (r.pk = s.pk)
  obtain ⟨pre, post, hrows, hpre, hpost⟩ := best_first hs
  have hmem : ∀ r, r ∈ pre ++ s :: post ↔ r ∈ rows ∧ r.pk = s.pk := by
    intro r
    rw [← hrows, List.mem_filter, decide_eq_true_eq]
  refine ⟨((hmem s).1 (by simp)).1, fun r hr hpk => ?_⟩
  rw [hrows] at hties
  rcases List.mem_append.1 ((hmem r).2 ⟨hr, hpk⟩) with hr | hr
  · exact ⟨le_of_lt (hpre r hr), fun heq => absurd heq (ne_of_lt (hpre r hr))⟩
  rcases List.mem_cons.1 hr with rfl | hr
  · exact ⟨le_rfl, fun _ hsome => hsome⟩
  -- A row after the one that is kept has at most its rank.
  · refine ⟨hpost r hr, fun heq hsome => ?_⟩
    exact (List.pairwise_cons.1 (List.pairwise_append.1 hties).2.1).1 r hr heq.symm hsome

theorem pk_mem_keptStates (pk : String × String) :
    pk ∈ (keptStates rows).map StateRow.pk ↔ pk ∈ rows.map StateRow.pk := by
  constructor
  · intro h
    obtain ⟨s, hs, rfl⟩ := List.mem_map.1 h
    exact List.mem_map_of_mem (mem_of_mem_keptStates hs)
  · intro h
    obtain ⟨r, hr, rfl⟩ := List.mem_map.1 h
    have hfilter : r ∈ rows.filter fun x => decide (x.pk = r.pk) := List.mem_filter.2 ⟨hr, by simp⟩
    cases hbest : best newer (rows.filter fun x => decide (x.pk = r.pk)) with
    | none =>
      cases hrows : rows.filter fun x => decide (x.pk = r.pk) with
      | nil =>
        rw [hrows] at hfilter
        cases hfilter
      | cons x xs =>
        rw [hrows] at hbest
        cases hbest
    | some s =>
      have hs := hbest
      rw [newer_eq_higher] at hs
      obtain ⟨pre, post, hrows, -⟩ := best_first hs
      have hmem : s ∈ rows.filter fun x => decide (x.pk = r.pk) := by
        rw [hrows]
        simp
      have hpk : s.pk = r.pk := of_decide_eq_true (List.mem_filter.1 hmem).2
      refine List.mem_map.2 ⟨s, ?_, hpk⟩
      rw [mem_keptStates, hpk]
      exact hbest

/-- One state of each key is kept. -/
theorem representatives_keptStates (rows : List StateRow) :
    Representatives StateRow.pk rows (keptStates rows) where
  subset _ hs := mem_of_mem_keptStates hs
  nodup := nodup_of_sorted_states (sorted_keptStates rows)
  covers _ hr := List.mem_map.1 ((pk_mem_keptStates _).2 (List.mem_map_of_mem hr))

/-- What is kept does not depend on the order of the sources. -/
theorem keptStates_perm (hnames : (sources.map Source.name).Nodup)
    (h : readAll Source.states sources = .ok rows) {sources' : List Source}
    (hperm : sources'.Perm sources) :
    ∃ rows', readAll Source.states sources' = .ok rows' ∧ keptStates rows' = keptStates rows := by
  have hread := states_of_readAll h
  refine ⟨sources'.flatMap Source.stateRows,
    readAll_of_ok fun s hs => hread s (hperm.mem_iff.1 hs), ?_⟩
  rw [eq_flatMap_of_readAll h]
  refine eq_of_sorted (sorted_keptStates _) (sorted_keptStates _) fun s => ?_
  rw [mem_keptStates, mem_keptStates, newer_eq_higher, List.filter_flatMap, List.filter_flatMap]
  rw [best_flatMap_perm hperm.symm]
  -- Rows of one rank are of one source.
  refine (List.pairwise_map.1 hnames).imp_of_mem fun {s s'} hs hs' hne a ha b hb heq => hne ?_
  rw [← source_of_states (hread s hs) (List.mem_filter.1 ha).1,
    ← source_of_states (hread s' hs') (List.mem_filter.1 hb).1, source_of_rank heq]

/-- Every key has exactly one state, its greatest row, whatever the order of the sources. -/
theorem collectStates_greatest (hnames : (sources.map Source.name).Nodup) {states : List StateRow}
    {conflicts : ℕ} (h : collectStates sources = .ok (states, conflicts)) :
    ∃ rows, readAll Source.states sources = .ok rows ∧
      (∀ s ∈ states, Greatest rows s) ∧
      (states.map StateRow.pk).Nodup ∧
      (∀ pk, pk ∈ states.map StateRow.pk ↔ pk ∈ rows.map StateRow.pk) ∧
      ∀ sources', sources'.Perm sources →
        ∃ conflicts', collectStates sources' = .ok (states, conflicts') := by
  obtain ⟨rows, hread, rfl⟩ := collectStates_ok h
  refine ⟨rows, hread, fun s hs => greatest_of_mem_keptStates hnames hread hs,
    nodup_of_sorted_states (sorted_keptStates rows), pk_mem_keptStates, fun sources' hperm => ?_⟩
  obtain ⟨rows', hread', hkept⟩ := keptStates_perm hnames hread hperm
  obtain ⟨conflicts', hcollect⟩ := collectStates_of_readAll hread'
  exact ⟨conflicts', hkept ▸ hcollect⟩

end Kept

/-! ### Two stores with one key -/

/-- A store with one payload row. -/
def payloadStore (name : String) (r : PayloadCells) : Source where
  name := name
  db := {
    payload := fun table => if table = "payload_" ++ name then some [r] else none
    tombstones := none
    idempotency := none
    outbox := none }

/-- A store with a payload row and a tombstone of its key. -/
def tiedStore (name : String) (r : PayloadCells) (t : TombstoneRow) : Source :=
  { payloadStore name r with db := { (payloadStore name r).db with tombstones := some [t] } }

/-- Both stores tie in version and timestamp. -/
def tiedSources : List Source :=
  [payloadStore "west" ⟨"user", "1", 2, .blob [50], "t2"⟩,
    tiedStore "east" ⟨"user", "1", 2, .blob [49], "t2"⟩ ⟨"user", "1", 2, "t2", some "ev"⟩]

/-- The payload row of the smaller store is kept, in either order. -/
theorem collectStates_tiedSources :
    ∃ conflicts, collectStates tiedSources.reverse =
      .ok ([⟨"user", "1", 2, "t2", "east", some [49], none⟩], conflicts) := by
  have hcollect : collectStates tiedSources =
      .ok ([⟨"user", "1", 2, "t2", "east", some [49], none⟩], 2) := by decide +kernel
  obtain ⟨_, _, _, _, _, hperm⟩ := collectStates_greatest (by decide) hcollect
  exact hperm _ (List.reverse_perm _)

end Migrate

end Ixmati
