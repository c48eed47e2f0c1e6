import Ixmati.Writer.History

/-!
# The version guard

The guard of `process_batch` lets a command through when its version is above the stored one.  The
stored version is `MAX(version)` over a signed column, but the guard compares it as `u64`.

* `History.Increasing` is what the guard is for: along the log the versions of each key increase.
* `Straddles` is the case where guard and column disagree: the key has versions on both sides of
  `2 ^ 63`, and the command is above the low ones but not above a high one.
* `History.increasing_iff_neverStraddles` : the versions increase exactly when no iteration met
  that case.
-/

namespace Ixmati

open WriteEngine

/-- The command is about the same key as `cmd`. -/
def WriteEnvelope.SameKey (cmd cmd' : WriteEnvelope) : Prop :=
  cmd.store = cmd'.store ∧ cmd.entity = cmd'.entity ∧ cmd.key = cmd'.key

instance (cmd cmd' : WriteEnvelope) : Decidable (cmd.SameKey cmd') :=
  inferInstanceAs (Decidable (_ ∧ _))

/-- The version of the command is above every version recorded for its key. -/
def AboveRecorded (t : IdempotencyTable) (cmd : WriteEnvelope) : Prop :=
  ∀ r ∈ t.rows, r.names cmd.store cmd.entity cmd.key → r.version.toUInt64 < cmd.version

/-- The command is new and of a known operation, its key has recorded versions on both sides of
`2 ^ 63`, and its version is above all the low ones but not above all the high ones. -/
def Straddles (t : IdempotencyTable) (cmd : WriteEnvelope) : Prop :=
  (IdempotencyTracker.check t cmd = .new ∧ KnownOp cmd.op) ∧
  (∃ r ∈ t.rows, r.names cmd.store cmd.entity cmd.key ∧ 0 ≤ r.version) ∧
  (∀ r ∈ t.rows, r.names cmd.store cmd.entity cmd.key → 0 ≤ r.version →
    r.version.toUInt64 < cmd.version) ∧
  ∃ r ∈ t.rows, r.names cmd.store cmd.entity cmd.key ∧ r.version < 0 ∧
    cmd.version ≤ r.version.toUInt64

instance (t : IdempotencyTable) (cmd : WriteEnvelope) : Decidable (Straddles t cmd) :=
  inferInstanceAs (Decidable (_ ∧ _))

variable {tx : Database} {cmd : WriteEnvelope}

theorem isStale_eq_false :
    isStale tx cmd = false ↔
      ∀ v, IdempotencyTracker.currentVersion tx.idempotency cmd.store cmd.entity cmd.key = some v →
        v < cmd.version := by
  unfold isStale
  cases IdempotencyTracker.currentVersion tx.idempotency cmd.store cmd.entity cmd.key with
  | none => simp
  | some stored => simp

/-- On one side of `2 ^ 63` the column orders versions as the envelopes do. -/
theorem toUInt64_le_of_le {x y : Int64} (hs : 0 ≤ x ∨ y < 0) (h : x ≤ y) :
    x.toUInt64 ≤ y.toUInt64 := by
  have hx := toNat_toUInt64 x
  have hy := toNat_toUInt64 y
  rw [UInt64.le_iff_toNat_le]
  have hx0 : (0 ≤ x) = (0 ≤ x.toInt) := by rw [Int64.le_iff_toInt_le]; rfl
  have hy0 : (0 ≤ y) = (0 ≤ y.toInt) := by rw [Int64.le_iff_toInt_le]; rfl
  have hyn : (y < 0) = (y.toInt < 0) := by rw [Int64.lt_iff_toInt_lt]; rfl
  rw [Int64.le_iff_toInt_le] at h
  simp only [hx0, hy0, hyn] at hx hy hs
  split_ifs at hx hy <;> omega

theorem nonneg_or_neg (x : Int64) : 0 ≤ x ∨ x < 0 := by
  have h0 : (0 : Int64).toInt = 0 := rfl
  rw [Int64.le_iff_toInt_le, Int64.lt_iff_toInt_lt, h0]
  omega

/-- **What the guard misses**: a command it lets through is above every recorded version of its key
unless the versions straddle `2 ^ 63`. -/
theorem aboveRecorded_or_straddles (hnew : IdempotencyTracker.check tx.idempotency cmd = .new)
    (hop : KnownOp cmd.op) (hfresh : isStale tx cmd = false) :
    AboveRecorded tx.idempotency cmd ∨ Straddles tx.idempotency cmd := by
  rw [isStale_eq_false] at hfresh
  cases hv : IdempotencyTracker.currentVersion tx.idempotency cmd.store cmd.entity cmd.key with
  | none =>
    left
    intro r hr hn
    exact absurd hn (IdempotencyTracker.currentVersion_eq_none.1 hv r hr)
  | some v =>
    obtain ⟨⟨m, hm, hmn, hmv⟩, hmax⟩ := IdempotencyTracker.currentVersion_eq_some.1 hv
    rw [← hmv] at hmax
    have hlt : m.version.toUInt64 < cmd.version := by
      rw [hmv, v.toUInt64_toInt64]; exact hfresh v hv
    -- rows on the side of the maximum are below it as `u64`, too
    have hside : ∀ r ∈ tx.idempotency.rows, r.names cmd.store cmd.entity cmd.key →
        0 ≤ r.version ∨ m.version < 0 → r.version.toUInt64 < cmd.version := by
      intro r hr hn hs
      have := toUInt64_le_of_le hs (hmax r hr hn)
      exact UInt64.lt_of_le_of_lt this hlt
    rcases nonneg_or_neg m.version with hpos | hneg
    · by_cases hall : AboveRecorded tx.idempotency cmd
      · exact Or.inl hall
      · right
        unfold AboveRecorded at hall
        push Not at hall
        obtain ⟨r, hr, hn, hle⟩ := hall
        refine ⟨⟨hnew, hop⟩, ⟨m, hm, hmn, hpos⟩, fun r hr hn h0 => hside r hr hn (Or.inl h0),
          r, hr, hn, ?_, UInt64.not_lt.1 hle⟩
        rcases nonneg_or_neg r.version with h0 | h0
        · exact absurd (hside r hr hn (Or.inl h0)) hle
        · exact h0
    · left
      intro r hr hn
      exact hside r hr hn (Or.inr hneg)

theorem Straddles.not_aboveRecorded {t : IdempotencyTable} (h : Straddles t cmd) :
    ¬ AboveRecorded t cmd := by
  obtain ⟨-, -, -, r, hr, hn, -, hle⟩ := h
  intro habove
  exact UInt64.not_lt.2 hle (habove r hr hn)

/-- The guard lets a straddling command through: the maximum it sees is one of the low versions. -/
theorem Straddles.isStale (h : Straddles tx.idempotency cmd) : isStale tx cmd = false := by
  obtain ⟨-, ⟨low, hlow, hlown, hlow0⟩, habove, -⟩ := h
  rw [isStale_eq_false]
  intro v hv
  obtain ⟨⟨m, hm, hmn, hmv⟩, hmax⟩ := IdempotencyTracker.currentVersion_eq_some.1 hv
  have hm0 : 0 ≤ m.version := by
    have := hmax low hlow hlown
    rw [hmv]
    rw [Int64.le_iff_toInt_le] at *
    omega
  have := habove m hm hmn hm0
  rwa [hmv, v.toUInt64_toInt64] at this

namespace History

variable {D : Deps} {h : History}

/-- Along the log, the versions of each key strictly increase. -/
def Increasing (h : History) : Prop :=
  h.applied.Pairwise fun x y => x.cmd.SameKey y.cmd → x.cmd.version < y.cmd.version

/-- In the order of the ids, the versions of the events of each key strictly increase. -/
def OutboxIncreasing (h : History) : Prop :=
  h.db.outbox.rows.Pairwise fun o o' =>
    o.store = o'.store ∧ o.entity = o'.entity ∧ o.key = o'.key →
      o.version.toUInt64 < o'.version.toUInt64

theorem Journaled.outboxIncreasing_iff (hj : Journaled D h) : OutboxIncreasing h ↔ Increasing h := by
  unfold OutboxIncreasing Increasing
  rw [hj.outbox]
  refine pairwise_mapIdx (fun i j x y => ?_) _
  simp [outboxRow, Outbox.stored, Outbox.entryOf, eventOf, WriteEnvelope.SameKey]

/-- The recorded rows are those of the log. -/
theorem Journaled.mem_idempotency (hj : Journaled D h) {r : IdempotencyRow} :
    r ∈ h.db.idempotency.rows ↔ ∃ it ∈ h.applied, idempotencyRow D it = r := by
  rw [hj.idempotency, List.mem_map]

theorem Journaled.aboveRecorded_iff (hj : Journaled D h) {cmd : WriteEnvelope} :
    AboveRecorded h.db.idempotency cmd ↔
      ∀ it ∈ h.applied, it.cmd.SameKey cmd → it.cmd.version < cmd.version := by
  unfold AboveRecorded
  simp [hj.mem_idempotency, idempotencyRow, IdempotencyTracker.rowOf, IdempotencyRow.names,
    WriteEnvelope.SameKey]

theorem increasing_append {log : List Iteration} {it : Iteration} :
    (log ++ [it]).Pairwise (fun x y => x.cmd.SameKey y.cmd → x.cmd.version < y.cmd.version) ↔
      log.Pairwise (fun x y => x.cmd.SameKey y.cmd → x.cmd.version < y.cmd.version) ∧
        ∀ x ∈ log, x.cmd.SameKey it.cmd → x.cmd.version < it.cmd.version := by
  rw [List.pairwise_append]
  simp

/-- No iteration met the case that the guard misses. -/
def NeverStraddles (h : History) : Prop :=
  ∀ it ∈ h.iterations, ¬ Straddles it.before.idempotency it.cmd

/-- One iteration keeps the versions increasing exactly when it does not meet that case. -/
theorem increasing_extend_iff (hj : Journaled D h) {a : Ambient} {cmd : WriteEnvelope}
    {db : Database} {o : Outcome} (hok : processCommand D a h.db cmd = .ok (db, o)) :
    Increasing (h.extend a cmd db o) ↔ Increasing h ∧ ¬ Straddles h.db.idempotency cmd := by
  have hskip : (h.extend a cmd db o).applied = h.applied → ¬ Straddles h.db.idempotency cmd →
      (Increasing (h.extend a cmd db o) ↔
        Increasing h ∧ ¬ Straddles h.db.idempotency cmd) := by
    intro hlog hns
    unfold Increasing
    rw [hlog]
    exact ⟨fun hi => ⟨hi, hns⟩, fun hi => hi.1⟩
  rcases processCommand_cases hok with ⟨rfl, rfl, hdup⟩ | ⟨rfl, rfl, hnew, hst⟩ |
    ⟨rfl, rfl, -, -, hop⟩ | ⟨rfl, happ⟩
  · exact hskip (applied_extend ..) fun hs => hdup hs.1.1
  · exact hskip (applied_extend ..) fun hs => by simp [hs.isStale] at hst
  · exact hskip (applied_extend ..) fun hs => hop hs.1.2
  · have hlog : (h.extend a cmd db (.committed (eventOf a cmd))).applied =
        h.applied ++ [⟨h.db, a, cmd, .committed (eventOf a cmd)⟩] := applied_extend ..
    unfold Increasing
    rw [hlog, increasing_append, ← hj.aboveRecorded_iff]
    refine and_congr_right fun _ => ⟨fun habove hs => hs.not_aboveRecorded habove, fun hns => ?_⟩
    exact (aboveRecorded_or_straddles happ.new happ.known happ.fresh).resolve_right hns

theorem increasing_iff_neverStraddles (D : Deps) (store : String) (bs : List Batch) :
    Increasing (run D store bs) ↔ NeverStraddles (run D store bs) := by
  have hinv : Journaled D (run D store bs) ∧
      (Increasing (run D store bs) ↔ NeverStraddles (run D store bs)) := by
    refine run_invariant (I := fun h => Journaled D h ∧ (Increasing h ↔ NeverStraddles h))
      (P := fun _ => True) (fun _ _ _ _ => trivial) ⟨⟨rfl, rfl, rfl⟩, ?_⟩ ?_
    · simp [Increasing, NeverStraddles, applied]
    · intro h a cmd db o ⟨hj, hiff⟩ _ hok
      refine ⟨hj.extend hok, ?_⟩
      rw [increasing_extend_iff hj hok, hiff]
      simp [NeverStraddles, History.extend, or_imp, forall_and]
  exact hinv.2

/-- **Versions increase exactly when no iteration straddles.**  For any batches, with versions from
the whole range of `u64`: each command is applied only above all versions applied to its key
before, and the events of each key carry increasing versions, if and only if no iteration met a
key whose recorded versions straddle `2 ^ 63`. -/
theorem versions_increase_iff_neverStraddles (D : Deps) (store : String) (bs : List Batch) :
    (Increasing (run D store bs) ∧ OutboxIncreasing (run D store bs)) ↔
      NeverStraddles (run D store bs) := by
  rw [(journaled_run D store bs).outboxIncreasing_iff, and_self]
  exact increasing_iff_neverStraddles D store bs

/-- Version 6 is applied after version `2 ^ 63`, because the column holds the latter as the smallest
integer and the guard compares 6 with 5. -/
theorem version_six_applied_after_two_pow_63 :
    ¬ Increasing (run sampleDeps "main"
      [⟨fun _ => sampleAmbient, [sampleUpsert "a" 5]⟩,
       ⟨fun _ => sampleAmbient, [sampleUpsert "b" 9223372036854775808]⟩,
       ⟨fun _ => sampleAmbient, [sampleUpsert "c" 6]⟩]) := by
  unfold Increasing
  decide +kernel

end History

end Ixmati
