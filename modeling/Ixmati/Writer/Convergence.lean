import Ixmati.Writer.Consistency
import Ixmati.Writer.Ingest
import Mathlib.Data.List.MinMax

/-!
# The order of deliveries does not matter

MQTT delivers commands at least once and in no particular order, and the `Batcher` cuts them into
batches by time.  Two runs of one store that process the same commands record different ones, emit
different events and reject different ones, but they end with the same payload rows and tombstones:
on each key the effect of the command with the highest version.

That command is settled in both runs, and neither of the two ways in which another command could
settle it is open: no other command has its idempotency key, and none has a version of its key that
is as high.  So it was applied, and along the log versions increase, so it was applied last.
-/

namespace Ixmati

open WriteEngine

namespace History

variable {D : Deps} {s : String} {cmds : List WriteEnvelope} {bs : List Batch}

/-- Every command that a run has processed is settled. -/
theorem settled_run (D : Deps) (s : String) (bs : List Batch) :
    ∀ it ∈ (run D s bs).iterations, Settled it.cmd (run D s bs).db := by
  refine run_invariant (I := fun h => ∀ it ∈ h.iterations, Settled it.cmd h.db)
    (P := fun _ => True) (fun _ _ _ _ => trivial) (by simp) fun h a cmd db o hall _ hok => ?_
  obtain ⟨hsub, hset⟩ := processCommand_settles hok
  intro it hit
  rcases List.mem_append.1 hit with hit | hit
  · exact (hall it hit).mono hsub
  · rw [List.mem_singleton] at hit
    rw [hit]
    exact hset

/-- Commands of one store that do not compete: no two share an idempotency key, and no two are of
the same version of one key. -/
structure Independent (s : String) (cmds : List WriteEnvelope) : Prop where
  fits : ∀ c ∈ cmds, FitsStore s c
  known : ∀ c ∈ cmds, KnownOp c.op
  keys : ∀ c ∈ cmds, ∀ c' ∈ cmds, c.idempotencyKey = c'.idempotencyKey → c = c'
  versions : ∀ c ∈ cmds, ∀ c' ∈ cmds, c.SameKey c' → c.version = c'.version → c = c'

/-- The batches deliver exactly the given commands, each of them at least once in a batch that
commits. -/
structure Delivers (D : Deps) (s : String) (bs : List Batch) (cmds : List WriteEnvelope) :
    Prop where
  only : ∀ b ∈ bs, ∀ c ∈ b.commands, c ∈ cmds
  each : ∀ c ∈ cmds, ∃ it ∈ (run D s bs).iterations, it.cmd = c

/-- The command with the highest version on a key. -/
def newest (cmds : List WriteEnvelope) (entity key : String) : Option WriteEnvelope :=
  (cmds.filter fun c => decide (c.entity = entity ∧ c.key = key)).argmax fun c => c.version.toNat

theorem newest_eq_none {entity key : String} (h : newest cmds entity key = none) :
    ∀ c ∈ cmds, ¬ (c.entity = entity ∧ c.key = key) := by
  intro c hc hk
  have hmem : c ∈ cmds.filter fun c => decide (c.entity = entity ∧ c.key = key) := by simp [hc, hk]
  rw [List.argmax_eq_none.1 h] at hmem
  simp at hmem

theorem newest_eq_some {entity key : String} {c : WriteEnvelope}
    (h : newest cmds entity key = some c) :
    c ∈ cmds ∧ c.entity = entity ∧ c.key = key ∧
      ∀ c' ∈ cmds, c'.entity = entity → c'.key = key → c'.version ≤ c.version := by
  obtain ⟨hmem, hk⟩ := List.mem_filter.1 (List.argmax_mem h)
  simp only [decide_eq_true_eq] at hk
  refine ⟨hmem, hk.1, hk.2, fun c' hc' he hk' => ?_⟩
  have hmem' : c' ∈ cmds.filter fun c => decide (c.entity = entity ∧ c.key = key) := by
    simp [hc', he, hk']
  rw [UInt64.le_iff_toNat_le]
  exact List.le_of_mem_argmax (f := fun c : WriteEnvelope => c.version.toNat) hmem' h

/-- The applied commands of a run were delivered. -/
theorem Delivers.applied (hd : Delivers D s bs cmds) :
    ∀ it ∈ (run D s bs).applied, it.cmd ∈ cmds := by
  refine run_invariant (I := fun h => ∀ it ∈ h.applied, it.cmd ∈ cmds) hd.only (by simp [History.applied]) ?_
  intro h a cmd db o hall hcmd hok
  rcases extend_cases hok with ⟨-, hlog⟩ | ⟨-, hlog⟩
  · rw [hlog]
    exact hall
  · rw [hlog]
    intro it hit
    rcases List.mem_append.1 hit with hit | hit
    · exact hall it hit
    · rw [List.mem_singleton.1 hit]
      exact hcmd

/-- The newest command of a key is applied, whatever came before it. -/
theorem Delivers.newest_applied (hi : Independent s cmds) (hd : Delivers D s bs cmds)
    {entity key : String} {c : WriteEnvelope} (hnew : newest cmds entity key = some c) :
    ∃ it ∈ (run D s bs).applied, it.cmd = c := by
  have hj := journaled_run D s bs
  obtain ⟨hc, he, hk, hmax⟩ := newest_eq_some hnew
  obtain ⟨it, hit, rfl⟩ := hd.each c hc
  rcases settled_run D s bs it hit with ⟨r, hr, -, hkey⟩ | ⟨r, hr, hn, hle⟩ | hop
  · obtain ⟨x, hx, rfl⟩ := hj.mem_idempotency.1 hr
    exact ⟨x, hx, hi.keys x.cmd (hd.applied x hx) it.cmd hc hkey⟩
  · obtain ⟨x, hx, rfl⟩ := hj.mem_idempotency.1 hr
    have hxv : it.cmd.version ≤ x.cmd.version := by
      simpa [idempotencyRow, IdempotencyTracker.rowOf] using hle
    have hxmax := hmax x.cmd (hd.applied x hx) (hn.2.1.trans he) (hn.2.2.trans hk)
    exact ⟨x, hx, hi.versions x.cmd (hd.applied x hx) it.cmd hc hn (UInt64.le_antisymm hxmax hxv)⟩
  · exact absurd (hi.known it.cmd hc) hop

/-- The last entry on each key is the one of the newest command. -/
theorem Delivers.lastOn_cmd (hi : Independent s cmds) (hd : Delivers D s bs cmds)
    (entity key : String) :
    ((run D s bs).lastOn entity key).map (·.cmd) = newest cmds entity key := by
  have hfit : ∀ b ∈ bs, ∀ cmd ∈ b.commands, FitsStore s cmd := fun b hb c hc =>
    hi.fits c (hd.only b hb c hc)
  have hc : Consistent D s (run D s bs) := consistent_run hfit
  cases hnew : newest cmds entity key with
  | none =>
    have hnone : (run D s bs).lastOn entity key = none := by
      refine lastWhere_eq_none.2 fun x hx hkey => ?_
      simp only [onKey, decide_eq_true_eq] at hkey
      exact newest_eq_none hnew x.cmd (hd.applied x hx) hkey
    rw [hnone]
    rfl
  | some c =>
    obtain ⟨hcmem, he, hk, hmax⟩ := newest_eq_some hnew
    obtain ⟨x, hx, rfl⟩ := hd.newest_applied hi hnew
    have hxkey : onKey entity key x := by simp [onKey, he, hk]
    cases hlast : (run D s bs).lastOn entity key with
    | none => exact absurd hxkey (lastWhere_eq_none.1 hlast x hx)
    | some it =>
      obtain ⟨hit, hkey⟩ := mem_of_lastWhere hlast
      simp only [onKey, decide_eq_true_eq] at hkey
      -- the last entry is not below the newest command, so it is the newest command
      have hle : x.cmd.version ≤ it.cmd.version := by
        rcases lastWhere_of_pairwise (hc.increasing.imp fun {a b} hab _ _ => hab) hlast x hx hxkey
          with rfl | hlt
        · exact UInt64.le_refl _
        · refine UInt64.le_of_lt (hlt ⟨?_, he.trans hkey.1.symm, hk.trans hkey.2.symm⟩)
          exact (hc.fits x hx).1.trans (hc.fits it hit).1.symm
      have hge := hmax it.cmd (hd.applied it hit) hkey.1 hkey.2
      have heq : it.cmd = x.cmd :=
        hi.versions it.cmd (hd.applied it hit) x.cmd hcmem
          ⟨(hc.fits it hit).1.trans (hc.fits x hx).1.symm, hkey.1.trans he.symm,
            hkey.2.trans hk.symm⟩ (UInt64.le_antisymm hge hle)
      rw [Option.map_some, heq]

/-- The version and payload that a command leaves. -/
def leftPayload (D : Deps) (c : WriteEnvelope) : Option (Int64 × Bytes) :=
  if c.op = "delete" then none else some (c.version.toInt64, D.toVec c.payload)

/-- The version of the tombstone that a command leaves. -/
def leftTombstone (c : WriteEnvelope) : Option Int64 :=
  if c.op = "delete" then some c.version.toInt64 else none

/-- **The order of deliveries does not matter.**  For any commands that do not compete, any two
sequences of batches that deliver each of them at least once, in any order, with any repetitions and
cut in any way, leave the same payload rows and the same tombstones: on each key what the command
with the highest version leaves. -/
theorem final_tables_of_deliveries (D : Deps) (s : String) (cmds : List WriteEnvelope)
    (hi : Independent s cmds) (bs bs' : List Batch) (hd : Delivers D s bs cmds)
    (hd' : Delivers D s bs' cmds) (entity key : String) :
    ((findPayload (run D s bs).db s entity key).map fun p => (p.version, p.payload)) =
        (newest cmds entity key).bind (leftPayload D) ∧
      ((findPayload (run D s bs').db s entity key).map fun p => (p.version, p.payload)) =
        (newest cmds entity key).bind (leftPayload D) ∧
      ((run D s bs).db.tombstones.find? (entity, key)).map (·.version) =
        (newest cmds entity key).bind leftTombstone ∧
      ((run D s bs').db.tombstones.find? (entity, key)).map (·.version) =
        (newest cmds entity key).bind leftTombstone := by
  have hshow : ∀ bs, Delivers D s bs cmds →
      ((findPayload (run D s bs).db s entity key).map fun p => (p.version, p.payload)) =
        (newest cmds entity key).bind (leftPayload D) ∧
      ((run D s bs).db.tombstones.find? (entity, key)).map (·.version) =
        (newest cmds entity key).bind leftTombstone := by
    intro bs hd
    have hfit : ∀ b ∈ bs, ∀ cmd ∈ b.commands, FitsStore s cmd := fun b hb c hc =>
      hi.fits c (hd.only b hb c hc)
    have hc : Consistent D s (run D s bs) := consistent_run hfit
    rw [← hd.lastOn_cmd hi, hc.current.payload, hc.current.tombstones]
    cases (run D s bs).lastOn entity key with
    | none => exact ⟨rfl, rfl⟩
    | some it =>
      by_cases hdel : it.cmd.op = "delete"
      · simp [payloadRow, tombstone, leftPayload, leftTombstone, hdel, Tombstones.rowOf]
      · simp [payloadRow, tombstone, leftPayload, leftTombstone, hdel, payloadRowOf]
  exact ⟨(hshow bs hd).1, (hshow bs' hd').1, (hshow bs hd).2, (hshow bs' hd').2⟩

/-- Two versions of a key, in order. -/
def sampleInOrder : List Batch :=
  [⟨fun _ => sampleAmbient, [sampleUpsert "a" 1]⟩, ⟨fun _ => sampleAmbient, [sampleUpsert "b" 2]⟩]

/-- The same, the newer one first and twice. -/
def sampleOutOfOrder : List Batch :=
  [⟨fun _ => sampleAmbient, [sampleUpsert "b" 2, sampleUpsert "a" 1, sampleUpsert "b" 2]⟩]

theorem final_tables_of_two_deliveries :
    Independent "main" [sampleUpsert "a" 1, sampleUpsert "b" 2] ∧
    ((findPayload (run sampleDeps "main" sampleInOrder).db "main" "user" "1").map
      fun p => (p.version, p.payload)) =
    ((findPayload (run sampleDeps "main" sampleOutOfOrder).db "main" "user" "1").map
      fun p => (p.version, p.payload)) := by
  have hi : Independent "main" [sampleUpsert "a" 1, sampleUpsert "b" 2] := by
    refine ⟨by decide, by decide, ?_, ?_⟩
    · simp [sampleUpsert]
    · simp [sampleUpsert]
  have hd : Delivers sampleDeps "main" sampleInOrder [sampleUpsert "a" 1, sampleUpsert "b" 2] := by
    have hcmds : (run sampleDeps "main" sampleInOrder).iterations.map (·.cmd) =
        [sampleUpsert "a" 1, sampleUpsert "b" 2] := rfl
    exact ⟨by simp [sampleInOrder], fun c hc => List.mem_map.1 (hcmds ▸ hc)⟩
  have hd' : Delivers sampleDeps "main" sampleOutOfOrder
      [sampleUpsert "a" 1, sampleUpsert "b" 2] := by
    have hcmds : (run sampleDeps "main" sampleOutOfOrder).iterations.map (·.cmd) =
        [sampleUpsert "b" 2, sampleUpsert "a" 1, sampleUpsert "b" 2] := rfl
    refine ⟨by simp [sampleOutOfOrder], fun c hc => List.mem_map.1 (hcmds ▸ ?_)⟩
    simp only [List.mem_cons, List.not_mem_nil, or_false] at hc ⊢
    tauto
  have htables := final_tables_of_deliveries sampleDeps "main" _ hi sampleInOrder sampleOutOfOrder
    hd hd' "user" "1"
  exact ⟨hi, htables.1.trans htables.2.1.symm⟩

end History

end Ixmati
