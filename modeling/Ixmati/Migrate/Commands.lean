import Ixmati.Migrate.Collect

/-!
# Commands recorded in several stores

A client that sends a command to several stores uses one idempotency key for it, so a merge finds rows
with one key in several sources.  `collect_idempotency` keeps the first one if the others are of the same
command, and gives up otherwise.  It compares the columns and the digest that the writer recorded.

The digest of the writer also covers the store (`canonicalCommand`), although a source is known by its
store already.  So two rows agree only if their commands were for one store, and a command that was sent
to two stores is taken for a divergence.
-/

namespace Ixmati

namespace Migrate

/-! ### Recorded commands -/

/-- A database and the commands that `record` was called for, with the times of the calls. -/
structure Recorded where
  name : String
  commands : List (String × WriteEnvelope)
  /-- The other tables. -/
  rest : SourceDb

/-- The table `_idempotency`. -/
def Recorded.table (D : Deps) (w : Recorded) : IdempotencyTable :=
  w.commands.foldl (fun t c => IdempotencyTracker.record D c.1 t c.2) Table.empty

/-- The database as a source, with both columns of the current schema. -/
def Recorded.source (D : Deps) (w : Recorded) : Source where
  name := w.name
  db := { w.rest with idempotency := some ⟨true, true, (w.table D).rows⟩ }

/-- The row of the command is in the table. -/
def Recorded.Holds (D : Deps) (w : Recorded) (c : WriteEnvelope) : Prop :=
  ∃ appliedAt, (appliedAt, c) ∈ w.commands ∧
    IdempotencyTracker.rowOf D appliedAt c ∈ (w.table D).rows

/-- The commands say the same, apart from the store. -/
def SameCommand (c c' : WriteEnvelope) : Prop :=
  c.op = c'.op ∧ c.entity = c'.entity ∧ c.key = c'.key ∧ c.version = c'.version ∧ c.ts = c'.ts ∧
    c.payload = c'.payload

/-- Two recorded commands have one idempotency key. -/
def Collide (D : Deps) (ws : List Recorded) (c c' : WriteEnvelope) : Prop :=
  (∃ w ∈ ws, w.Holds D c) ∧ (∃ w ∈ ws, w.Holds D c') ∧ c.idempotencyKey = c'.idempotencyKey

/-- The recorded commands are written differently if they are different, and SHA-256 has no collision
on them. -/
structure CollisionFree (D : Deps) (ws : List Recorded) : Prop where
  toVec : ∀ w ∈ ws, ∀ w' ∈ ws, ∀ c c', w.Holds D c → w'.Holds D c' →
    D.toVec (canonicalCommand c) = D.toVec (canonicalCommand c') →
      canonicalCommand c = canonicalCommand c'
  sha256 : ∀ w ∈ ws, ∀ w' ∈ ws, ∀ c c', w.Holds D c → w'.Holds D c' →
    D.sha256Hex (D.toVec (canonicalCommand c)) = D.sha256Hex (D.toVec (canonicalCommand c')) →
      D.toVec (canonicalCommand c) = D.toVec (canonicalCommand c')

/-! ### Comparing rows -/

section Rows

variable {D : Deps} {ws : List Recorded}

theorem mem_table {w : Recorded} {r : Ixmati.IdempotencyRow} (h : r ∈ (w.table D).rows) :
    ∃ c, w.Holds D c ∧ ∃ appliedAt, r = IdempotencyTracker.rowOf D appliedAt c := by
  have hfold : ∀ (commands : List (String × WriteEnvelope)) (t : IdempotencyTable),
      r ∈ (commands.foldl (fun t c => IdempotencyTracker.record D c.1 t c.2) t).rows →
      r ∈ t.rows ∨ ∃ c ∈ commands, r = IdempotencyTracker.rowOf D c.1 c.2 := by
    intro commands
    induction commands with
    | nil => exact fun t h => Or.inl h
    | cons c commands ih =>
      intro t h
      rcases ih _ h with h | ⟨c', hc', hr⟩
      · exact (t.mem_insertOrIgnore h).imp_right fun h => ⟨c, List.mem_cons_self, h⟩
      · exact Or.inr ⟨c', List.mem_cons_of_mem _ hc', hr⟩
  rcases hfold w.commands Table.empty h with h' | ⟨c, hc, rfl⟩
  · cases h'
  · exact ⟨c.2, ⟨c.1, hc, h⟩, c.1, rfl⟩

theorem canonicalCommand_inj {c c' : WriteEnvelope} :
    canonicalCommand c = canonicalCommand c' ↔ SameCommand c c' ∧ c.store = c'.store := by
  unfold canonicalCommand SameCommand
  simp only [Json.object.injEq, List.cons.injEq, Prod.mk.injEq, Json.string.injEq, Json.number.injEq,
    Number.posInt.injEq]
  tauto

/-- Two rows agree if they are of the same command for the same store. -/
theorem sameIdempotency_iff (hD : CollisionFree D ws) {w w' : Recorded} (hw : w ∈ ws) (hw' : w' ∈ ws)
    {c c' : WriteEnvelope} (hc : w.Holds D c) (hc' : w'.Holds D c') (appliedAt appliedAt' : String) :
    sameIdempotency (commandOfRow w.name (IdempotencyTracker.rowOf D appliedAt c))
        (commandOfRow w'.name (IdempotencyTracker.rowOf D appliedAt' c')) = true ↔
      SameCommand c c' ∧ c.store = c'.store := by
  unfold sameIdempotency
  rw [decide_eq_true_eq, ← canonicalCommand_inj]
  simp only [commandOfRow, IdempotencyTracker.rowOf, Option.some.injEq]
  constructor
  · rintro ⟨-, -, -, -, hdigest⟩
    exact hD.toVec w hw w' hw' c c' hc hc' (hD.sha256 w hw w' hw' c c' hc hc' hdigest)
  · intro h
    obtain ⟨⟨hop, hentity, hkey, hversion, -, -⟩, -⟩ := canonicalCommand_inj.1 h
    refine ⟨hentity, hkey, ?_, hop, ?_⟩
    · rw [hversion]
    · rw [commandDigest, h, commandDigest]

theorem mem_idempotencyRows {r : IdempotencyRow} :
    r ∈ (ws.map (Recorded.source D)).flatMap Source.idempotencyRows ↔
      ∃ w ∈ ws, ∃ row ∈ (w.table D).rows, r = commandOfRow w.name row := by
  rw [List.flatMap_map, List.mem_flatMap]
  refine exists_congr fun w => and_congr_right fun _ => ?_
  show r ∈ (w.table D).rows.map (commandOfRow w.name) ↔ _
  rw [List.mem_map]
  exact exists_congr fun row => and_congr_right fun _ => eq_comm

/-- All rows with one key agree if colliding commands are the same and for the same store. -/
theorem same_rows_iff (hD : CollisionFree D ws) :
    (∀ a ∈ (ws.map (Recorded.source D)).flatMap Source.idempotencyRows,
      ∀ b ∈ (ws.map (Recorded.source D)).flatMap Source.idempotencyRows,
        a.idempotencyKey = b.idempotencyKey → sameIdempotency a b = true) ↔
      ∀ c c', Collide D ws c c' → SameCommand c c' ∧ c.store = c'.store := by
  constructor
  · rintro h c c' ⟨⟨w, hw, hc⟩, ⟨w', hw', hc'⟩, hkey⟩
    obtain ⟨t, -, hrow⟩ := id hc
    obtain ⟨t', -, hrow'⟩ := id hc'
    rw [← sameIdempotency_iff hD hw hw' hc hc' t t']
    exact h _ (mem_idempotencyRows.2 ⟨w, hw, _, hrow, rfl⟩) _
      (mem_idempotencyRows.2 ⟨w', hw', _, hrow', rfl⟩) hkey
  · intro h a ha b hb hkey
    obtain ⟨w, hw, row, hrow, rfl⟩ := mem_idempotencyRows.1 ha
    obtain ⟨w', hw', row', hrow', rfl⟩ := mem_idempotencyRows.1 hb
    obtain ⟨c, hc, t, rfl⟩ := mem_table hrow
    obtain ⟨c', hc', t', rfl⟩ := mem_table hrow'
    rw [sameIdempotency_iff hD hw hw' hc hc']
    exact h c c' ⟨⟨w, hw, hc⟩, ⟨w', hw', hc'⟩, hkey⟩

end Rows

/-! ### Collecting them -/

/-- One row of each idempotency key is kept, and the others are counted. -/
def Deduplicates (sources : List Source) : Prop :=
  ∃ kept deduplicated, collectIdempotency sources = .ok (kept, deduplicated) ∧
    (kept.map IdempotencyRow.idempotencyKey).Nodup ∧
    (∀ r ∈ sources.flatMap Source.idempotencyRows, r.idempotencyKey ∈ kept.map IdempotencyRow.idempotencyKey) ∧
    kept.length + deduplicated = (sources.flatMap Source.idempotencyRows).length

/-- The collection is given up because of a conflict. -/
def Aborts (sources : List Source) : Prop :=
  ∃ text, collectIdempotency sources = .error (.conflict text)

section Collect

variable {sources : List Source}

theorem collectIdempotency_eq (sources : List Source) :
    collectIdempotency sources =
      (collectFirst IdempotencyRow.idempotencyKey sameIdempotency divergingIdempotency Table.empty 0
        (sources.flatMap Source.idempotencyRows)).map fun p =>
          (sortOn IdempotencyRow.sortKey p.1.values, p.2) := by
  unfold collectIdempotency
  rw [collectM_pure (f := Source.idempotencyRows) (fun _ => rfl)
    (fun acc xs ys => collectFirst_append xs ys) (Table.empty, 0) sources]
  cases collectFirst IdempotencyRow.idempotencyKey sameIdempotency divergingIdempotency Table.empty 0
    (sources.flatMap Source.idempotencyRows) <;> rfl

theorem sameIdempotency_trans {a b c : IdempotencyRow} (hab : sameIdempotency b a = true)
    (hbc : sameIdempotency b c = true) : sameIdempotency a c = true := by
  unfold sameIdempotency at *
  rw [decide_eq_true_eq] at *
  obtain ⟨h₁, h₂, h₃, h₄, h₅⟩ := hab
  rw [← h₁, ← h₂, ← h₃, ← h₄, ← h₅]
  exact hbc

/-- If all rows with one key agree, they are deduplicated. -/
theorem deduplicates_of_same
    (h : ∀ a ∈ sources.flatMap Source.idempotencyRows, ∀ b ∈ sources.flatMap Source.idempotencyRows,
      a.idempotencyKey = b.idempotencyKey → sameIdempotency a b = true) : Deduplicates sources := by
  cases hcollect : collectFirst IdempotencyRow.idempotencyKey sameIdempotency divergingIdempotency
      Table.empty 0 (sources.flatMap Source.idempotencyRows) with
  | error e =>
    obtain ⟨a, b, ha, hb, hkey, hdiffer, -⟩ := collectFirst_error Dict.keyedBy_empty hcollect
    rcases ha with ha | ha
    · cases ha
    · rw [h a ha b hb hkey] at hdiffer
      cases hdiffer
  | ok p =>
    obtain ⟨hfirst, hnodup⟩ := firstOfEach_collectFirst hcollect
    have hperm := perm_sortOn IdempotencyRow.sortKey p.1.values
    refine ⟨_, p.2, by rw [collectIdempotency_eq, hcollect]; rfl, ?_, fun r hr => ?_, ?_⟩
    · exact (hperm.map _).nodup_iff.2 hnodup
    · obtain ⟨x, hx, hkey, -⟩ := hfirst.agrees r hr
      rw [← hkey]
      exact List.mem_map_of_mem (hperm.mem_iff.2 hx)
    · rw [hperm.length_eq, length_collectFirst hcollect]
      exact Nat.zero_add _

/-- If two rows with one key do not agree, the collection is given up. -/
theorem aborts_of_not_same
    (h : ¬ ∀ a ∈ sources.flatMap Source.idempotencyRows, ∀ b ∈ sources.flatMap Source.idempotencyRows,
      a.idempotencyKey = b.idempotencyKey → sameIdempotency a b = true) : Aborts sources := by
  cases hcollect : collectFirst IdempotencyRow.idempotencyKey sameIdempotency divergingIdempotency
      Table.empty 0 (sources.flatMap Source.idempotencyRows) with
  | error e =>
    obtain ⟨a, b, -, -, -, -, rfl⟩ := collectFirst_error Dict.keyedBy_empty hcollect
    exact ⟨_, by rw [collectIdempotency_eq, hcollect]; rfl⟩
  | ok p =>
    refine absurd (fun a ha b hb hkey => ?_) h
    -- Both agree with the row that is kept.
    obtain ⟨x, hx, hax⟩ := same_collectFirst hcollect ha
    obtain ⟨y, hy, hby⟩ := same_collectFirst hcollect hb
    have hself : ∀ r : IdempotencyRow, sameIdempotency r r = true := fun r => by simp [sameIdempotency]
    rw [← hkey, hx] at hy
    obtain rfl := Option.some.inj hy
    have hxa : sameIdempotency x a = true := hax.elim (fun h => h ▸ hself x) id
    have hxb : sameIdempotency x b = true := hby.elim (fun h => h ▸ hself x) id
    exact sameIdempotency_trans hxa hxb

theorem not_deduplicates_of_aborts (h : Aborts sources) : ¬ Deduplicates sources := by
  rintro ⟨_, _, hok, -⟩
  obtain ⟨_, herror⟩ := h
  rw [herror] at hok
  cases hok

end Collect

/-- Colliding commands are deduplicated if they all say the same, and otherwise the collection is given
up. -/
def JudgedByCommand (D : Deps) (ws : List Recorded) : Prop :=
  ((∀ c c', Collide D ws c c' → SameCommand c c') → Deduplicates (ws.map (Recorded.source D))) ∧
  ((∃ c c', Collide D ws c c' ∧ ¬ SameCommand c c') → Aborts (ws.map (Recorded.source D)))

/-- Collisions are judged by the commands if one of them is a real one or all of them are within one
store. -/
theorem judgedByCommand_iff (D : Deps) (ws : List Recorded) (hD : CollisionFree D ws) :
    JudgedByCommand D ws ↔
      (∃ c c', Collide D ws c c' ∧ ¬ SameCommand c c') ∨
      ∀ c c', Collide D ws c c' → c.store = c'.store := by
  by_cases hdiverge : ∃ c c', Collide D ws c c' ∧ ¬ SameCommand c c'
  · refine iff_of_true ⟨fun hsame => ?_, fun _ => aborts_of_not_same fun hrows => ?_⟩ (Or.inl hdiverge)
    · obtain ⟨c, c', hc, hne⟩ := hdiverge
      exact absurd (hsame c c' hc) hne
    · obtain ⟨c, c', hc, hne⟩ := hdiverge
      exact hne ((same_rows_iff hD).1 hrows c c' hc).1
  · have hsame : ∀ c c', Collide D ws c c' → SameCommand c c' := by
      intro c c' hc
      by_contra hne
      exact hdiverge ⟨c, c', hc, hne⟩
    constructor
    · rintro ⟨hdedup, -⟩
      refine Or.inr fun c c' hc => ?_
      by_contra hstore
      refine not_deduplicates_of_aborts (aborts_of_not_same fun hrows => ?_) (hdedup hsame)
      exact hstore ((same_rows_iff hD).1 hrows c c' hc).2
    · intro h
      refine ⟨fun _ => ?_, fun hex => absurd hex hdiverge⟩
      have hstore := h.resolve_left hdiverge
      exact deduplicates_of_same ((same_rows_iff hD).2 fun c c' hc => ⟨hsame c c' hc, hstore c c' hc⟩)

/-! ### One command, two stores -/

/-- An upsert of an order. -/
def orderCommand (store : String) (version : UInt64) : WriteEnvelope where
  op := "upsert"
  store := store
  entity := "pedido"
  key := "p1"
  version := version
  ts := "2026-07-30T00:00:00Z"
  idempotencyKey := "same-key"
  ackMode := "processed"
  payload := .object [("n", .number (.posInt 1))]

/-- Crates that write compact text and know the digests of three commands. -/
def orderDeps : Deps :=
  { Deps.compact [] "" with
    sha256Hex := fun bytes =>
      if bytes = (canonicalCommand (orderCommand "left" 1)).compact.toUTF8.data.toList then
        "8156a57c8384c308d813609884057973ef9c9dd6f63ae9600cc601eb4928da96"
      else if bytes = (canonicalCommand (orderCommand "right" 1)).compact.toUTF8.data.toList then
        "3bb9762d6115ec00fcb94e0c8c57c4018c7b4681c54cfae0da29a6d602cc1c8d"
      else "75276c49f7c4707d1d387c97ebb42800dfa64c9c071b1403804246c70ad2e2d6" }

/-- A store that has recorded the order. -/
def orderStore (store : String) (version : UInt64) : Recorded where
  name := store
  commands := [("2026-07-30 00:00:01", orderCommand store version)]
  rest := ⟨fun _ => none, none, none, none⟩

theorem holds_orderStore {store : String} {version : UInt64} {c : WriteEnvelope} :
    (orderStore store version).Holds orderDeps c ↔ c = orderCommand store version := by
  constructor
  · rintro ⟨appliedAt, hc, -⟩
    exact (Prod.mk.inj (List.mem_singleton.1 hc)).2
  · rintro rfl
    exact ⟨_, List.mem_singleton_self _, List.mem_singleton_self _⟩

theorem collisionFree_orderStores {store store' : String} {version version' : UInt64}
    (htext : (canonicalCommand (orderCommand store version)).compact.toUTF8.data.toList ≠
      (canonicalCommand (orderCommand store' version')).compact.toUTF8.data.toList)
    (hdigest : commandDigest orderDeps (orderCommand store version) ≠
      commandDigest orderDeps (orderCommand store' version')) :
    CollisionFree orderDeps [orderStore store version, orderStore store' version'] := by
  have hcases : ∀ w ∈ [orderStore store version, orderStore store' version'], ∀ c,
      w.Holds orderDeps c → c = orderCommand store version ∨ c = orderCommand store' version' := by
    intro w hw c hc
    simp only [List.mem_cons, List.not_mem_nil, or_false] at hw
    rcases hw with rfl | rfl
    · exact Or.inl (holds_orderStore.1 hc)
    · exact Or.inr (holds_orderStore.1 hc)
  constructor
  · intro w hw w' hw' c c' hc hc' h
    rcases hcases w hw c hc with rfl | rfl <;> rcases hcases w' hw' c' hc' with rfl | rfl
    · rfl
    · exact absurd h htext
    · exact absurd h.symm htext
    · rfl
  · intro w hw w' hw' c c' hc hc' h
    rcases hcases w hw c hc with rfl | rfl <;> rcases hcases w' hw' c' hc' with rfl | rfl
    · rfl
    · exact absurd h hdigest
    · exact absurd h.symm hdigest
    · rfl

theorem collide_orderStores {store store' : String} {version version' : UInt64} :
    Collide orderDeps [orderStore store version, orderStore store' version'] (orderCommand store version)
      (orderCommand store' version') :=
  ⟨⟨_, by simp, holds_orderStore.2 rfl⟩, ⟨_, by simp, holds_orderStore.2 rfl⟩, rfl⟩

/-- Two versions of the order are a real divergence. -/
theorem versions_are_judged : JudgedByCommand orderDeps [orderStore "left" 1, orderStore "right" 2] := by
  have hD : CollisionFree orderDeps [orderStore "left" 1, orderStore "right" 2] :=
    collisionFree_orderStores (by decide +kernel) (by decide +kernel)
  refine (judgedByCommand_iff _ _ hD).2 (Or.inl ⟨_, _, collide_orderStores, fun hsame => ?_⟩)
  exact absurd hsame.2.2.2.1 (by decide)

/-- The same order in two stores is taken for a divergence. -/
theorem copies_are_taken_for_a_divergence :
    CollisionFree orderDeps [orderStore "left" 1, orderStore "right" 1] ∧
    SameCommand (orderCommand "left" 1) (orderCommand "right" 1) ∧
    collectIdempotency ([orderStore "left" 1, orderStore "right" 1].map (Recorded.source orderDeps)) =
      .error (.conflict "idempotency_key same-key diverge entre left y right") ∧
    ¬ JudgedByCommand orderDeps [orderStore "left" 1, orderStore "right" 1] := by
  have hcollect : collectIdempotency
      ([orderStore "left" 1, orderStore "right" 1].map (Recorded.source orderDeps)) =
      .error (.conflict "idempotency_key same-key diverge entre left y right") := by
    decide +kernel
  refine ⟨collisionFree_orderStores (by decide +kernel) (by decide +kernel),
    ⟨rfl, rfl, rfl, rfl, rfl, rfl⟩, hcollect, fun hjudged => ?_⟩
  refine not_deduplicates_of_aborts ⟨_, hcollect⟩ (hjudged.1 fun c c' hc => ?_)
  have hone : ∀ c, (∃ w ∈ [orderStore "left" 1, orderStore "right" 1], w.Holds orderDeps c) →
      ∃ store, c = orderCommand store 1 := by
    rintro c ⟨w, hw, hc⟩
    simp only [List.mem_cons, List.not_mem_nil, or_false] at hw
    rcases hw with rfl | rfl
    · exact ⟨_, holds_orderStore.1 hc⟩
    · exact ⟨_, holds_orderStore.1 hc⟩
  obtain ⟨store, rfl⟩ := hone c hc.1
  obtain ⟨store', rfl⟩ := hone c' hc.2.1
  exact ⟨rfl, rfl, rfl, rfl, rfl, rfl⟩

end Migrate

end Ixmati
