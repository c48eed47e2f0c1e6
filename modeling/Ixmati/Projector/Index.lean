import Ixmati.Projector.Operations

/-!
# The reverse index as a set

As long as there are fewer than `maxDependents` targets in an entry of the reverse index, registering
adds a target to a set.  `Listed` says so of the entries of a projection: after some operations an entry
lists, without repetitions, the targets that the operations have registered in it, and there is no entry
in which none has been registered.
-/

namespace Ixmati

open Cache (Entries)

namespace Projector

variable {D : Deps} {proj : ProjectionConfig} {l all : List Operation} {e : Entries}

/-- The key of an entry of the reverse index of the projection. -/
def OfIndex (proj : ProjectionConfig) (key : String) : Prop :=
  ("ridx:" ++ proj.name ++ ":").toList <+: key.toList

theorem OfIndex.isIndex {key : String} (h : OfIndex proj key) : IsIndex key := by
  obtain ⟨rest, hrest⟩ := h
  rw [IsIndex, ← hrest]
  simp [String.toList_append]

theorem ofIndex_dependencyIndexKey (proj : ProjectionConfig) (store entity key : String) :
    OfIndex proj (dependencyIndexKey proj store entity key) := by
  refine ⟨(store ++ ":" ++ entity ++ ":" ++ key).toList, ?_⟩
  simp [dependencyIndexKey, String.toList_append]

/-- An entry of the reverse index with the given targets. -/
def indexEntry (D : Deps) (targets : List String) : Option Bytes :=
  if targets = [] then none else some (writeStrings D targets)

/-- The entries of the reverse index list the targets that have been registered. -/
def Listed (D : Deps) (proj : ProjectionConfig) (l : List Operation) (e : Entries) : Prop :=
  ∀ index, OfIndex proj index → ∃ targets, e index = indexEntry D targets ∧ targets.Nodup ∧
    ∀ target, target ∈ targets ↔ Operation.register index target ∈ l

/-- Lists of targets that are registered are short, and are read back. -/
structure Manageable (D : Deps) (all : List Operation) : Prop where
  few : ∀ (index : String) (targets : List String), targets.Nodup →
    (∀ t ∈ targets, Operation.register index t ∈ all) → targets.length < maxDependents
  read : ∀ (index : String) (targets : List String), targets.Nodup →
    (∀ t ∈ targets, Operation.register index t ∈ all) → readStrings D (writeStrings D targets) = some targets

/-- Different targets that are all the same are at most one. -/
theorem targets_eq_of_forall {targets : List String} {t : String} (hnd : targets.Nodup)
    (hall : ∀ x ∈ targets, x = t) : targets = [] ∨ targets = [t] := by
  have heq := List.eq_replicate_of_mem hall
  rw [heq] at hnd
  rcases Nat.le_one_iff_eq_zero_or_eq_one.1 (List.nodup_replicate.1 hnd) with hlen | hlen
  · exact Or.inl (List.eq_nil_of_length_eq_zero hlen)
  · rw [hlen] at heq
    exact Or.inr heq

theorem Manageable.mono (h : Manageable D all)
    (hl : ∀ index t, Operation.register index t ∈ l → Operation.register index t ∈ all) :
    Manageable D l :=
  ⟨fun index targets hnd ht => h.few index targets hnd fun t hmem => hl _ _ (ht t hmem),
    fun index targets hnd ht => h.read index targets hnd fun t hmem => hl _ _ (ht t hmem)⟩

theorem targetsIn_indexEntry {targets : List String}
    (h : readStrings D (writeStrings D targets) = some targets) :
    targetsIn D (indexEntry D targets) = targets := by
  unfold indexEntry
  split_ifs with hnil
  · rw [hnil]
    rfl
  · show ((readStrings D (writeStrings D targets)).getD []) = _
    rw [h, Option.getD_some]

/-- What the entries list, as the code reads them. -/
theorem Listed.mem_dependents (h : Listed D proj l e) (hm : Manageable D all)
    (hl : ∀ op ∈ l, op ∈ all) {index target : String} (hindex : OfIndex proj index) :
    target ∈ dependents D e index ↔ Operation.register index target ∈ l := by
  obtain ⟨targets, he, hnd, hmem⟩ := h index hindex
  have hread := hm.read index targets hnd fun t ht => hl _ ((hmem t).1 ht)
  change target ∈ targetsIn D (e index) ↔ _
  rw [he, targetsIn_indexEntry hread, hmem]

theorem Listed.nil (h : ∀ index, OfIndex proj index → e index = none) : Listed D proj [] e :=
  fun index hindex => ⟨[], by rw [h index hindex]; rfl, List.nodup_nil, by simp⟩

/-- One more operation. -/
theorem Listed.append (h : Listed D proj l e) {op : Operation} (hop : op.Keyed)
    (hm : Manageable D all) (hl : ∀ x ∈ l ++ [op], x ∈ all) :
    Listed D proj (l ++ [op]) (op.apply D e) := by
  intro index hindex
  obtain ⟨targets, he, hnd, hmem⟩ := h index hindex
  have hl' : ∀ x ∈ l, x ∈ all := fun x hx => hl x (List.mem_append_left _ hx)
  by_cases hreg : ∃ target, op = .register index target
  · obtain ⟨target, rfl⟩ := hreg
    have hall : ∀ t ∈ targets, Operation.register index t ∈ all :=
      fun t ht => hl' _ ((hmem t).1 ht)
    have hread := targetsIn_indexEntry (hm.read index targets hnd hall)
    rw [apply_register, Function.update_self, he]
    unfold registerIn
    rw [hread]
    by_cases hin : target ∈ targets
    · rw [if_pos hin]
      refine ⟨targets, rfl, hnd, fun t => ?_⟩
      rw [hmem, List.mem_append, List.mem_singleton, Operation.register.injEq]
      refine ⟨Or.inl, fun ht => ht.elim id ?_⟩
      rintro ⟨-, rfl⟩
      exact (hmem t).1 hin
    · rw [if_neg hin, if_neg (Nat.not_le.2 (hm.few index targets hnd hall))]
      refine ⟨targets ++ [target], by simp [indexEntry], ?_, fun t => ?_⟩
      · rw [List.nodup_append]
        refine ⟨hnd, List.nodup_singleton _, fun a ha b hb hab => hin ?_⟩
        rwa [← List.mem_singleton.1 hb, ← hab]
      · rw [List.mem_append, List.mem_append, hmem, List.mem_singleton, List.mem_singleton,
          Operation.register.injEq]
        simp
  · have hne : ∀ target, op ≠ .register index target := fun t ht => hreg ⟨t, ht⟩
    refine ⟨targets, ?_, hnd, fun t => ?_⟩
    · rw [← he]
      exact apply_index hop e hindex.isIndex hne
    · rw [hmem, List.mem_append, List.mem_singleton, or_iff_left (Ne.symm (hne t))]

theorem Listed.foldl (h : Listed D proj l e) {ops : List Operation} (hops : ∀ op ∈ ops, op.Keyed)
    (hm : Manageable D all) (hl : ∀ x ∈ l ++ ops, x ∈ all) :
    Listed D proj (l ++ ops) (ops.foldl (Operation.apply D) e) := by
  induction ops generalizing l e with
  | nil => simpa using h
  | cons op ops ih =>
    have hsplit : l ++ op :: ops = l ++ [op] ++ ops := by simp
    have hone := h.append (hops op (List.mem_cons_self ..)) hm fun x hx => hl x (by
      rw [hsplit]
      exact List.mem_append_left _ hx)
    rw [hsplit] at hl ⊢
    exact ih hone (fun x hx => hops x (List.mem_cons_of_mem _ hx)) hl

end Projector

end Ixmati
