import Mathlib.Data.List.Nodup
import Mathlib.Logic.Function.Basic

/-!
# Tables with a primary key

A `Table pk` is a list of rows in insertion order, no two of which have the same primary key
`pk`.  The uniqueness of the key is a field of the structure, so every operation below has to
re-establish it and no later proof has to ask for it.

* `Table.insertNew` is a plain `INSERT`, which fails on a key that is there;
* `Table.insertOrIgnore` is `INSERT OR IGNORE`;
* `Table.upsertWhere` is `INSERT … ON CONFLICT(pk) DO UPDATE … WHERE`, all other columns being
  replaced by those of the excluded row;
* `Table.deleteWhere` is `DELETE … WHERE`;
* `Table.find?` is the lookup by primary key, and each operation is characterised by what it
  does to every lookup.

A `Dict` is a table of pairs, the model of a `HashMap`.
-/

namespace Ixmati

/-- Rows with a unique primary key, in insertion order. -/
@[ext] structure Table {ρ κ : Type*} (pk : ρ → κ) where
  /-- The rows. -/
  rows : List ρ
  /-- The primary key is unique. -/
  nodup : (rows.map pk).Nodup

namespace Table

variable {ρ κ : Type*} {pk : ρ → κ}

/-- The table just after `CREATE TABLE`. -/
def empty : Table pk := ⟨[], List.nodup_nil⟩

theorem eq_of_pk_eq (t : Table pk) {r r' : ρ} (h : r ∈ t.rows) (h' : r' ∈ t.rows)
    (hk : pk r = pk r') : r = r' :=
  List.inj_on_of_nodup_map t.nodup h h' hk

theorem nodup_append (t : Table pk) {r : ρ} (h : pk r ∉ t.rows.map pk) :
    ((t.rows ++ [r]).map pk).Nodup := by
  rw [List.map_append, List.map_singleton, List.nodup_append]
  refine ⟨t.nodup, List.nodup_singleton _, fun a ha b hb hab => h ?_⟩
  rw [List.mem_singleton] at hb
  rwa [hab, hb] at ha

variable [DecidableEq κ] (t : Table pk)

/-- The row with primary key `k`. -/
def find? (k : κ) : Option ρ := t.rows.find? fun r => decide (pk r = k)

theorem map_pk_replace (r : ρ) (upd : ρ → Bool) :
    (t.rows.map fun x => if pk x = pk r ∧ upd x = true then r else x).map pk = t.rows.map pk := by
  rw [List.map_map]
  refine List.map_congr_left fun x _ => ?_
  simp only [Function.comp_apply]
  split_ifs with hx
  · exact hx.1.symm
  · rfl

/-- `INSERT`, which fails if the key is there. -/
def insertNew (r : ρ) : Option (Table pk) :=
  if h : pk r ∈ t.rows.map pk then none else some ⟨t.rows ++ [r], t.nodup_append h⟩

/-- `INSERT OR IGNORE`. -/
def insertOrIgnore (r : ρ) : Table pk :=
  if h : pk r ∈ t.rows.map pk then t else ⟨t.rows ++ [r], t.nodup_append h⟩

/-- `INSERT … ON CONFLICT(pk) DO UPDATE SET … = excluded.… WHERE upd`, where `upd` is evaluated
on the row already there. -/
def upsertWhere (upd : ρ → Bool) (r : ρ) : Table pk :=
  if h : pk r ∈ t.rows.map pk then
    ⟨t.rows.map fun x => if pk x = pk r ∧ upd x = true then r else x,
      by rw [t.map_pk_replace r upd]; exact t.nodup⟩
  else ⟨t.rows ++ [r], t.nodup_append h⟩

/-- `INSERT … ON CONFLICT(pk) DO UPDATE SET … = excluded.…`. -/
def upsert (r : ρ) : Table pk := t.upsertWhere (fun _ => true) r

/-- `DELETE … WHERE p`. -/
def deleteWhere (p : ρ → Bool) : Table pk :=
  ⟨t.rows.filter fun r => !p r, (List.filter_sublist.map pk).nodup t.nodup⟩

/-! ### Lookups -/

@[simp] theorem find?_empty (k : κ) : (empty : Table pk).find? k = none := rfl

theorem find?_eq_some {k : κ} {r : ρ} : t.find? k = some r ↔ r ∈ t.rows ∧ pk r = k := by
  constructor
  · intro h
    exact ⟨List.mem_of_find?_eq_some h, by simpa using List.find?_some h⟩
  · rintro ⟨hr, rfl⟩
    cases hf : t.find? (pk r) with
    | none =>
      have := List.find?_eq_none.1 hf r hr
      simp at this
    | some r' =>
      have hk : pk r' = pk r := by simpa using List.find?_some hf
      rw [t.eq_of_pk_eq (List.mem_of_find?_eq_some hf) hr hk]

theorem find?_eq_none {k : κ} : t.find? k = none ↔ ∀ r ∈ t.rows, pk r ≠ k := by
  simp [find?, List.find?_eq_none]

theorem pk_mem_iff {k : κ} : k ∈ t.rows.map pk ↔ (t.find? k).isSome = true := by
  rw [Option.isSome_iff_exists]
  simp only [List.mem_map, find?_eq_some]

theorem insertNew_eq_some {r : ρ} {t' : Table pk} (h : t.insertNew r = some t') :
    t'.rows = t.rows ++ [r] := by
  unfold insertNew at h
  split_ifs at h
  rw [← Option.some.inj h]

theorem exists_insertNew {r : ρ} (h : pk r ∉ t.rows.map pk) : ∃ t', t.insertNew r = some t' :=
  ⟨_, dif_neg h⟩

theorem mem_insertOrIgnore {r x : ρ} (h : x ∈ (t.insertOrIgnore r).rows) : x ∈ t.rows ∨ x = r := by
  unfold insertOrIgnore at h
  split_ifs at h
  · exact Or.inl h
  · rcases List.mem_append.1 h with h | h
    · exact Or.inl h
    · exact Or.inr (List.mem_singleton.1 h)

theorem rows_insertOrIgnore {r : ρ} (h : t.find? (pk r) = none) :
    (t.insertOrIgnore r).rows = t.rows ++ [r] := by
  have hk : pk r ∉ t.rows.map pk := by rw [pk_mem_iff, h]; simp
  rw [insertOrIgnore, dif_neg hk]

theorem find?_upsertWhere (upd : ρ → Bool) (r : ρ) (k : κ) :
    (t.upsertWhere upd r).find? k =
      if k = pk r then some (((t.find? k).filter fun x => !upd x).getD r) else t.find? k := by
  unfold upsertWhere
  split_ifs with hmem hk hk
  · -- the key is there: its row is replaced exactly when `upd` accepts it
    subst hk
    obtain ⟨x, hx⟩ := Option.isSome_iff_exists.1 (t.pk_mem_iff.1 hmem)
    obtain ⟨hxr, hxk⟩ := t.find?_eq_some.1 hx
    rw [hx, find?_eq_some]
    cases hu : upd x with
    | true =>
      have hf : ((some x).filter fun x => !upd x).getD r = r := by simp [Option.filter, hu]
      rw [hf]
      exact ⟨List.mem_map.2 ⟨x, hxr, by simp [hxk, hu]⟩, rfl⟩
    | false =>
      have hf : ((some x).filter fun x => !upd x).getD r = x := by simp [Option.filter, hu]
      rw [hf]
      exact ⟨List.mem_map.2 ⟨x, hxr, by simp [hu]⟩, hxk⟩
  · ext x
    rw [find?_eq_some, find?_eq_some]
    simp only [List.mem_map]
    constructor
    · rintro ⟨⟨y, hy, rfl⟩, hyk⟩
      split_ifs at hyk ⊢ with hc
      · exact absurd hyk.symm hk
      · exact ⟨hy, hyk⟩
    · rintro ⟨hx, rfl⟩
      exact ⟨⟨x, hx, by simp [hk]⟩, rfl⟩
  · subst hk
    have hn : t.find? (pk r) = none := by
      rw [pk_mem_iff] at hmem; simpa using hmem
    rw [hn, find?_eq_some]
    exact ⟨by simp, rfl⟩
  · ext x
    rw [find?_eq_some, find?_eq_some]
    simp only [List.mem_append, List.mem_singleton]
    constructor
    · rintro ⟨hx | rfl, hxk⟩
      · exact ⟨hx, hxk⟩
      · exact absurd hxk.symm hk
    · rintro ⟨hx, hxk⟩
      exact ⟨Or.inl hx, hxk⟩

@[simp] theorem find?_upsert (r : ρ) (k : κ) :
    (t.upsert r).find? k = if k = pk r then some r else t.find? k := by
  rw [upsert, find?_upsertWhere]
  cases t.find? k <;> simp [Option.filter]

@[simp] theorem find?_deleteWhere (p : ρ → Bool) (k : κ) :
    (t.deleteWhere p).find? k = (t.find? k).filter fun r => !p r := by
  ext r
  rw [Option.filter_eq_some_iff, find?_eq_some, find?_eq_some]
  simp only [deleteWhere, List.mem_filter]
  tauto

/-! ### Tables up to some columns

`f` blanks out the columns that are left out of the comparison; the primary key and the conditions of
the statements are not among them. -/

variable {t} {t' : Table pk} {f : ρ → ρ}

omit [DecidableEq κ] in
theorem map_pk_congr (hf : ∀ r, pk (f r) = pk r) (h : t.rows.map f = t'.rows.map f) :
    t.rows.map pk = t'.rows.map pk := by
  have hpk : ∀ l : List ρ, (l.map f).map pk = l.map pk := fun l => by
    rw [List.map_map]
    exact List.map_congr_left fun r _ => hf r
  rw [← hpk, h, hpk]

theorem map_rows_upsertWhere (hf : ∀ r, pk (f r) = pk r) (h : t.rows.map f = t'.rows.map f)
    {r r' : ρ} (hr : f r = f r') {upd : ρ → Bool} (hupd : ∀ r, upd (f r) = upd r) :
    (t.upsertWhere upd r).rows.map f = (t'.upsertWhere upd r').rows.map f := by
  have hk : pk r = pk r' := by rw [← hf r, hr, hf r']
  have hmem : pk r ∈ t.rows.map pk ↔ pk r' ∈ t'.rows.map pk := by rw [map_pk_congr hf h, hk]
  -- replacing rows and blanking them out can be done in either order
  have hreplace : ∀ (t : Table pk) (r : ρ),
      (t.rows.map fun x => if pk x = pk r ∧ upd x = true then r else x).map f =
        (t.rows.map f).map fun y => if pk y = pk r ∧ upd y = true then f r else y := by
    intro t r
    rw [List.map_map, List.map_map]
    refine List.map_congr_left fun x _ => ?_
    simp only [Function.comp_apply, hf, hupd]
    split_ifs <;> rfl
  unfold upsertWhere
  by_cases hin : pk r ∈ t.rows.map pk
  · rw [dif_pos hin, dif_pos (hmem.1 hin), hreplace, hreplace, h, hk, hr]
  · rw [dif_neg hin, dif_neg fun h' => hin (hmem.2 h')]
    simp only [List.map_append, List.map_cons, List.map_nil, h, hr]

omit [DecidableEq κ] in
theorem map_rows_deleteWhere (h : t.rows.map f = t'.rows.map f) {p : ρ → Bool}
    (hp : ∀ r, p (f r) = p r) : (t.deleteWhere p).rows.map f = (t'.deleteWhere p).rows.map f := by
  have hfilter : ∀ t : Table pk, (t.deleteWhere p).rows.map f =
      (t.rows.map f).filter fun r => !p r := by
    intro t
    rw [List.filter_map]
    simp only [deleteWhere, Function.comp_def, hp]
  rw [hfilter, hfilter, h]

end Table

/-! ### Maps -/

/-- A `HashMap`: pairs with distinct first components. -/
abbrev Dict (κ ν : Type) := Table (Prod.fst : κ × ν → κ)

namespace Dict

variable {κ ν : Type} [DecidableEq κ]

/-- `HashMap::get`. -/
def get (t : Dict κ ν) (k : κ) : Option ν := (t.find? k).map Prod.snd

/-- `HashMap::insert`. -/
def insert (t : Dict κ ν) (k : κ) (v : ν) : Dict κ ν := t.upsert (k, v)

/-- `HashMap::remove`, without the value removed. -/
def remove (t : Dict κ ν) (k : κ) : Dict κ ν := t.deleteWhere fun p => decide (p.1 = k)

theorem get_insert (t : Dict κ ν) (k : κ) (v : ν) :
    get (insert t k v) = Function.update (get t) k (some v) := by
  funext j
  unfold get insert
  rw [Table.find?_upsert, Function.update_apply]
  split_ifs <;> rfl

theorem get_deleteWhere (t : Dict κ ν) (p : κ → Bool) (k : κ) :
    get (t.deleteWhere fun q => p q.1) k = if p k = true then none else get t k := by
  unfold get
  rw [Table.find?_deleteWhere]
  cases hf : t.find? k with
  | none => simp
  | some q =>
    have hq : q.1 = k := (t.find?_eq_some.1 hf).2
    by_cases hp : p k = true
    · simp [Option.filter, hq, hp]
    · simp [Option.filter, hq, hp]

theorem get_remove (t : Dict κ ν) (k : κ) : get (remove t k) = Function.update (get t) k none := by
  funext j
  rw [remove, get_deleteWhere t fun i => decide (i = k), Function.update_apply]
  simp only [decide_eq_true_eq]

/-- `HashMap::iter_mut`: every value is replaced. -/
def modify (t : Dict κ ν) (f : κ → ν → ν) : Dict κ ν where
  rows := t.rows.map fun p => (p.1, f p.1 p.2)
  nodup := by
    rw [List.map_map]
    exact t.nodup

theorem get_modify (t : Dict κ ν) (f : κ → ν → ν) (k : κ) :
    get (modify t f) k = (get t k).map (f k) := by
  unfold get Table.find? modify
  rw [List.find?_map]
  show Option.map Prod.snd (Option.map _ (t.rows.find? fun p => decide (p.1 = k))) = _
  cases hf : t.rows.find? fun p => decide (p.1 = k) with
  | none => rfl
  | some p =>
    have hk : p.1 = k := by simpa using List.find?_some hf
    simp [hk]

end Dict

end Ixmati
