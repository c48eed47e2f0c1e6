import Ixmati.Lib.Table
import Mathlib.Algebra.GroupWithZero.Nat
import Mathlib.Data.Finset.Card
import Mathlib.Data.List.Induction
import Mathlib.Data.List.Sort

/-!
# Collecting rows by key

What a program does that gathers rows from several places in a hash map and then sorts them: the map
lists its values in no particular order, so what comes out is known by its members and the sort key.

* `sortOn` : sorting by a key; `eq_of_sorted` : a list sorted by a key that no two members share is
  known by its members; `card_filter_lt` : so is the place of each member;
* `Dict.ofPairs` : pairs collected to a map; `Dict.get_ofPairs` : the last one of each key stays;
* `collectFirst` : of the rows with one key the first is kept, and another one has to agree with it;
* `mergeBest` : of the rows with one key the best is kept; `best_first`, `best_flatMap_perm` : the first
  one of the highest rank, in whatever order the places come;
* `collectM` : rows are read place by place; `collectM_ok` : as if they were read at once;
* `routeM` : each row is given to the part that it is routed to; `routeM_ok_iff` : each part gets its
  rows, in their order;
* `foldlM_ok`, `exists_foldlM` : rows inserted one by one, where an insert may fail; `routeM_ok`,
  `exists_routeM` : the same for the parts.
-/

namespace Ixmati

/-! ### Sorting -/

section Sorting

variable {α κ ι : Type} [LinearOrder κ] [LinearOrder ι]

/-- Sort by a key. -/
def sortOn (key : α → κ) (l : List α) : List α := l.insertionSort fun a b => key a ≤ key b

theorem mem_sortOn {key : α → κ} {l : List α} {x : α} : x ∈ sortOn key l ↔ x ∈ l :=
  List.mem_insertionSort _

theorem perm_sortOn (key : α → κ) (l : List α) : (sortOn key l).Perm l := List.perm_insertionSort _ l

/-- Rows that are told apart by the first part of the sort key are sorted strictly by it. -/
theorem pairwise_sortOn {key : α → κ} {name : α → ι} (hmono : ∀ a b, key a ≤ key b → name a ≤ name b)
    {l : List α} (hnodup : (l.map name).Nodup) :
    (sortOn key l).Pairwise fun a b => name a < name b := by
  have : Std.Total fun a b : α => key a ≤ key b := ⟨fun a b => le_total (key a) (key b)⟩
  have : IsTrans α fun a b : α => key a ≤ key b := ⟨fun _ _ _ => le_trans⟩
  have hsorted : (sortOn key l).Pairwise fun a b => key a ≤ key b := List.pairwise_insertionSort _ l
  have hne : (sortOn key l).Pairwise fun a b => name a ≠ name b := by
    rw [← List.pairwise_map (f := name) (R := fun a b => a ≠ b)]
    exact ((perm_sortOn key l).map name).nodup_iff.2 hnodup
  exact (hsorted.and hne).imp fun {a b} h => lt_of_le_of_ne (hmono a b h.1) h.2

theorem eq_of_sorted {name : α → ι} {l l' : List α} (h : l.Pairwise fun a b => name a < name b)
    (h' : l'.Pairwise fun a b => name a < name b) (hmem : ∀ x, x ∈ l ↔ x ∈ l') : l = l' := by
  have hnodup : ∀ {l : List α}, (l.Pairwise fun a b => name a < name b) → l.Nodup := by
    intro l hl
    refine List.Pairwise.imp (fun {a b} hlt heq => ?_) hl
    rw [heq] at hlt
    exact lt_irrefl _ hlt
  refine List.Perm.eq_of_pairwise (fun a b _ _ hab hba => absurd hab (lt_asymm hba)) h h' ?_
  rw [List.perm_ext_iff_of_nodup (hnodup h) (hnodup h')]
  exact hmem

/-- The place of a member of a sorted list is the number of members below it. -/
theorem card_filter_lt {l : List κ} (h : l.Pairwise (· < ·)) {j : ℕ} {x : κ} (hx : l[j]? = some x) :
    (l.toFinset.filter (· < x)).card = j := by
  obtain ⟨hj, hget⟩ := List.getElem?_eq_some_iff.1 hx
  have hnodup : l.Nodup := h.imp fun hlt => ne_of_lt hlt
  have hbelow : l.toFinset.filter (· < x) = (l.take j).toFinset := by
    ext y
    rw [Finset.mem_filter, List.mem_toFinset, List.mem_toFinset, List.mem_take_iff_getElem,
      List.mem_iff_getElem]
    constructor
    · rintro ⟨⟨i, hi, rfl⟩, hlt⟩
      refine ⟨i, lt_min (lt_of_not_ge fun hle => ?_) hi, rfl⟩
      rcases Nat.eq_or_lt_of_le hle with rfl | hji
      · exact absurd hlt (hget ▸ lt_irrefl _)
      · exact absurd hlt (hget ▸ lt_asymm (List.pairwise_iff_getElem.1 h j i hj hi hji))
    · rintro ⟨i, hi, rfl⟩
      have hij : i < j := lt_of_lt_of_le hi (min_le_left _ _)
      exact ⟨⟨i, hij.trans hj, rfl⟩, hget ▸ List.pairwise_iff_getElem.1 h i j _ hj hij⟩
  rw [hbelow, List.toFinset_card_of_nodup ((List.take_sublist j l).nodup hnodup), List.length_take]
  omega

end Sorting

/-! ### Maps of rows -/

namespace Dict

variable {κ ν : Type} [DecidableEq κ]

/-- `HashMap::into_values`, in the order of insertion. -/
def values (d : Dict κ ν) : List ν := d.rows.map Prod.snd

/-- `HashMap::keys`, in the order of insertion. -/
def keys (d : Dict κ ν) : List κ := d.rows.map Prod.fst

/-- Each row is under its own key. -/
def KeyedBy (key : ν → κ) (d : Dict κ ν) : Prop := ∀ p ∈ d.rows, key p.2 = p.1

variable {key : ν → κ} {d : Dict κ ν}

omit [DecidableEq κ] in
theorem keyedBy_empty : KeyedBy key Table.empty := fun _ hp => nomatch hp

omit [DecidableEq κ] in
theorem KeyedBy.map_values (h : KeyedBy key d) : d.values.map key = d.rows.map Prod.fst := by
  rw [values, List.map_map]
  exact List.map_congr_left fun p hp => h p hp

omit [DecidableEq κ] in
/-- The values are told apart by their keys. -/
theorem KeyedBy.nodup (h : KeyedBy key d) : (d.values.map key).Nodup := h.map_values ▸ d.nodup

theorem get_eq_some {k : κ} {v : ν} : d.get k = some v ↔ (k, v) ∈ d.rows := by
  unfold get
  rw [Option.map_eq_some_iff]
  constructor
  · rintro ⟨p, hp, rfl⟩
    obtain ⟨hmem, rfl⟩ := d.find?_eq_some.1 hp
    exact hmem
  · intro hmem
    exact ⟨(k, v), d.find?_eq_some.2 ⟨hmem, rfl⟩, rfl⟩

theorem mem_keys {k : κ} : k ∈ d.keys ↔ (d.get k).isSome = true := by
  rw [get, Option.isSome_map]
  exact d.pk_mem_iff

theorem mem_keys_insert {j k : κ} {v : ν} : j ∈ (d.insert k v).keys ↔ j = k ∨ j ∈ d.keys := by
  rw [mem_keys, mem_keys, get_insert, Function.update_apply]
  split_ifs with hj
  · simp [hj]
  · simp [hj]

theorem mem_keys_remove {j k : κ} : j ∈ (d.remove k).keys ↔ j ∈ d.keys ∧ j ≠ k := by
  rw [mem_keys, mem_keys, get_remove, Function.update_apply]
  split_ifs with hj
  · simp [hj]
  · simp [hj]

theorem KeyedBy.insert (h : KeyedBy key d) (v : ν) : KeyedBy key (d.insert (key v) v) := by
  rintro ⟨k, w⟩ hmem
  have hget := get_eq_some.2 hmem
  rw [get_insert, Function.update_apply] at hget
  split_ifs at hget with hk
  · rw [hk, ← Option.some.inj hget]
  · exact h _ (get_eq_some.1 hget)

theorem KeyedBy.mem_values (h : KeyedBy key d) {v : ν} : v ∈ d.values ↔ d.get (key v) = some v := by
  rw [get_eq_some, values, List.mem_map]
  constructor
  · rintro ⟨p, hp, rfl⟩
    rw [h p hp]
    exact hp
  · intro hmem
    exact ⟨_, hmem, rfl⟩

/-- The rows that come after a new row with another key stay new. -/
theorem get_insert_of_new {r v : ν} {rows : List ν} (hr : key r ∉ rows.map key)
    (hnew : ∀ x ∈ r :: rows, d.get (key x) = none) :
    ∀ x ∈ rows, (d.insert (key r) v).get (key x) = none := by
  intro x hx
  have hne : key x ≠ key r := fun heq => hr (heq ▸ List.mem_map_of_mem hx)
  rw [get_insert, Function.update_of_ne hne]
  exact hnew x (List.mem_cons_of_mem _ hx)

theorem values_insert {v : ν} {k : κ} (h : d.get k = none) :
    (d.insert k v).values = d.values ++ [v] := by
  have hk : k ∉ d.rows.map Prod.fst := by
    intro hmem
    obtain ⟨p, hp, rfl⟩ := List.mem_map.1 hmem
    rw [get_eq_some.2 hp] at h
    cases h
  unfold values insert Table.upsert Table.upsertWhere
  rw [dif_neg hk, List.map_append]
  rfl

theorem sum_replace {k : κ} {n v : ℕ} {l : List (κ × ℕ)} (hnodup : (l.map Prod.fst).Nodup)
    (hmem : (k, n) ∈ l) :
    ((l.map fun p => if p.1 = k then (k, v) else p).map Prod.snd).sum + n = (l.map Prod.snd).sum + v := by
  induction l with
  | nil => cases hmem
  | cons p l ih =>
    obtain ⟨hp, hnodup⟩ := List.nodup_cons.1 hnodup
    simp only [List.map_cons, List.sum_cons]
    rcases List.mem_cons.1 hmem with rfl | hmem
    · have hstay : (l.map fun p => if p.1 = k then (k, v) else p) = l := by
        conv_rhs => rw [← List.map_id l]
        refine List.map_congr_left fun q hq => if_neg fun hqk => hp ?_
        exact List.mem_map.2 ⟨q, hq, hqk⟩
      rw [hstay, if_pos rfl]
      omega
    · have hne : p.1 ≠ k := fun hpk => hp (hpk ▸ List.mem_map_of_mem (f := Prod.fst) hmem)
      have := ih hnodup hmem
      rw [if_neg hne]
      omega

/-- One more for a key is one more in all. -/
theorem sum_values_insert (d : Dict κ ℕ) (k : κ) :
    (d.insert k ((d.get k).getD 0 + 1)).values.sum = d.values.sum + 1 := by
  cases hget : d.get k with
  | none =>
    rw [values_insert hget, List.sum_append]
    rfl
  | some n =>
    have hmem := get_eq_some.1 hget
    have hrows : (d.insert k (n + 1)).rows = d.rows.map fun p => if p.1 = k then (k, n + 1) else p := by
      unfold insert Table.upsert Table.upsertWhere
      rw [dif_pos (List.mem_map_of_mem (f := Prod.fst) hmem)]
      simp only [and_true]
    have hsum := sum_replace (v := n + 1) d.nodup hmem
    unfold values
    rw [Option.getD_some, hrows]
    omega

theorem perm_values_remove {k : κ} {v : ν} (h : d.get k = some v) :
    (v :: (d.remove k).values).Perm d.values := by
  obtain ⟨front, back, hsplit⟩ := List.append_of_mem (get_eq_some.1 h)
  have hnodup := d.nodup
  rw [hsplit, List.map_append, List.map_cons, List.nodup_middle, List.nodup_cons, ← List.map_append]
    at hnodup
  have hother : (front ++ back).filter (fun p => !decide (p.1 = k)) = front ++ back := by
    rw [List.filter_eq_self]
    intro p hp
    have hne : p.1 ≠ k := by
      intro heq
      exact hnodup.1 (List.mem_map.2 ⟨p, hp, heq⟩)
    simp [hne]
  have hremoved : (d.remove k).values = (front ++ back).map Prod.snd := by
    rw [← hother]
    show (d.rows.filter fun p => !decide (p.1 = k)).map Prod.snd = _
    rw [hsplit, List.filter_append, List.filter_append, List.filter_cons_of_neg (by simp)]
  rw [hremoved, values, hsplit, List.map_append, List.map_append, List.map_cons]
  exact List.perm_middle.symm

/-- `collect` of pairs: of the pairs with one key the last one stays. -/
def ofPairs (pairs : List (κ × ν)) : Dict κ ν := pairs.foldl (fun d p => d.insert p.1 p.2) Table.empty

theorem get_ofPairs (pairs : List (κ × ν)) (k : κ) :
    (ofPairs pairs).get k = ((pairs.filter fun p => p.1 = k).map Prod.snd).getLast? := by
  induction pairs using List.reverseRecOn with
  | nil => rfl
  | append_singleton pairs p ih =>
    have hlast : ofPairs (pairs ++ [p]) = (ofPairs pairs).insert p.1 p.2 := by
      rw [ofPairs, List.foldl_append]
      rfl
    rw [hlast, get_insert, Function.update_apply, List.filter_append, List.map_append]
    by_cases hk : p.1 = k
    · rw [if_pos hk.symm, List.filter_cons_of_pos (by simpa using hk), List.filter_nil,
        List.map_singleton, List.getLast?_concat]
    · rw [if_neg (Ne.symm hk), ih, List.filter_cons_of_neg (by simpa using hk), List.filter_nil,
        List.map_nil, List.append_nil]

end Dict

/-! ### The first row of each key -/

section First

variable {α κ ε : Type} [DecidableEq κ]

/-- Keep the first row of each key and count the others, which have to be the `same`. -/
def collectFirst (key : α → κ) (same : α → α → Bool) (diverges : α → α → ε) :
    Dict κ α → ℕ → List α → Except ε (Dict κ α × ℕ)
  | d, n, [] => .ok (d, n)
  | d, n, r :: rows =>
    match d.get (key r) with
    | some existing =>
      if same existing r then collectFirst key same diverges d (n + 1) rows
      else .error (diverges existing r)
    | none => collectFirst key same diverges (d.insert (key r) r) n rows

variable {key : α → κ} {same : α → α → Bool} {diverges : α → α → ε} {d d' : Dict κ α} {n n' : ℕ}
  {rows : List α}

/-- What is there stays, and a key that is not there gets its first row. -/
theorem get_collectFirst (h : collectFirst key same diverges d n rows = .ok (d', n')) (k : κ) :
    d'.get k = (d.get k).or (rows.find? fun r => decide (key r = k)) := by
  induction rows generalizing d n with
  | nil =>
    cases h
    simp
  | cons r rows ih =>
    unfold collectFirst at h
    rw [List.find?_cons]
    split at h
    · rename_i existing hget
      split_ifs at h
      rw [ih h]
      by_cases hk : key r = k
      · subst hk
        simp [hget]
      · simp [hk]
    · rename_i hget
      rw [ih h, Dict.get_insert, Function.update_apply]
      by_cases hk : key r = k
      · subst hk
        simp [hget]
      · rw [if_neg (Ne.symm hk)]
        simp [hk]

theorem keyedBy_collectFirst (h : collectFirst key same diverges d n rows = .ok (d', n'))
    (hd : d.KeyedBy key) : d'.KeyedBy key := by
  induction rows generalizing d n with
  | nil =>
    cases h
    exact hd
  | cons r rows ih =>
    unfold collectFirst at h
    split at h
    · split_ifs at h
      exact ih h hd
    · exact ih h (hd.insert r)

/-- Every row is kept or agrees with the one that is. -/
theorem same_collectFirst (h : collectFirst key same diverges d n rows = .ok (d', n')) {r : α}
    (hr : r ∈ rows) : ∃ x, d'.get (key r) = some x ∧ (x = r ∨ same x r = true) := by
  induction rows generalizing d n with
  | nil => cases hr
  | cons s rows ih =>
    unfold collectFirst at h
    split at h
    · rename_i existing hget
      split_ifs at h with hsame
      rcases List.mem_cons.1 hr with rfl | hr
      · refine ⟨existing, ?_, Or.inr hsame⟩
        rw [get_collectFirst h, hget]
        rfl
      · exact ih h hr
    · rcases List.mem_cons.1 hr with rfl | hr
      · refine ⟨r, ?_, Or.inl rfl⟩
        rw [get_collectFirst h, Dict.get_insert, Function.update_self]
        rfl
      · exact ih h hr

theorem collectFirst_append (rows rows' : List α) :
    collectFirst key same diverges d n (rows ++ rows') =
      (collectFirst key same diverges d n rows).bind fun p =>
        collectFirst key same diverges p.1 p.2 rows' := by
  induction rows generalizing d n with
  | nil => rfl
  | cons r rows ih =>
    rw [List.cons_append, collectFirst, collectFirst]
    split
    · split_ifs
      · exact ih
      · rfl
    · exact ih

/-- Of the rows with one key the first is kept, and the others are the `same`. -/
structure FirstOfEach (key : α → κ) (same : α → α → Bool) (rows kept : List α) : Prop where
  mem : ∀ x, x ∈ kept ↔ (rows.find? fun r => decide (key r = key x)) = some x
  agrees : ∀ r ∈ rows, ∃ x ∈ kept, key x = key r ∧ (x = r ∨ same x r = true)

theorem FirstOfEach.mem_rows {kept : List α} (h : FirstOfEach key same rows kept) {x : α}
    (hx : x ∈ kept) : x ∈ rows :=
  List.mem_of_find?_eq_some ((h.mem x).1 hx)

theorem FirstOfEach.of_mem_iff {kept kept' : List α} (h : FirstOfEach key same rows kept)
    (hmem : ∀ x, x ∈ kept' ↔ x ∈ kept) : FirstOfEach key same rows kept' where
  mem x := (hmem x).trans (h.mem x)
  agrees r hr := by
    obtain ⟨x, hx, hrest⟩ := h.agrees r hr
    exact ⟨x, (hmem x).2 hx, hrest⟩

theorem firstOfEach_collectFirst (h : collectFirst key same diverges Table.empty n rows = .ok (d', n')) :
    FirstOfEach key same rows d'.values ∧ (d'.values.map key).Nodup := by
  have hkeyed := keyedBy_collectFirst h Dict.keyedBy_empty
  refine ⟨⟨fun x => ?_, fun r hr => ?_⟩, hkeyed.nodup⟩
  · rw [hkeyed.mem_values, get_collectFirst h]
    rfl
  · obtain ⟨x, hget, hsame⟩ := same_collectFirst h hr
    have hkey : key x = key r := hkeyed _ (Dict.get_eq_some.1 hget)
    exact ⟨x, hkeyed.mem_values.2 (hkey ▸ hget), hkey, hsame⟩

/-- Every row is kept or counted. -/
theorem length_collectFirst (h : collectFirst key same diverges d n rows = .ok (d', n')) :
    d'.values.length + n' = d.values.length + n + rows.length := by
  induction rows generalizing d n with
  | nil =>
    cases h
    rfl
  | cons r rows ih =>
    unfold collectFirst at h
    rw [List.length_cons]
    split at h
    · split_ifs at h
      have := ih h
      omega
    · rename_i hget
      have := ih h
      rw [Dict.values_insert hget, List.length_append, List.length_singleton] at this
      omega

/-- The collection ends early only because of a row that is not the `same` as the one before it. -/
theorem collectFirst_error {e : ε} (hd : d.KeyedBy key)
    (h : collectFirst key same diverges d n rows = .error e) :
    ∃ a b, (a ∈ d.values ∨ a ∈ rows) ∧ b ∈ rows ∧ key a = key b ∧ same a b = false ∧
      e = diverges a b := by
  induction rows generalizing d n with
  | nil => cases h
  | cons r rows ih =>
    unfold collectFirst at h
    split at h
    · rename_i existing hget
      have hmem := Dict.get_eq_some.1 hget
      split_ifs at h with hsame
      · obtain ⟨a, b, ha, hb, hrest⟩ := ih hd h
        exact ⟨a, b, ha.imp_right (List.mem_cons_of_mem _), List.mem_cons_of_mem _ hb, hrest⟩
      · exact ⟨existing, r, Or.inl (List.mem_map_of_mem hmem), List.mem_cons_self, hd _ hmem,
          Bool.eq_false_iff.2 hsame, (Except.error.inj h).symm⟩
    · rename_i hget
      obtain ⟨a, b, ha, hb, hrest⟩ := ih (hd.insert r) h
      refine ⟨a, b, ?_, List.mem_cons_of_mem _ hb, hrest⟩
      rw [Dict.values_insert hget, List.mem_append, List.mem_singleton] at ha
      rcases ha with (ha | rfl) | ha
      · exact Or.inl ha
      · exact Or.inr List.mem_cons_self
      · exact Or.inr (List.mem_cons_of_mem _ ha)

/-- Rows with distinct keys are all kept. -/
theorem collectFirst_of_nodup (hnodup : (rows.map key).Nodup)
    (hnew : ∀ r ∈ rows, d.get (key r) = none) :
    ∃ d', collectFirst key same diverges d n rows = .ok (d', n) ∧ d'.values = d.values ++ rows := by
  induction rows generalizing d with
  | nil => exact ⟨d, rfl, (List.append_nil _).symm⟩
  | cons r rows ih =>
    obtain ⟨hr, hnodup⟩ := List.nodup_cons.1 hnodup
    have hget := hnew r List.mem_cons_self
    obtain ⟨d', hok, hvalues⟩ := ih hnodup (Dict.get_insert_of_new (v := r) hr hnew)
    refine ⟨d', ?_, ?_⟩
    · rw [collectFirst, hget]
      exact hok
    · rw [hvalues, Dict.values_insert hget, List.append_assoc]
      rfl

end First

/-! ### One row for each key -/

section Representatives

variable {α β κ : Type}

/-- One row of each key. -/
structure Representatives (key : α → κ) (rows kept : List α) : Prop where
  subset : ∀ x ∈ kept, x ∈ rows
  nodup : (kept.map key).Nodup
  covers : ∀ r ∈ rows, ∃ x ∈ kept, key x = key r

/-- Nothing that is seen of the rows is lost exactly if rows with one key look the same. -/
theorem Representatives.image_eq_iff {key : α → κ} {rows kept : List α}
    (h : Representatives key rows kept) {view : α → β} (hview : ∀ a b, view a = view b → key a = key b) :
    (∀ y, y ∈ kept.map view ↔ y ∈ rows.map view) ↔
      ∀ a ∈ rows, ∀ b ∈ rows, key a = key b → view a = view b := by
  constructor
  · intro himage a ha b hb hkey
    -- The rows of the key look like the one that is kept.
    have hkept : ∀ r ∈ rows, ∃ x ∈ kept, view x = view r := by
      intro r hr
      obtain ⟨x, hx, hxr⟩ := List.mem_map.1 ((himage (view r)).2 (List.mem_map_of_mem hr))
      exact ⟨x, hx, hxr⟩
    obtain ⟨x, hx, hxa⟩ := hkept a ha
    obtain ⟨y, hy, hyb⟩ := hkept b hb
    have hxy : key x = key y := by rw [hview x a hxa, hkey, hview y b hyb]
    rw [← hxa, List.inj_on_of_nodup_map h.nodup hx hy hxy, hyb]
  · intro hsame y
    constructor
    · intro hy
      obtain ⟨x, hx, rfl⟩ := List.mem_map.1 hy
      exact List.mem_map_of_mem (h.subset x hx)
    · intro hy
      obtain ⟨r, hr, rfl⟩ := List.mem_map.1 hy
      obtain ⟨x, hx, hkey⟩ := h.covers r hr
      rw [← hsame x (h.subset x hx) r hr hkey]
      exact List.mem_map_of_mem hx

theorem FirstOfEach.representatives [DecidableEq κ] {key : α → κ} {same : α → α → Bool}
    {rows kept : List α} (h : FirstOfEach key same rows kept) (hnodup : (kept.map key).Nodup) :
    Representatives key rows kept where
  subset x hx := h.mem_rows hx
  nodup := hnodup
  covers r hr := by
    obtain ⟨x, hx, hkey, -⟩ := h.agrees r hr
    exact ⟨x, hx, hkey⟩

end Representatives

/-! ### The best row of each key -/

section Best

variable {α κ : Type} [DecidableEq κ]

/-- A row takes the place of one that it is better than. -/
def mergeBest (key : α → κ) (better : α → α → Bool) (d : Dict κ α) (r : α) : Dict κ α :=
  match d.get (key r) with
  | none => d.insert (key r) r
  | some current => if better r current then d.insert (key r) r else d

/-- The row that is kept of some rows with one key. -/
def best (better : α → α → Bool) : List α → Option α
  | [] => none
  | r :: rows => some (rows.foldl (fun current r => if better r current then r else current) r)

variable {key : α → κ} {better : α → α → Bool} {d : Dict κ α} {rows : List α}

omit [DecidableEq κ] in
theorem best_append (rows : List α) (r : α) :
    best better (rows ++ [r]) =
      some ((best better rows).elim r fun current => if better r current then r else current) := by
  cases rows with
  | nil => rfl
  | cons x rows => simp [best, List.foldl_append]

omit [DecidableEq κ] in
/-- What grows with getting better is greatest in the best row. -/
theorem best_spec {ν : Type} [LinearOrder ν] {f : α → ν}
    (hbetter : ∀ a b, better a b = true → f b ≤ f a) (hworse : ∀ a b, better a b = false → f a ≤ f b)
    {x : α} (h : best better rows = some x) : x ∈ rows ∧ ∀ y ∈ rows, f y ≤ f x := by
  induction rows using List.reverseRecOn generalizing x with
  | nil => cases h
  | append_singleton rows r ih =>
    rw [best_append, Option.some.injEq] at h
    cases hbest : best better rows with
    | none =>
      have hnil : rows = [] := by
        cases rows with
        | nil => rfl
        | cons => cases hbest
      rw [hbest] at h
      obtain rfl : r = x := h
      simp [hnil]
    | some current =>
      obtain ⟨hmem, hall⟩ := ih hbest
      rw [hbest, Option.elim_some] at h
      split_ifs at h with hlt
      · subst h
        refine ⟨by simp, fun y hy => ?_⟩
        rcases List.mem_append.1 hy with hy | hy
        · exact (hall y hy).trans (hbetter _ _ hlt)
        · rw [List.mem_singleton.1 hy]
      · subst h
        refine ⟨List.mem_append_left _ hmem, fun y hy => ?_⟩
        rcases List.mem_append.1 hy with hy | hy
        · exact hall y hy
        · rw [List.mem_singleton.1 hy]
          exact hworse _ _ (by simpa using hlt)

theorem get_foldl_mergeBest (rows : List α) (k : κ) :
    (rows.foldl (mergeBest key better) Table.empty).get k =
      best better (rows.filter fun r => decide (key r = k)) := by
  induction rows using List.reverseRecOn with
  | nil => rfl
  | append_singleton rows r ih =>
    rw [List.foldl_append, List.foldl_cons, List.foldl_nil, List.filter_append]
    generalize rows.foldl (mergeBest key better) Table.empty = d at ih
    unfold mergeBest
    by_cases hk : key r = k
    · subst hk
      rw [show [r].filter (fun x => decide (key x = key r)) = [r] by simp, best_append, ← ih]
      split
      · rename_i hget
        rw [Dict.get_insert, Function.update_self, hget]
        rfl
      · rename_i current hget
        rw [hget, Option.elim_some]
        split_ifs with hlt
        · rw [Dict.get_insert, Function.update_self]
        · exact hget
    · rw [show [r].filter (fun x => decide (key x = k)) = [] by simp [hk], List.append_nil, ← ih]
      have hother : (d.insert (key r) r).get k = d.get k := by
        rw [Dict.get_insert, Function.update_of_ne (Ne.symm hk)]
      split
      · exact hother
      · split_ifs
        · exact hother
        · rfl

theorem keyedBy_foldl_mergeBest (rows : List α) :
    (rows.foldl (mergeBest key better) Table.empty).KeyedBy key := by
  induction rows using List.reverseRecOn with
  | nil => exact Dict.keyedBy_empty
  | append_singleton rows r ih =>
    rw [List.foldl_append, List.foldl_cons, List.foldl_nil]
    generalize rows.foldl (mergeBest key better) Table.empty = d at ih
    unfold mergeBest
    split
    · exact ih.insert r
    · split_ifs
      · exact ih.insert r
      · exact ih

/-- Rows with distinct keys are all kept. -/
theorem values_foldl_mergeBest (hnodup : (rows.map key).Nodup)
    (hnew : ∀ r ∈ rows, d.get (key r) = none) :
    (rows.foldl (mergeBest key better) d).values = d.values ++ rows := by
  induction rows generalizing d with
  | nil => exact (List.append_nil _).symm
  | cons r rows ih =>
    obtain ⟨hr, hnodup⟩ := List.nodup_cons.1 hnodup
    have hget := hnew r List.mem_cons_self
    have hstep : mergeBest key better d r = d.insert (key r) r := by
      unfold mergeBest
      rw [hget]
    have hnew' := Dict.get_insert_of_new (v := r) hr hnew
    rw [List.foldl_cons, hstep, ih hnodup hnew', Dict.values_insert hget, List.append_assoc]
    rfl

/-! ### The first row of the highest rank -/

section Rank

omit [DecidableEq κ]

variable {σ ν : Type} [LinearOrder ν]

/-- The row has a higher rank. -/
def higher (rank : α → ν) (a b : α) : Bool := decide (rank b < rank a)

/-- The higher one of two rows that may be missing; the first one, if they have the same rank. -/
def pick (rank : α → ν) : Option α → Option α → Option α
  | none, b => b
  | some a, none => some a
  | some a, some b => if rank a < rank b then some b else some a

variable {rank : α → ν}

/-- The best row is the first one of the highest rank. -/
theorem best_first {x : α} (h : best (higher rank) rows = some x) :
    ∃ pre post, rows = pre ++ x :: post ∧ (∀ y ∈ pre, rank y < rank x) ∧
      ∀ y ∈ post, rank y ≤ rank x := by
  induction rows using List.reverseRecOn generalizing x with
  | nil => cases h
  | append_singleton rows r ih =>
    rw [best_append, Option.some.injEq] at h
    cases hbest : best (higher rank) rows with
    | none =>
      have hnil : rows = [] := by
        cases rows with
        | nil => rfl
        | cons => cases hbest
      rw [hbest] at h
      obtain rfl : r = x := h
      exact ⟨[], [], by rw [hnil], by simp, by simp⟩
    | some current =>
      obtain ⟨pre, post, rfl, hpre, hpost⟩ := ih hbest
      rw [hbest, Option.elim_some] at h
      unfold higher at h
      simp only [decide_eq_true_eq] at h
      split_ifs at h with hlt
      · subst h
        refine ⟨pre ++ current :: post, [], rfl, fun y hy => ?_, by simp⟩
        rcases List.mem_append.1 hy with hy | hy
        · exact (hpre y hy).trans hlt
        rcases List.mem_cons.1 hy with rfl | hy
        · exact hlt
        · exact lt_of_le_of_lt (hpost y hy) hlt
      · subst h
        refine ⟨pre, post ++ [r], by simp, hpre, fun y hy => ?_⟩
        rcases List.mem_append.1 hy with hy | hy
        · exact hpost y hy
        · rw [List.mem_singleton.1 hy]
          exact not_lt.1 hlt

theorem pick_assoc (a b c : Option α) : pick rank (pick rank a b) c = pick rank a (pick rank b c) := by
  cases a with
  | none => rfl
  | some a =>
    cases b with
    | none => rfl
    | some b =>
      cases c with
      | none => by_cases hab : rank a < rank b <;> simp [pick, hab]
      | some c =>
        by_cases hab : rank a < rank b <;> by_cases hbc : rank b < rank c
        · simp [pick, hab, hbc, hab.trans hbc]
        · simp [pick, hab, hbc]
        · simp [pick, hab, hbc]
        · simp [pick, hab, hbc, not_lt.2 ((not_lt.1 hbc).trans (not_lt.1 hab))]

theorem pick_comm {a b : Option α} (h : ∀ x ∈ a, ∀ y ∈ b, rank x ≠ rank y) :
    pick rank a b = pick rank b a := by
  cases a with
  | none => cases b <;> rfl
  | some a =>
    cases b with
    | none => rfl
    | some b =>
      rcases lt_or_gt_of_ne (h a rfl b rfl) with hlt | hlt
      · simp [pick, hlt, hlt.not_gt]
      · simp [pick, hlt, hlt.not_gt]

theorem best_append_list (xs ys : List α) :
    best (higher rank) (xs ++ ys) = pick rank (best (higher rank) xs) (best (higher rank) ys) := by
  have hone : ∀ (xs : List α) r, best (higher rank) (xs ++ [r]) =
      pick rank (best (higher rank) xs) (some r) := by
    intro xs r
    rw [best_append]
    cases best (higher rank) xs with
    | none => rfl
    | some a =>
      simp only [Option.elim_some, higher, decide_eq_true_eq, pick]
      split_ifs <;> rfl
  induction ys using List.reverseRecOn with
  | nil =>
    rw [List.append_nil]
    cases best (higher rank) xs <;> rfl
  | append_singleton ys r ih => rw [← List.append_assoc, hone, ih, hone, pick_assoc]

/-- The best row of some places does not depend on their order, if no rank is found in two of them. -/
theorem best_flatMap_perm {rows : σ → List α} {places places' : List σ} (hp : places.Perm places')
    (hne : places.Pairwise fun s s' => ∀ a ∈ rows s, ∀ b ∈ rows s', rank a ≠ rank b) :
    best (higher rank) (places.flatMap rows) = best (higher rank) (places'.flatMap rows) := by
  induction hp with
  | nil => rfl
  | cons s _ ih =>
    rw [List.flatMap_cons, List.flatMap_cons, best_append_list, best_append_list,
      ih (List.pairwise_cons.1 hne).2]
  | swap s s' places =>
    have hcomm : pick rank (best (higher rank) (rows s')) (best (higher rank) (rows s)) =
        pick rank (best (higher rank) (rows s)) (best (higher rank) (rows s')) := by
      refine pick_comm fun a ha b hb => ?_
      have hmem : ∀ {l : List α} {x : α}, x ∈ best (higher rank) l → x ∈ l := by
        intro l x hx
        obtain ⟨pre, post, rfl, -⟩ := best_first hx
        simp
      exact (List.pairwise_cons.1 hne).1 s List.mem_cons_self a (hmem ha) b (hmem hb)
    simp only [List.flatMap_cons, best_append_list]
    rw [← pick_assoc, hcomm, pick_assoc]
  | trans h₁ _ ih₁ ih₂ =>
    refine (ih₁ hne).trans (ih₂ (hne.perm h₁ fun {s s'} h a ha b hb => ?_))
    exact Ne.symm (h b hb a ha)

end Rank

end Best

/-! ### Rows read place by place -/

section Read

variable {σ α β ε : Type}

/-- Read the rows of each place in turn and put them into the collection. -/
def collectM (read : σ → Except ε (List α)) (add : β → List α → Except ε β) (b : β) (places : List σ) :
    Except ε β :=
  places.foldlM (fun b s => do add b (← read s)) b

theorem mem_of_mapM_ok {f : α → Except ε β} {l : List α} {l' : List β} (h : l.mapM f = .ok l') {b : β}
    (hb : b ∈ l') : ∃ a ∈ l, f a = .ok b := by
  induction l generalizing l' with
  | nil =>
    cases h
    cases hb
  | cons a l ih =>
    rw [List.mapM_cons] at h
    cases hf : f a with
    | error e =>
      rw [hf] at h
      cases h
    | ok b₁ =>
      cases hrest : l.mapM f with
      | error e =>
        rw [hf, hrest] at h
        cases h
      | ok rest =>
        rw [hf, hrest] at h
        obtain rfl : b₁ :: rest = l' := Except.ok.inj h
        rcases List.mem_cons.1 hb with rfl | hb
        · exact ⟨a, List.mem_cons_self, hf⟩
        · obtain ⟨x, hx, hxb⟩ := ih hrest hb
          exact ⟨x, List.mem_cons_of_mem _ hx, hxb⟩

/-- All rows, if they can be read. -/
def readAll (read : σ → Except ε (List α)) : List σ → Except ε (List α)
  | [] => .ok []
  | s :: places => do return (← read s) ++ (← readAll read places)

theorem readAll_cons_ok {read : σ → Except ε (List α)} {s : σ} {places : List σ} {rows : List α} :
    readAll read (s :: places) = .ok rows ↔
      ∃ first rest, read s = .ok first ∧ readAll read places = .ok rest ∧ rows = first ++ rest := by
  simp only [readAll, bind, Except.bind, pure, Except.pure]
  cases read s with
  | error e => simp
  | ok first => cases readAll read places <;> simp [eq_comm]

theorem readAll_singleton {read : σ → Except ε (List α)} {s : σ} {rows : List α} :
    readAll read [s] = .ok rows ↔ read s = .ok rows := by
  rw [readAll_cons_ok]
  simp [readAll]

theorem readAll_of_ok {read : σ → Except ε (List α)} {f : σ → List α} {places : List σ}
    (h : ∀ s ∈ places, read s = .ok (f s)) : readAll read places = .ok (places.flatMap f) := by
  induction places with
  | nil => rfl
  | cons s places ih =>
    have hrest := ih fun s hs => h s (List.mem_cons_of_mem _ hs)
    exact readAll_cons_ok.2 ⟨f s, _, h s List.mem_cons_self, hrest, List.flatMap_cons⟩

theorem readAll_map {τ : Type} (f : τ → σ) (read : σ → Except ε (List α)) (places : List τ) :
    readAll read (places.map f) = readAll (fun t => read (f t)) places := by
  induction places with
  | nil => rfl
  | cons t places ih => rw [List.map_cons, readAll, readAll, ih]

/-- Everything was read, so every place was. -/
theorem exists_of_readAll {read : σ → Except ε (List α)} {places : List σ} {rows : List α}
    (h : readAll read places = .ok rows) : ∀ s ∈ places, ∃ first, read s = .ok first := by
  induction places generalizing rows with
  | nil => exact fun s hs => nomatch hs
  | cons s places ih =>
    obtain ⟨first, rest, hfirst, hrest, -⟩ := readAll_cons_ok.1 h
    intro s' hs'
    rcases List.mem_cons.1 hs' with rfl | hs'
    · exact ⟨first, hfirst⟩
    · exact ih hrest s' hs'

theorem readAll_pure (f : σ → List α) (places : List σ) :
    readAll (fun s => (.ok (f s) : Except ε (List α))) places = .ok (places.flatMap f) :=
  readAll_of_ok fun _ _ => rfl

theorem collectM_ok {read : σ → Except ε (List α)} {add : β → List α → Except ε β}
    (hnil : ∀ b, add b [] = .ok b)
    (happend : ∀ b xs ys, add b (xs ++ ys) = (add b xs).bind fun b => add b ys) {b b' : β}
    {places : List σ} :
    collectM read add b places = .ok b' ↔
      ∃ rows, readAll read places = .ok rows ∧ add b rows = .ok b' := by
  induction places generalizing b with
  | nil => simp [collectM, readAll, hnil, pure, Except.pure]
  | cons s places ih =>
    have hstep : collectM read add b (s :: places) = (read s).bind fun first =>
        (add b first).bind fun b => collectM read add b places := by
      simp only [collectM, List.foldlM_cons, bind]
      cases read s <;> rfl
    rw [hstep]
    simp only [readAll_cons_ok]
    cases hread : read s with
    | error e => simp [Except.bind]
    | ok first =>
      simp only [Except.bind, Except.ok.injEq]
      cases hadd : add b first with
      | error e =>
        refine iff_of_false (by simp) ?_
        rintro ⟨_, ⟨_, rest, rfl, _, rfl⟩, h⟩
        rw [happend, hadd] at h
        cases h
      | ok b₁ =>
        simp only
        rw [ih]
        constructor
        · rintro ⟨rest, hrest, h⟩
          refine ⟨first ++ rest, ⟨first, rest, rfl, hrest, rfl⟩, ?_⟩
          rw [happend, hadd]
          exact h
        · rintro ⟨_, ⟨_, rest, rfl, hrest, rfl⟩, h⟩
          rw [happend, hadd] at h
          exact ⟨rest, hrest, h⟩

theorem collectM_pure {f : σ → List α} {add : β → List α → Except ε β} (hnil : ∀ b, add b [] = .ok b)
    (happend : ∀ b xs ys, add b (xs ++ ys) = (add b xs).bind fun b => add b ys) (b : β)
    (places : List σ) : collectM (fun s => .ok (f s)) add b places = add b (places.flatMap f) := by
  induction places generalizing b with
  | nil => exact (hnil b).symm
  | cons s places ih =>
    rw [List.flatMap_cons, happend]
    simp only [collectM, List.foldlM_cons, bind, Except.bind]
    cases add b (f s) with
    | error e => rfl
    | ok b' => exact ih b'

/-- The first rows of all places. -/
theorem collectM_collectFirst {κ : Type} [DecidableEq κ] {key : α → κ} {same : α → α → Bool}
    {diverges : α → α → ε} {read : σ → Except ε (List α)} {places : List σ} {p : Dict κ α × ℕ}
    (h : collectM read (fun acc rows => collectFirst key same diverges acc.1 acc.2 rows)
      (Table.empty, 0) places = .ok p) :
    ∃ rows, readAll read places = .ok rows ∧ FirstOfEach key same rows p.1.values ∧
      (p.1.values.map key).Nodup := by
  obtain ⟨rows, hread, hfirst⟩ := (collectM_ok (fun _ => rfl) fun acc xs ys =>
    collectFirst_append xs ys).1 h
  exact ⟨rows, hread, firstOfEach_collectFirst hfirst⟩

theorem exists_collectM_collectFirst {κ : Type} [DecidableEq κ] {key : α → κ}
    (same : α → α → Bool) (diverges : α → α → ε) {read : σ → Except ε (List α)} {places : List σ}
    {rows : List α} (hread : readAll read places = .ok rows) (hnodup : (rows.map key).Nodup) :
    ∃ d, collectM read (fun acc rows => collectFirst key same diverges acc.1 acc.2 rows)
      (Table.empty, 0) places = .ok (d, 0) ∧ d.values = rows := by
  obtain ⟨d, hok, hvalues⟩ : ∃ d, collectFirst key same diverges Table.empty 0 rows = .ok (d, 0) ∧
      d.values = Dict.values (Table.empty : Dict κ α) ++ rows :=
    collectFirst_of_nodup hnodup fun _ _ => rfl
  exact ⟨d, (collectM_ok (fun _ => rfl) fun acc xs ys =>
    collectFirst_append xs ys).2 ⟨rows, hread, hok⟩, hvalues⟩

end Read

/-! ### Rows given to parts -/

section Route

variable {α β ι ε : Type} [DecidableEq ι]

/-- Give each row to the part it is routed to. -/
def routeM (route : α → ι) (f : ι → β → α → Except ε β) (parts : ι → β) :
    List α → Except ε (ι → β)
  | [] => .ok parts
  | r :: rows => do
    let part ← f (route r) (parts (route r)) r
    routeM route f (Function.update parts (route r) part) rows

variable {route : α → ι} {f : ι → β → α → Except ε β}

/-- Each part gets its rows, in their order. -/
theorem routeM_ok_iff {parts parts' : ι → β} (rows : List α) :
    routeM route f parts rows = .ok parts' ↔
      ∀ i, (rows.filter fun r => decide (route r = i)).foldlM (f i) (parts i) = .ok (parts' i) := by
  induction rows generalizing parts with
  | nil =>
    simp only [routeM, Except.ok.injEq, List.filter_nil, List.foldlM_nil, pure, Except.pure]
    exact funext_iff
  | cons r rows ih =>
    have hother : ∀ i, i ≠ route r → ((r :: rows).filter fun r => decide (route r = i)) =
        rows.filter fun r => decide (route r = i) := fun i hi => by
      rw [List.filter_cons_of_neg (by simpa using Ne.symm hi)]
    have hself : ((r :: rows).filter fun x => decide (route x = route r)) =
        r :: rows.filter fun x => decide (route x = route r) :=
      List.filter_cons_of_pos (by simp)
    simp only [routeM, bind, Except.bind]
    cases hf : f (route r) (parts (route r)) r with
    | error e =>
      refine iff_of_false (by simp) fun h => ?_
      have := h (route r)
      rw [hself, List.foldlM_cons, hf] at this
      cases this
    | ok part =>
      simp only
      rw [ih]
      refine forall_congr' fun i => ?_
      by_cases hi : i = route r
      · subst hi
        rw [hself, List.foldlM_cons, hf, Function.update_self]
        rfl
      · rw [hother i hi, Function.update_of_ne hi]

/-- The parts together are all rows. -/
theorem perm_flatMap_filter {route : α → ℕ} {n : ℕ} {rows : List α} (hnodup : rows.Nodup)
    (hroute : ∀ r ∈ rows, route r < n) :
    ((List.range n).flatMap fun i => rows.filter fun r => decide (route r = i)).Perm rows := by
  have hparts : ((List.range n).flatMap fun i => rows.filter fun r => decide (route r = i)).Nodup := by
    rw [List.nodup_flatMap]
    refine ⟨fun i _ => hnodup.filter _, List.nodup_range.imp fun {i j} hij r hi hj => hij ?_⟩
    rw [← of_decide_eq_true (List.mem_filter.1 hi).2, ← of_decide_eq_true (List.mem_filter.1 hj).2]
  rw [List.perm_ext_iff_of_nodup hparts hnodup]
  intro r
  rw [List.mem_flatMap]
  constructor
  · rintro ⟨i, -, hr⟩
    exact (List.mem_filter.1 hr).1
  · intro hr
    exact ⟨route r, List.mem_range.2 (hroute r hr), List.mem_filter.2 ⟨hr, decide_eq_true rfl⟩⟩

end Route

/-! ### Rows inserted one by one -/

section Insert

variable {α β ε : Type} {f : β → α → Except ε β} {P : List α → β → Prop}

/-- What holds of the rows inserted so far, holds at the end of all of them. -/
theorem foldlM_ok (hstep : ∀ xs b x b', P xs b → f b x = .ok b' → P (xs ++ [x]) b') {xs rows : List α}
    {b b' : β} (hP : P xs b) (h : rows.foldlM f b = .ok b') : P (xs ++ rows) b' := by
  induction rows generalizing xs b with
  | nil =>
    cases h
    rwa [List.append_nil]
  | cons x rows ih =>
    rw [List.foldlM_cons] at h
    cases hf : f b x with
    | error e =>
      rw [hf] at h
      cases h
    | ok b₁ =>
      rw [hf] at h
      rw [List.append_cons]
      exact ih (hstep xs b x b₁ hP hf) h

/-- Every row can be inserted after those before it, so all of them can. -/
theorem exists_foldlM (hstep : ∀ xs b x b', P xs b → f b x = .ok b' → P (xs ++ [x]) b') {b : β}
    (hP : P [] b) (rows : List α)
    (hnext : ∀ xs x b, xs ++ [x] <+: rows → P xs b → ∃ b', f b x = .ok b') :
    ∃ b', rows.foldlM f b = .ok b' := by
  induction rows using List.reverseRecOn with
  | nil => exact ⟨b, rfl⟩
  | append_singleton rows x ih =>
    obtain ⟨b₁, hb₁⟩ := ih fun xs y b hxs => hnext xs y b (hxs.trans (List.prefix_append _ _))
    obtain ⟨b₂, hb₂⟩ := hnext rows x b₁ List.prefix_rfl (foldlM_ok hstep hP hb₁)
    refine ⟨b₂, ?_⟩
    rw [List.foldlM_append, hb₁]
    show [x].foldlM f b₁ = _
    rw [List.foldlM_cons, hb₂]
    rfl

section Parts

variable {ι : Type} [DecidableEq ι] {route : α → ι} {f : ι → β → α → Except ε β}
  {P : ι → List α → β → Prop} {parts : ι → β} {rows : List α}

theorem routeM_ok (hstep : ∀ i xs b x b', P i xs b → f i b x = .ok b' → P i (xs ++ [x]) b')
    (hP : ∀ i, P i [] (parts i)) {parts' : ι → β} (h : routeM route f parts rows = .ok parts') (i : ι) :
    P i (rows.filter fun r => decide (route r = i)) (parts' i) :=
  foldlM_ok (hstep i) (hP i) ((routeM_ok_iff rows).1 h i)

/-- In every part every row can be inserted, so all rows can. -/
theorem exists_routeM (hstep : ∀ i xs b x b', P i xs b → f i b x = .ok b' → P i (xs ++ [x]) b')
    (hP : ∀ i, P i [] (parts i))
    (hnext : ∀ i xs x b, xs ++ [x] <+: rows.filter (fun r => decide (route r = i)) → P i xs b →
      ∃ b', f i b x = .ok b') :
    ∃ parts', routeM route f parts rows = .ok parts' := by
  have hparts : ∀ i, ∃ b, (rows.filter fun r => decide (route r = i)).foldlM (f i) (parts i) = .ok b :=
    fun i => exists_foldlM (hstep i) (hP i) _ (hnext i)
  choose parts' hparts' using hparts
  exact ⟨parts', (routeM_ok_iff rows).2 hparts'⟩

end Parts

end Insert

end Ixmati
