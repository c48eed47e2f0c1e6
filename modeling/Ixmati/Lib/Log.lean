import Mathlib.Data.List.Induction

/-!
# Logs

A log is a list that grows at its end.  `lastWhere p log` is the last entry that satisfies `p`:
what a table that keeps one row per key shows of the log.  `beyond id c log` is what a reader that
has come to the cursor `c` still has to read.

* `lastWhere_append` : how one more entry changes it;
* `lastWhere_of_append` : an old entry that is still the last one was the last one before;
* `lastWhere_of_pairwise` : when the entries with `p` are ordered by a relation along the log, the
  last one is above all the others;
* `lastWhere_of_imp` : how the last entries with two predicates compare;
* `lastWhere_filterMap`, `lastWhere_flatMap` : the last entry of a log that is made from another one;
* `pairwise_mapIdx` : the same for the entries of a log that are numbered in turn;
* `beyond_of_cons` : the reader takes the first entry beyond its cursor and moves the cursor there.
-/

namespace Ixmati

variable {α : Type*} {p : α → Bool}

/-- The last entry with `p`. -/
def lastWhere (p : α → Bool) (log : List α) : Option α := (log.filter p).getLast?

@[simp] theorem lastWhere_nil : lastWhere p [] = none := rfl

theorem lastWhere_append (log : List α) (x : α) :
    lastWhere p (log ++ [x]) = if p x then some x else lastWhere p log := by
  cases hx : p x <;> simp [lastWhere, hx]

/-- An entry of a log without repetitions that is still the last one after the log has grown was the
last one before. -/
theorem lastWhere_of_append {log new : List α} {x : α} (hnd : (log ++ new).Nodup) (hx : x ∈ log)
    (h : lastWhere p (log ++ new) = some x) : lastWhere p log = some x := by
  unfold lastWhere at h ⊢
  rw [List.filter_append, List.getLast?_append] at h
  cases hnew : (new.filter p).getLast? with
  | none => rwa [hnew, Option.none_or] at h
  | some y =>
    -- the last one would be a new entry
    rw [hnew, Option.some_or, Option.some.injEq] at h
    have hy : y ∈ new := (List.mem_filter.1 (List.mem_of_getLast? hnew)).1
    exact absurd rfl ((List.nodup_append.1 hnd).2.2 x hx x (h ▸ hy))

/-- What a number that is given in turn does not change about the last entry. -/
theorem lastWhere_mapIdx {β γ : Type*} {f : ℕ → α → β} {q : β → Bool} {g : β → Option γ}
    {g' : α → Option γ} (hq : ∀ i x, q (f i x) = p x) (hg : ∀ i x, g (f i x) = g' x)
    (log : List α) : (lastWhere q (log.mapIdx f)).bind g = (lastWhere p log).bind g' := by
  induction log using List.reverseRecOn with
  | nil => rfl
  | append_singleton log x ih =>
    rw [List.mapIdx_concat, lastWhere_append, lastWhere_append, hq]
    split_ifs
    · exact hg ..
    · exact ih

theorem lastWhere_eq_none {log : List α} : lastWhere p log = none ↔ ∀ x ∈ log, ¬ p x := by
  simp [lastWhere]

theorem mem_of_lastWhere {log : List α} {x : α} (h : lastWhere p log = some x) :
    x ∈ log ∧ p x := by
  have hmem : x ∈ log.filter p := List.mem_of_getLast? h
  exact List.mem_filter.1 hmem

theorem lastWhere_congr {q : α → Bool} {log : List α} (h : ∀ x ∈ log, p x = q x) :
    lastWhere p log = lastWhere q log := by
  rw [lastWhere, List.filter_congr h, lastWhere]

theorem lastWhere_filter (q : α → Bool) (log : List α) :
    lastWhere p (log.filter q) = lastWhere (fun x => p x && q x) log := by
  rw [lastWhere, List.filter_filter, lastWhere]

/-- The last entry with `q` is the last one with `p` if it has `p` and all entries with `p` have `q`. -/
theorem lastWhere_of_imp {q : α → Bool} {log : List α} {x : α} (hpq : ∀ y ∈ log, p y → q y)
    (h : lastWhere q log = some x) (hx : p x) : lastWhere p log = some x := by
  induction log using List.reverseRecOn with
  | nil => simp at h
  | append_singleton log y ih =>
    rw [lastWhere_append] at h ⊢
    by_cases hy : p y
    · rw [if_pos (hpq y (by simp) hy)] at h
      rw [if_pos hy, h]
    · rw [if_neg hy]
      split_ifs at h with hq
      · rw [Option.some.injEq] at h
        exact absurd (h ▸ hx) hy
      · exact ih (fun z hz => hpq z (List.mem_append_left _ hz)) h

theorem lastWhere_filterMap {β : Type*} {q : β → Bool} (f : α → Option β) (log : List α) :
    lastWhere q (log.filterMap f) = (lastWhere (fun x => (f x).any q) log).bind f := by
  induction log using List.reverseRecOn with
  | nil => rfl
  | append_singleton log x ih =>
    rw [List.filterMap_append, lastWhere_append (p := fun x => (f x).any q)]
    cases hx : f x with
    | none => simpa [hx] using ih
    | some y =>
      rw [List.filterMap_cons_some hx, List.filterMap_nil, lastWhere_append, ih]
      simp only [Option.any_some]
      split_ifs
      · exact hx.symm
      · rfl

theorem lastWhere_append_list (log new : List α) :
    lastWhere p (log ++ new) = (lastWhere p new).or (lastWhere p log) := by
  simp only [lastWhere, List.filter_append, List.getLast?_append]

theorem lastWhere_flatMap {β : Type*} {q : β → Bool} (f : α → List β) (log : List α) :
    lastWhere q (log.flatMap f) =
      (lastWhere (fun x => (f x).any q) log).bind fun x => lastWhere q (f x) := by
  induction log using List.reverseRecOn with
  | nil => rfl
  | append_singleton log x ih =>
    rw [List.flatMap_append, List.flatMap_singleton, lastWhere_append_list, lastWhere_append, ih]
    split_ifs with hany
    · obtain ⟨y, hy, hq⟩ := List.any_eq_true.1 hany
      have hsome : (lastWhere q (f x)).isSome := by
        rw [Option.isSome_iff_ne_none, Ne, lastWhere_eq_none]
        exact fun hnone => hnone y hy hq
      obtain ⟨z, hz⟩ := Option.isSome_iff_exists.1 hsome
      simp [hz]
    · have hnone : lastWhere q (f x) = none :=
        lastWhere_eq_none.2 fun y hy hq => hany (List.any_eq_true.2 ⟨y, hy, hq⟩)
      rw [hnone, Option.none_or]

theorem lastWhere_of_pairwise {R : α → α → Prop} {log : List α} {x : α}
    (hR : log.Pairwise fun a b => p a → p b → R a b) (h : lastWhere p log = some x) :
    ∀ y ∈ log, p y → y = x ∨ R y x := by
  intro y hy hpy
  obtain ⟨front, hfront⟩ := List.getLast?_eq_some_iff.1 h
  have hpair : (front ++ [x]).Pairwise R := by
    rw [← hfront]
    refine ((List.pairwise_filter (R := fun a b => R a b)).2 ?_)
    exact hR.imp fun {a b} hab ha hb => hab ha hb
  have hy' : y ∈ front ++ [x] := by
    rw [← hfront]; exact List.mem_filter.2 ⟨hy, hpy⟩
  rcases List.mem_append.1 hy' with hmem | hmem
  · exact Or.inr ((List.pairwise_append.1 hpair).2.2 y hmem x (List.mem_singleton_self x))
  · exact Or.inl (List.mem_singleton.1 hmem)

/-- Numbering the entries does not matter to a relation that does not see the numbers. -/
theorem pairwise_mapIdx {β : Type*} {f : ℕ → α → β} {R : β → β → Prop} {S : α → α → Prop}
    (hRS : ∀ i j a b, R (f i a) (f j b) ↔ S a b) (log : List α) :
    (log.mapIdx f).Pairwise R ↔ log.Pairwise S := by
  simp only [List.pairwise_iff_getElem, List.length_mapIdx, List.getElem_mapIdx, hRS]

/-! ### Reading from a cursor -/

section Cursor

variable {id : α → ℕ} {log : List α} {c : ℕ}

/-- The entries beyond the cursor. -/
def beyond (id : α → ℕ) (c : ℕ) (log : List α) : List α := log.filter fun x => decide (c < id x)

theorem mem_beyond {x : α} : x ∈ beyond id c log ↔ x ∈ log ∧ c < id x := by
  simp [beyond]

theorem beyond_append (log new : List α) :
    beyond id c (log ++ new) = beyond id c log ++ beyond id c new :=
  List.filter_append ..

theorem beyond_eq_self (h : ∀ x ∈ log, c < id x) : beyond id c log = log := by
  simpa [beyond, List.filter_eq_self] using h

/-- The reader takes the first entry beyond its cursor and moves the cursor there. -/
theorem beyond_of_cons (hs : log.Pairwise fun a b => id a < id b) {x : α} {rest : List α}
    (h : beyond id c log = x :: rest) : beyond id (id x) log = rest := by
  induction log with
  | nil => simp [beyond] at h
  | cons y log ih =>
    obtain ⟨hy, hs⟩ := List.pairwise_cons.1 hs
    unfold beyond at h
    by_cases hc : c < id y
    · -- `y` is the first one, and everything after it is beyond it
      rw [List.filter_cons_of_pos (by simpa using hc), List.cons.injEq] at h
      obtain ⟨rfl, hrest⟩ := h
      have hself := beyond_eq_self hy
      have hall : beyond id c log = log := beyond_eq_self fun z hz => Nat.lt_trans hc (hy z hz)
      rw [← hrest]
      change beyond id (id y) (y :: log) = beyond id c log
      rw [hall, beyond, List.filter_cons_of_neg (by simp)]
      exact hself
    · rw [List.filter_cons_of_neg (by simpa using hc)] at h
      have hx : c < id x := by
        have hmem : x ∈ beyond id c log := by rw [beyond, h]; exact List.mem_cons_self ..
        exact (mem_beyond.1 hmem).2
      rw [beyond, List.filter_cons_of_neg (by simp; omega)]
      exact ih hs h

end Cursor

end Ixmati
