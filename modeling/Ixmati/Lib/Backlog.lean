import Ixmati.Lib.Log
import Mathlib.Logic.Function.Basic
import Mathlib.Data.Set.Function

/-!
# Keyed copies with a backlog

A copy holds a value under each key, or none, and the updates of its source wait for it in a queue.
`settle copy updates` is the copy once it has caught up.  The source is indexed by names, and each
name has a key of the copy.

`Coherent` says that the copy shows of each name what the source has, or nothing.  It is kept when
the source changes and the change is queued (`Coherent.emit`), and when a reader puts a value into
the copy that is the one of the source or that a queued update will replace (`Coherent.fill`).  A
value without an update in the queue is then the one of the source (`Coherent.hit`).
-/

namespace Ixmati

variable {κ ι β : Type*} [DecidableEq κ]

/-- The copy after the updates. -/
def settle (copy : κ → β) (updates : List (κ × β)) : κ → β :=
  updates.foldl (fun m u => Function.update m u.1 u.2) copy

@[simp] theorem settle_nil (copy : κ → β) : settle copy [] = copy := rfl

theorem settle_cons (copy : κ → β) (u : κ × β) (us : List (κ × β)) :
    settle copy (u :: us) = settle (Function.update copy u.1 u.2) us := rfl

theorem settle_append (copy : κ → β) (us vs : List (κ × β)) :
    settle copy (us ++ vs) = settle (settle copy us) vs := List.foldl_append

/-- Updates that are made one by one. -/
theorem foldl_settle {α : Type*} (f : α → Option (κ × β)) (copy : κ → β) (xs : List α) :
    xs.foldl (fun m x => settle m (f x).toList) copy = settle copy (xs.filterMap f) := by
  induction xs generalizing copy with
  | nil => rfl
  | cons x xs ih =>
    rw [List.foldl_cons, ih]
    cases hx : f x with
    | none => rw [List.filterMap_cons_none hx]; rfl
    | some u => rw [List.filterMap_cons_some hx]; rfl

/-- What is under a key that has no update stays. -/
theorem settle_of_not_mem {copy : κ → β} {us : List (κ × β)} {k : κ}
    (h : k ∉ us.map Prod.fst) : settle copy us k = copy k := by
  induction us generalizing copy with
  | nil => rfl
  | cons u us ih =>
    simp only [List.map_cons, List.mem_cons, not_or] at h
    rw [settle_cons, ih h.2, Function.update_of_ne h.1]

/-- What is under a key was put there by the last update of the key. -/
theorem settle_eq (copy : κ → β) (us : List (κ × β)) (k : κ) :
    settle copy us k = ((lastWhere (fun u => decide (u.1 = k)) us).map Prod.snd).getD (copy k) := by
  induction us using List.reverseRecOn with
  | nil => rfl
  | append_singleton us u ih =>
    rw [settle_append, settle_cons, settle_nil, lastWhere_append]
    by_cases hk : u.1 = k
    · subst hk
      simp
    · rw [Function.update_of_ne (Ne.symm hk), ih, if_neg (by simpa using hk)]

/-- A value that is put into the copy survives only if its key has no update. -/
theorem settle_update (copy : κ → β) (k : κ) (b : β) (us : List (κ × β)) (k' : κ) :
    settle (Function.update copy k b) us k' =
      if k' = k ∧ k ∉ us.map Prod.fst then b else settle copy us k' := by
  induction us generalizing copy with
  | nil => by_cases h : k' = k <;> simp [h]
  | cons u us ih =>
    rw [settle_cons, settle_cons]
    by_cases huk : u.1 = k
    · -- the first update is on the key, and whatever was there is gone
      have hover : Function.update (Function.update copy k b) u.1 u.2 =
          Function.update copy u.1 u.2 := by
        rw [huk, Function.update_idem]
      rw [hover, if_neg (by simp [huk])]
    · have hmem : k ∈ (u :: us).map Prod.fst ↔ k ∈ us.map Prod.fst := by
        rw [List.map_cons, List.mem_cons, or_iff_right (Ne.symm huk)]
      rw [Function.update_comm (Ne.symm huk), ih]
      simp only [hmem]

variable {N : Set ι} {key : ι → κ} {source : ι → Option β} {copy : κ → Option β}
  {us : List (κ × Option β)} {n : ι} {b : β}

/-- The copy shows of each name in `N` what the source has, or nothing. -/
def Coherent (N : Set ι) (key : ι → κ) (source : ι → Option β) (copy : κ → Option β) : Prop :=
  ∀ n ∈ N, copy (key n) = none ∨ copy (key n) = source n

/-- The source changes and the copy follows. -/
theorem Coherent.emit [DecidableEq ι] (hkey : Set.InjOn key N) (h : Coherent N key source copy)
    (hn : n ∈ N) (v : Option β) :
    Coherent N key (Function.update source n v) (Function.update copy (key n) v) := by
  intro m hm
  by_cases hmn : m = n
  · subst hmn
    right
    rw [Function.update_self, Function.update_self]
  · rw [Function.update_of_ne hmn, Function.update_of_ne fun heq => hmn (hkey hm hn heq)]
    exact h m hm

/-- A reader puts a value into the copy. -/
theorem Coherent.fill (hkey : Set.InjOn key N) (h : Coherent N key source (settle copy us))
    (hn : n ∈ N) (hb : key n ∈ us.map Prod.fst ∨ source n = some b) :
    Coherent N key source (settle (Function.update copy (key n) (some b)) us) := by
  intro m hm
  rw [settle_update]
  split_ifs with hput
  · right
    rw [hkey hm hn hput.1]
    exact (hb.resolve_left hput.2).symm
  · exact h m hm

/-- A value without an update in the queue is the one of the source. -/
theorem Coherent.hit (h : Coherent N key source (settle copy us)) (hn : n ∈ N)
    (hfree : key n ∉ us.map Prod.fst) (hb : copy (key n) = some b) : source n = some b := by
  have := h n hn
  rw [settle_of_not_mem hfree, hb] at this
  exact (this.resolve_left (by simp)).symm

end Ixmati
