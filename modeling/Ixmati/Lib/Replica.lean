import Mathlib.Data.List.Basic

/-!
# Replicas that lag behind

A source changes state by notifications, and a copy applies the same notifications later, in the
same order.  `Replica copy pending source` says that the copy, once it has applied the pending
notifications, is the source, and that each of them is applied in a state in which it is expected
(`ok`).  The two rules are the two ends of the queue:

* `Replica.emit` : the source makes a notification that it expects;
* `Replica.observe` : the copy applies the oldest one, and finds it expected.
-/

namespace Ixmati

variable {σ ν : Type*} (apply : σ → ν → σ) (ok : σ → ν → Prop)

/-- Each notification is expected in the state it is applied in. -/
def Expected : σ → List ν → Prop
  | _, [] => True
  | s, n :: ns => ok s n ∧ Expected (apply s n) ns

/-- The copy lags behind the source by the pending notifications. -/
structure Replica (copy : σ) (pending : List ν) (source : σ) : Prop where
  catches_up : pending.foldl apply copy = source
  expected : Expected apply ok copy pending

variable {apply ok} {copy source : σ} {pending : List ν} {n : ν}

theorem expected_append :
    Expected apply ok copy (pending ++ [n]) ↔
      Expected apply ok copy pending ∧ ok (pending.foldl apply copy) n := by
  induction pending generalizing copy with
  | nil => simp [Expected]
  | cons m ms ih => simp [Expected, ih, and_assoc]

theorem Expected.imp {ok' : σ → ν → Prop} (himp : ∀ s n, ok s n → ok' s n)
    (h : Expected apply ok copy pending) : Expected apply ok' copy pending := by
  induction pending generalizing copy with
  | nil => trivial
  | cons m ms ih => exact ⟨himp _ _ h.1, ih h.2⟩

namespace Replica

theorem refl (s : σ) : Replica apply ok s [] s := ⟨rfl, trivial⟩

theorem imp {ok' : σ → ν → Prop} (himp : ∀ s n, ok s n → ok' s n)
    (h : Replica apply ok copy pending source) : Replica apply ok' copy pending source :=
  ⟨h.catches_up, h.expected.imp himp⟩

/-- The source makes a notification. -/
theorem emit (h : Replica apply ok copy pending source) (hn : ok source n) :
    Replica apply ok copy (pending ++ [n]) (apply source n) := by
  refine ⟨?_, expected_append.2 ⟨h.expected, ?_⟩⟩
  · rw [List.foldl_append, h.catches_up]
    rfl
  · rw [h.catches_up]
    exact hn

/-- The copy applies a notification. -/
theorem observe (h : Replica apply ok copy (n :: pending) source) :
    ok copy n ∧ Replica apply ok (apply copy n) pending source :=
  ⟨h.expected.1, h.catches_up, h.expected.2⟩

end Replica

end Ixmati
