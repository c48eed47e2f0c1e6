import Ixmati.Lib.Run
import Mathlib.Algebra.BigOperators.Group.List.Basic
import Mathlib.Algebra.Order.Monoid.Defs
import Mathlib.Algebra.Order.Ring.Nat

/-!
# Counting what a run puts out

A potential `f` of the states pays for the outputs of the steps: a step that puts out `n` outputs of the
kind that is counted takes `n` from the potential, up to what the action itself adds to it.  Then a
run puts out no more than the potential at its beginning and what its actions add.

* `countP_outputs_le` : the rule; `count_outputs_le` : how often one thing is put out;
* `countP_actions_le` : how often actions of a kind can be taken at all;
* `runFrom_append` : the parts of a run are runs.
-/

namespace Ixmati

variable {σ α β M : Type*} {step : σ → α → Option σ}

theorem runFrom_append {s s' : σ} {as bs : List α} :
    runFrom step s (as ++ bs) = some s' ↔
      ∃ s₁, runFrom step s as = some s₁ ∧ runFrom step s₁ bs = some s' := by
  induction as generalizing s with
  | nil => simp [runFrom]
  | cons a as ih =>
    rw [List.cons_append, runFrom_cons]
    constructor
    · rintro ⟨s₁, h₁, h₂⟩
      obtain ⟨s₂, has, hbs⟩ := ih.1 h₂
      exact ⟨s₂, runFrom_cons.2 ⟨s₁, h₁, has⟩, hbs⟩
    · rintro ⟨s₂, has, hbs⟩
      obtain ⟨s₁, h₁, h₂⟩ := runFrom_cons.1 has
      exact ⟨s₁, h₁, ih.2 ⟨s₂, h₂, hbs⟩⟩

section Potential

variable [AddCommMonoidWithOne M] [PartialOrder M] [IsOrderedAddMonoid M]

/-- What the steps put out is paid from the potential. -/
theorem countP_outputs_le {I : σ → Prop} {C : σ → α → Prop} {out : σ → α → List β} {p : β → Bool}
    {f : σ → M} {gain : α → M} (hkeep : ∀ s a s', I s → C s a → step s a = some s' → I s')
    (hpay : ∀ s a s', I s → C s a → step s a = some s' →
      ((out s a).countP p : M) + f s' ≤ f s + gain a)
    {s s' : σ} {as : List α} (hI : I s) (hC : StepsMeet step C s as)
    (h : runFrom step s as = some s') :
    ((outputs step out s as).countP p : M) + f s' ≤ f s + (as.map gain).sum := by
  induction as generalizing s with
  | nil =>
    cases h
    simp [outputs]
  | cons a as ih =>
    obtain ⟨s₁, h₁, h₂⟩ := runFrom_cons.1 h
    have hrest := ih (hkeep s a s₁ hI hC.1 h₁) (hC.2 s₁ h₁) h₂
    rw [outputs_cons h₁, List.countP_append, Nat.cast_add, List.map_cons, List.sum_cons]
    calc ((out s a).countP p : M) + (outputs step out s₁ as).countP p + f s'
        = (out s a).countP p + ((outputs step out s₁ as).countP p + f s') := add_assoc _ _ _
      _ ≤ (out s a).countP p + (f s₁ + (as.map gain).sum) := add_le_add_right hrest _
      _ = (out s a).countP p + f s₁ + (as.map gain).sum := (add_assoc _ _ _).symm
      _ ≤ f s + gain a + (as.map gain).sum := add_le_add_left (hpay s a s₁ hI hC.1 h₁) _
      _ = f s + (gain a + (as.map gain).sum) := add_assoc _ _ _

end Potential

theorem count_outputs_le [DecidableEq β] {out : σ → α → List β} {x : β} {f : σ → ℕ} {gain : α → ℕ}
    (hpay : ∀ s a s', step s a = some s' → (out s a).count x + f s' ≤ f s + gain a) {s s' : σ}
    {as : List α} (h : runFrom step s as = some s') :
    (outputs step out s as).count x ≤ f s + (as.map gain).sum := by
  have hpaid : (outputs step out s as).count x + f s' ≤ f s + (as.map gain).sum :=
    countP_outputs_le (I := fun _ => True) (C := fun _ _ => True) (fun _ _ _ _ _ _ => trivial)
      (fun s a s' _ _ => hpay s a s') trivial (stepsMeet_of_forall (fun _ _ => trivial) _ _) h
  exact (Nat.le_add_right _ _).trans hpaid

theorem outputs_actions {s s' : σ} {as : List α} (h : runFrom step s as = some s') :
    outputs step (fun _ a => [a]) s as = as := by
  induction as generalizing s with
  | nil => rfl
  | cons a as ih =>
    obtain ⟨s₁, h₁, h₂⟩ := runFrom_cons.1 h
    rw [outputs_cons h₁, ih h₂, List.singleton_append]

/-- Each action of a kind is paid from the potential, and nothing is added to it. -/
theorem countP_actions_le {I : σ → Prop} {C : σ → α → Prop} {p : α → Bool} {f : σ → ℕ}
    (hkeep : ∀ s a s', I s → C s a → step s a = some s' → I s')
    (hpay : ∀ s a s', I s → C s a → step s a = some s' → (if p a then 1 else 0) + f s' ≤ f s)
    {s s' : σ} {as : List α} (hI : I s) (hC : StepsMeet step C s as)
    (h : runFrom step s as = some s') : as.countP p ≤ f s := by
  have hpaid : (outputs step (fun _ a => [a]) s as).countP p + f s' ≤
      f s + (as.map fun _ => 0).sum := by
    refine countP_outputs_le hkeep (fun s a s' hI hC hstep => ?_) hI hC h
    rw [List.countP_singleton]
    exact hpay s a s' hI hC hstep
  rw [outputs_actions h, List.map_const', List.sum_replicate, nsmul_zero] at hpaid
  omega

end Ixmati
