import Mathlib.Data.List.Basic

/-!
# Runs of executable transition systems

A system is given by a step function `step : σ → α → Option σ`: an action is refused (`none`)
or moves to one next state, and all nondeterminism is in the choice of the actions.  `runFrom`
performs a list of actions, so a concrete run can be evaluated.

* `Reachable step s₀ s` : some list of actions leads from `s₀` to `s`;
* `Reachable.invariant` : what holds initially and is kept by every step holds in every
  reachable state;
* `StepsMeet step C s as` : in the run of `as` from `s`, each action meets the condition `C`
  in the state it is performed in;
* `invariant_of_stepsMeet` : the same rule for runs whose steps all meet `C`; `stepsMeet_iff` : two
  conditions that are the same as long as they are met;
* `outputs step out s as` : what the actions of the run put out, in order; `outputs_iff` : a property
  that every front part of the outputs has exactly as long as the steps meet `C` holds of all the
  outputs exactly if all steps meet `C`.
-/

namespace Ixmati

variable {σ α : Type*} (step : σ → α → Option σ)

/-- Perform a list of actions, failing if one of them is refused. -/
def runFrom : σ → List α → Option σ
  | s, [] => some s
  | s, a :: as => (step s a).bind fun s' => runFrom s' as

/-- `s` is reached from `s₀` by some list of actions. -/
def Reachable (s₀ s : σ) : Prop := ∃ as, runFrom step s₀ as = some s

/-- Every action of the run of `as` from `s` meets `C` in the state it is performed in. -/
def StepsMeet (C : σ → α → Prop) : σ → List α → Prop
  | _, [] => True
  | s, a :: as => C s a ∧ ∀ s', step s a = some s' → StepsMeet C s' as

variable {step}

theorem runFrom_cons {s s' : σ} {a : α} {as : List α} :
    runFrom step s (a :: as) = some s' ↔
      ∃ s₁, step s a = some s₁ ∧ runFrom step s₁ as = some s' := by
  simp [runFrom, Option.bind_eq_some_iff]

/-- An inductive invariant relative to a condition `C` on the steps holds at the end of every
run whose steps all meet `C`. -/
theorem invariant_of_stepsMeet {I : σ → Prop} {C : σ → α → Prop}
    (hstep : ∀ s a s', I s → C s a → step s a = some s' → I s') {s s' : σ} {as : List α}
    (h₀ : I s) (hC : StepsMeet step C s as) (h : runFrom step s as = some s') : I s' := by
  induction as generalizing s with
  | nil => cases h; exact h₀
  | cons a as ih =>
    obtain ⟨s₁, h₁, h₂⟩ := runFrom_cons.1 h
    exact ih (hstep s a s₁ h₀ hC.1 h₁) (hC.2 s₁ h₁) h₂

/-- Let `I` be kept by the steps that meet `C`, and let `P` and `C` be the same where `I` holds.  Then the
steps of a run meet the one exactly if they meet the other. -/
theorem stepsMeet_iff {I : σ → Prop} {P C : σ → α → Prop} (hiff : ∀ s a, I s → (P s a ↔ C s a))
    (hkeep : ∀ s a s', I s → C s a → step s a = some s' → I s') {s : σ} (hI : I s) (as : List α) :
    StepsMeet step P s as ↔ StepsMeet step C s as := by
  induction as generalizing s with
  | nil => exact Iff.rfl
  | cons a as ih =>
    have hafter : C s a → ((∀ s', step s a = some s' → StepsMeet step P s' as) ↔
        ∀ s', step s a = some s' → StepsMeet step C s' as) :=
      fun hC => forall_congr' fun s' => forall_congr' fun h => ih (hkeep s a s' hI hC h)
    show P s a ∧ _ ↔ C s a ∧ _
    rw [hiff s a hI]
    exact and_congr_right hafter

theorem stepsMeet_of_forall {C : σ → α → Prop} (h : ∀ s a, C s a) (s : σ) (as : List α) :
    StepsMeet step C s as := by
  induction as generalizing s with
  | nil => trivial
  | cons a as ih => exact ⟨h s a, fun s' _ => ih s'⟩

/-- One more step at the front of a run whose steps meet `C`. -/
theorem stepsMeet_cons {C : σ → α → Prop} {s s' t : σ} {a : α} {as : List α} (hC : C s a)
    (hs : step s a = some s') (h : StepsMeet step C s' as ∧ runFrom step s' as = some t) :
    StepsMeet step C s (a :: as) ∧ runFrom step s (a :: as) = some t := by
  refine ⟨⟨hC, fun s'' hs'' => ?_⟩, runFrom_cons.2 ⟨s', hs, h.2⟩⟩
  rw [hs, Option.some.injEq] at hs''
  exact hs'' ▸ h.1

/-- Whether the steps of a given run meet a condition can be evaluated. -/
instance decidableStepsMeet {C : σ → α → Prop} [∀ s a, Decidable (C s a)] :
    ∀ (s : σ) (as : List α), Decidable (StepsMeet step C s as)
  | _, [] => isTrue trivial
  | s, a :: as =>
    match h : step s a with
    | none => decidable_of_iff (C s a) ⟨fun hC => ⟨hC, by simp [h]⟩, And.left⟩
    | some s' =>
      haveI : Decidable (StepsMeet step C s' as) := decidableStepsMeet s' as
      decidable_of_iff (C s a ∧ StepsMeet step C s' as)
        (and_congr_right fun _ => ⟨fun hC t ht => by cases h.symm.trans ht; exact hC,
          fun hC => hC s' h⟩)

/-- A run that can be evaluated leads to a reachable state. -/
theorem exists_reachable {β : Type*} {f : σ → β} {s₀ : σ} {as : List α} {b : β}
    (h : (runFrom step s₀ as).map f = some b) : ∃ s, Reachable step s₀ s ∧ f s = b := by
  obtain ⟨s, hs, hb⟩ := Option.map_eq_some_iff.1 h
  exact ⟨s, ⟨as, hs⟩, hb⟩

/-- What holds initially and is kept by every step holds in every reachable state. -/
theorem Reachable.invariant {I : σ → Prop} {s₀ s : σ} (h : Reachable step s₀ s) (h₀ : I s₀)
    (hstep : ∀ s a s', I s → step s a = some s' → I s') : I s := by
  obtain ⟨as, has⟩ := h
  exact invariant_of_stepsMeet (C := fun _ _ => True) (fun s a s' hs _ => hstep s a s' hs) h₀
    (stepsMeet_of_forall (fun _ _ => trivial) _ _) has

/-! ### Outputs -/

section Outputs

variable {β : Type*}

variable (step) in
/-- What the actions of the run of `as` from `s` put out. -/
def outputs (out : σ → α → List β) : σ → List α → List β
  | _, [] => []
  | s, a :: as => out s a ++ ((step s a).map fun s' => outputs out s' as).getD []

theorem outputs_cons {out : σ → α → List β} {s s' : σ} {a : α} {as : List α} (h : step s a = some s') :
    outputs step out s (a :: as) = out s a ++ outputs step out s' as := by
  rw [outputs, h, Option.map_some, Option.getD_some]

/-- Let `P` pass to front parts, and let `I` relate the outputs so far to the state.  If each step of
the run meets `S`, and a step in which `I` holds keeps `P` exactly if it meets `C`, and then keeps `I`,
all the outputs have `P` exactly if all the steps meet `C`. -/
theorem outputs_iff {out : σ → α → List β} {P : List β → Prop} {I : List β → σ → Prop}
    {S C : σ → α → Prop} (hfront : ∀ xs ys, P (xs ++ ys) → P xs)
    (hstep : ∀ xs s a s', I xs s → P xs → S s a → step s a = some s' →
      (P (xs ++ out s a) ↔ C s a) ∧ (P (xs ++ out s a) → I (xs ++ out s a) s'))
    {xs : List β} {s s' : σ} {as : List α} (hI : I xs s) (hP : P xs) (hS : StepsMeet step S s as)
    (h : runFrom step s as = some s') :
    P (xs ++ outputs step out s as) ↔ StepsMeet step C s as := by
  induction as generalizing xs s with
  | nil => simpa [outputs, StepsMeet] using hP
  | cons a as ih =>
    obtain ⟨s₁, h₁, h₂⟩ := runFrom_cons.1 h
    obtain ⟨hiff, hkeep⟩ := hstep xs s a s₁ hI hP hS.1 h₁
    have hafter : ∀ hout : P (xs ++ out s a),
        (P (xs ++ out s a ++ outputs step out s₁ as) ↔ StepsMeet step C s₁ as) :=
      fun hout => ih (hkeep hout) hout (hS.2 s₁ h₁) h₂
    rw [outputs_cons h₁, ← List.append_assoc]
    constructor
    · intro hall
      have hout := hfront _ _ hall
      refine ⟨hiff.1 hout, fun t ht => ?_⟩
      cases h₁.symm.trans ht
      exact (hafter hout).1 hall
    · rintro ⟨hC, hrest⟩
      exact (hafter (hiff.2 hC)).2 (hrest s₁ h₁)

end Outputs

end Ixmati
