import Ixmati.Lib.Potential

/-!
# Forward simulation

A concrete system is tied to an abstract one by a relation of their states.  Each concrete step is
answered by abstract actions, any number of them, so an abstract run stands beside every concrete
one.

* `Simulation step step' R` : related states stay related;
* `Simulation.runFrom` : along a whole run; `Simulation.reachable` : for reachable states;
* `reachable_map` : the case of a map of the states and at most one abstract action for a step.
-/

namespace Ixmati

variable {σ τ α β : Type*} {step : σ → α → Option σ} {step' : τ → β → Option τ} {R : σ → τ → Prop}

/-- Every step from a state related to `t` is answered by a run from `t`. -/
def Simulation (step : σ → α → Option σ) (step' : τ → β → Option τ) (R : σ → τ → Prop) : Prop :=
  ∀ s a s' t, R s t → step s a = some s' → ∃ bs t', runFrom step' t bs = some t' ∧ R s' t'

theorem Simulation.runFrom (h : Simulation step step' R) {s s' : σ} {t : τ} {as : List α} (hR : R s t)
    (hrun : runFrom step s as = some s') : ∃ bs t', Ixmati.runFrom step' t bs = some t' ∧ R s' t' := by
  induction as generalizing s t with
  | nil =>
    cases hrun
    exact ⟨[], t, rfl, hR⟩
  | cons a as ih =>
    obtain ⟨s₁, h₁, h₂⟩ := runFrom_cons.1 hrun
    obtain ⟨bs₁, t₁, hbs₁, hR₁⟩ := h s a s₁ t hR h₁
    obtain ⟨bs₂, t₂, hbs₂, hR₂⟩ := ih hR₁ h₂
    exact ⟨bs₁ ++ bs₂, t₂, runFrom_append.2 ⟨t₁, hbs₁, hbs₂⟩, hR₂⟩

theorem Simulation.reachable (h : Simulation step step' R) {s₀ s : σ} {t₀ : τ} (hR : R s₀ t₀)
    (hs : Reachable step s₀ s) : ∃ t, Reachable step' t₀ t ∧ R s t := by
  obtain ⟨as, hrun⟩ := hs
  obtain ⟨bs, t, hbs, hR'⟩ := h.runFrom hR hrun
  exact ⟨t, ⟨bs, hbs⟩, hR'⟩

/-- A map of the states is a refinement if each step from a state with the invariant `I` either is
not seen in the abstract system or is one step there. -/
theorem reachable_map {f : σ → τ} {I : σ → Prop} {s₀ s : σ} (h₀ : I s₀)
    (hkeep : ∀ s a s', I s → step s a = some s' → I s')
    (hmap : ∀ s a s', I s → step s a = some s' → f s' = f s ∨ ∃ b, step' (f s) b = some (f s'))
    (hs : Reachable step s₀ s) : Reachable step' (f s₀) (f s) := by
  have hsim : Simulation step step' fun s t => I s ∧ f s = t := by
    rintro s a s' t ⟨hI, rfl⟩ hstep
    rcases hmap s a s' hI hstep with hsame | ⟨b, hb⟩
    · exact ⟨[], f s', by rw [hsame]; rfl, hkeep s a s' hI hstep, rfl⟩
    · exact ⟨[b], f s', by simp [Ixmati.runFrom, hb], hkeep s a s' hI hstep, rfl⟩
  obtain ⟨t, ht, -, rfl⟩ := hsim.reachable ⟨h₀, rfl⟩ hs
  exact ht

end Ixmati
