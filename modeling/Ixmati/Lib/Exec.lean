import Mathlib.Data.Nat.Notation

/-!
# Programs that fail and leave their state

A program of `EStateM ε σ` that fails leaves the state that it had reached: what it has done until then
is not undone.  These are the rules for what a program comes to, from all states with a property.

* `Returns I J x a` : from a state with `I` the program returns `a`, in a state with `J`;
* `Fails I J x` : from a state with `I` it fails, in a state with `J`;
* `Keeps I x` : it may do either, but not without `I`;
* `Ensures I x J` : it may fail, but if it returns `a` then in a state with `J a`.

Each of them goes through sequences and loops; the first statement that fails decides.

Programs of `Except ε` have no state; `except_bind_ok` says when a sequence of them returns.
-/

namespace Ixmati

namespace Exec

variable {ε σ α β : Type} {I J K : σ → Prop}

/-- The state that a program ends in. -/
def endState : EStateM.Result ε σ α → σ
  | .ok _ s => s
  | .error _ s => s

/-- The program has not failed. -/
def isOk : EStateM.Result ε σ α → Bool
  | .ok _ _ => true
  | .error _ _ => false

theorem exists_ok {r : EStateM.Result ε σ Unit} (h : isOk r = true) : ∃ s, r = .ok () s := by
  cases r with
  | ok a s => exact ⟨s, rfl⟩
  | error e s => cases h

/-- From a state with `I` the program returns `a`, in a state with `J`. -/
def Returns (I J : σ → Prop) (x : EStateM ε σ α) (a : α) : Prop :=
  ∀ s, I s → ∃ s', x.run s = .ok a s' ∧ J s'

/-- From a state with `I` the program fails, in a state with `J`. -/
def Fails (I J : σ → Prop) (x : EStateM ε σ α) : Prop :=
  ∀ s, I s → ∃ e s', x.run s = .error e s' ∧ J s'

/-- A state with `I` is left in a state with `I`. -/
def Keeps (I : σ → Prop) (x : EStateM ε σ α) : Prop := ∀ s, I s → I (endState (x.run s))

/-- If the program returns from a state with `I`, it does so with `J`. -/
def Ensures (I : σ → Prop) (x : EStateM ε σ α) (J : α → σ → Prop) : Prop :=
  ∀ s a s', I s → x.run s = .ok a s' → J a s'

/-! ### Sequences -/

theorem run_get_bind (f : σ → EStateM ε σ α) (s : σ) : (get >>= f).run s = (f s).run s := rfl

theorem run_modify_bind (g : σ → σ) (f : PUnit → EStateM ε σ α) (s : σ) :
    (modify g >>= f).run s = (f ⟨⟩).run (g s) := rfl

/-- A sequence whose first program returns. -/
theorem run_bind_ok {x : EStateM ε σ α} {a : α} {s s' : σ} (h : x.run s = .ok a s')
    (f : α → EStateM ε σ β) : (x >>= f).run s = (f a).run s' := by
  rw [EStateM.run_bind, h]

theorem Returns.pure (a : α) : Returns I I (Pure.pure a : EStateM ε σ α) a :=
  fun s hs => ⟨s, rfl, hs⟩

theorem Returns.bind {x : EStateM ε σ α} {f : α → EStateM ε σ β} {a : α} {b : β}
    (hx : Returns I J x a) (hf : Returns J K (f a) b) : Returns I K (x >>= f) b := by
  intro s hs
  obtain ⟨s₁, h₁, hs₁⟩ := hx s hs
  obtain ⟨s₂, h₂, hs₂⟩ := hf s₁ hs₁
  refine ⟨s₂, ?_, hs₂⟩
  rw [EStateM.run_bind, h₁]
  exact h₂

theorem Fails.bind {x : EStateM ε σ α} (hx : Fails I J x) (f : α → EStateM ε σ β) :
    Fails I J (x >>= f) := by
  intro s hs
  obtain ⟨e, s₁, h₁, hs₁⟩ := hx s hs
  refine ⟨e, s₁, ?_, hs₁⟩
  rw [EStateM.run_bind, h₁]

theorem Returns.bind_fails {x : EStateM ε σ α} {f : α → EStateM ε σ β} {a : α}
    (hx : Returns I J x a) (hf : Fails J K (f a)) : Fails I K (x >>= f) := by
  intro s hs
  obtain ⟨s₁, h₁, hs₁⟩ := hx s hs
  obtain ⟨e, s₂, h₂, hs₂⟩ := hf s₁ hs₁
  refine ⟨e, s₂, ?_, hs₂⟩
  rw [EStateM.run_bind, h₁]
  exact h₂

theorem Fails.mono {x : EStateM ε σ α} (hx : Fails I J x) (h : ∀ s, J s → K s) : Fails I K x := by
  intro s hs
  obtain ⟨e, s', hrun, hs'⟩ := hx s hs
  exact ⟨e, s', hrun, h s' hs'⟩

theorem Keeps.bind {x : EStateM ε σ α} {f : α → EStateM ε σ β} (hx : Keeps I x)
    (hf : ∀ a, Keeps I (f a)) : Keeps I (x >>= f) := by
  intro s hs
  have h₁ := hx s hs
  rw [EStateM.run_bind]
  cases hrun : x.run s with
  | error e s₁ =>
    rw [hrun] at h₁
    exact h₁
  | ok a s₁ =>
    rw [hrun] at h₁
    exact hf a s₁ h₁

theorem keeps_pure (a : α) : Keeps I (Pure.pure a : EStateM ε σ α) := fun _ hs => hs

theorem Ensures.pure (a : α) : Ensures I (Pure.pure a : EStateM ε σ α) fun b s => b = a ∧ I s := by
  intro s b s' hs h
  obtain ⟨rfl, rfl⟩ := EStateM.Result.ok.inj h
  exact ⟨rfl, hs⟩

theorem Ensures.bind {x : EStateM ε σ α} {f : α → EStateM ε σ β} {J : α → σ → Prop} {K : β → σ → Prop}
    (hx : Ensures I x J) (hf : ∀ a, Ensures (J a) (f a) K) : Ensures I (x >>= f) K := by
  intro s b s' hs h
  rw [EStateM.run_bind] at h
  cases hrun : x.run s with
  | error e s₁ =>
    rw [hrun] at h
    cases h
  | ok a s₁ =>
    rw [hrun] at h
    exact hf a s₁ b s' (hx s a s₁ hs hrun) h

theorem Ensures.mono {x : EStateM ε σ α} {J K : α → σ → Prop} (hx : Ensures I x J)
    (h : ∀ a s, J a s → K a s) : Ensures I x K :=
  fun s a s' hs hrun => h a s' (hx s a s' hs hrun)

/-- What does not depend on the state stays. -/
theorem Ensures.frame {x : EStateM ε σ α} {J : α → σ → Prop} (P : Prop) (hx : Ensures I x J) :
    Ensures (fun s => P ∧ I s) x fun a s => P ∧ J a s :=
  fun s a s' hs hrun => ⟨hs.1, hx s a s' hs.2 hrun⟩

theorem Returns.ensures {x : EStateM ε σ α} {a : α} (h : Returns I J x a) :
    Ensures I x fun b s => b = a ∧ J s := by
  intro s b s' hs hrun
  obtain ⟨s₁, hrun₁, hs₁⟩ := h s hs
  obtain ⟨rfl, rfl⟩ := EStateM.Result.ok.inj (hrun₁.symm.trans hrun)
  exact ⟨rfl, hs₁⟩

theorem Keeps.ensures {x : EStateM ε σ α} (h : Keeps I x) : Ensures I x fun _ s => I s := by
  intro s a s' hs hrun
  have hkept := h s hs
  rw [hrun] at hkept
  exact hkept

/-! ### Loops -/

/-- The statements of a loop, one for each element. -/
def loop (f : α → EStateM ε σ Unit) : List α → EStateM ε σ Unit
  | [] => Pure.pure ()
  | a :: l => do
    f a
    loop f l

variable {f : α → EStateM ε σ Unit} {l : List α}

theorem Returns.loop (h : ∀ a ∈ l, Returns I I (f a) ()) : Returns I I (loop f l) () := by
  induction l with
  | nil => exact Returns.pure ()
  | cons a l ih =>
    exact (h a List.mem_cons_self).bind (ih fun b hb => h b (List.mem_cons_of_mem _ hb))

/-- What each statement ensures holds at the end, if it does not depend on the state. -/
theorem Ensures.loop {F : α → Prop} (h : ∀ a ∈ l, Ensures I (f a) fun _ s => I s ∧ F a) :
    Ensures I (loop f l) fun _ s => I s ∧ ∀ a ∈ l, F a := by
  induction l with
  | nil => exact (Ensures.pure ()).mono fun _ s hs => ⟨hs.2, fun a ha => nomatch ha⟩
  | cons a l ih =>
    refine Ensures.bind (h a List.mem_cons_self) fun _ s b s' hs hrun => ?_
    have hrest := ih (fun b hb => h b (List.mem_cons_of_mem _ hb)) s b s' hs.1 hrun
    exact ⟨hrest.1, List.forall_mem_cons.2 ⟨hs.2, hrest.2⟩⟩

/-- A loop fails if one of its statements does. -/
theorem Fails.loop (h : ∀ a ∈ l, Returns I I (f a) () ∨ Fails I I (f a))
    (hfails : ∃ a ∈ l, Fails I I (f a)) : Fails I I (loop f l) := by
  induction l with
  | nil =>
    obtain ⟨a, ha, -⟩ := hfails
    cases ha
  | cons a l ih =>
    rcases h a List.mem_cons_self with hret | hfail
    · refine hret.bind_fails ?_
      obtain ⟨b, hb, hfail⟩ := hfails
      rcases List.mem_cons.1 hb with rfl | hb
      · -- the statement returns and fails at once, so nothing is to be shown
        intro s hs
        obtain ⟨s', hrun, -⟩ := hret s hs
        obtain ⟨e, s'', hrun', -⟩ := hfail s hs
        rw [hrun] at hrun'
        cases hrun'
      · exact ih (fun c hc => h c (List.mem_cons_of_mem _ hc)) ⟨b, hb, hfail⟩
    · exact hfail.bind _

/-! ### Loops with an index -/

section Index

variable {g : α × ℕ → EStateM ε σ Unit} {P : ℕ → σ → Prop}

/-- A loop whose invariant grows with the index. -/
theorem Returns.loop_zipIdx {n : ℕ}
    (h : ∀ i a, l[i]? = some a → Returns (P (n + i)) (P (n + i + 1)) (g (a, n + i)) ()) :
    Returns (P n) (P (n + l.length)) (Exec.loop g (l.zipIdx n)) () := by
  induction l generalizing n with
  | nil => exact Returns.pure ()
  | cons a l ih =>
    rw [List.zipIdx_cons, List.length_cons, Nat.add_comm l.length, ← Nat.add_assoc]
    refine Returns.bind (J := P (n + 1)) (h 0 a rfl) (ih fun i b hb => ?_)
    rw [Nat.add_assoc n 1 i, Nat.add_comm 1 i]
    exact h (i + 1) b hb

/-- Such a loop fails where the first of its statements does. -/
theorem Fails.loop_zipIdx {n : ℕ} {good : ℕ → Prop} (hbad : ∃ i < l.length, ¬ good (n + i))
    (hgood : ∀ i a, l[i]? = some a → good (n + i) →
      Returns (P (n + i)) (P (n + i + 1)) (g (a, n + i)) ())
    (hfirst : ∀ i a, l[i]? = some a → (∀ k < i, good (n + k)) → ¬ good (n + i) →
      Fails (P (n + i)) K (g (a, n + i))) :
    Fails (P n) K (Exec.loop g (l.zipIdx n)) := by
  induction l generalizing n with
  | nil =>
    obtain ⟨i, hi, -⟩ := hbad
    exact absurd hi (Nat.not_lt_zero i)
  | cons a l ih =>
    rw [List.zipIdx_cons]
    by_cases h₀ : good n
    · refine Returns.bind_fails (hgood 0 a rfl h₀) (ih ?_ ?_ ?_)
      · obtain ⟨i, hi, hnot⟩ := hbad
        cases i with
        | zero => exact absurd h₀ hnot
        | succ i =>
          refine ⟨i, Nat.lt_of_succ_lt_succ hi, ?_⟩
          rwa [Nat.add_assoc n 1 i, Nat.add_comm 1 i]
      · intro i b hb hok
        rw [Nat.add_assoc n 1 i, Nat.add_comm 1 i] at hok ⊢
        exact hgood (i + 1) b hb hok
      · intro i b hb hbefore hnot
        rw [Nat.add_assoc n 1 i, Nat.add_comm 1 i] at hnot ⊢
        refine hfirst (i + 1) b hb (fun k hk => ?_) hnot
        cases k with
        | zero => exact h₀
        | succ k =>
          have := hbefore k (Nat.lt_of_succ_lt_succ hk)
          rwa [Nat.add_assoc n 1 k, Nat.add_comm 1 k] at this
    · exact (hfirst 0 a rfl (fun k hk => absurd hk (Nat.not_lt_zero k)) h₀).bind _

end Index

end Exec

/-! ### Programs without a state -/

section Except

variable {ε α β : Type} {x : Except ε α}

theorem except_bind_ok {f : α → Except ε β} {b : β} :
    (x >>= f) = .ok b ↔ ∃ a, x = .ok a ∧ f a = .ok b := by
  cases x with
  | error e => exact iff_of_false (fun h => nomatch h) (by rintro ⟨a, ha, -⟩; cases ha)
  | ok a =>
    constructor
    · intro h
      exact ⟨a, rfl, h⟩
    · rintro ⟨a', ha, hf⟩
      cases ha
      exact hf

/-- A program that only computes with what another one returns, returns if that one does. -/
theorem exists_except_map_ok {f : α → β} :
    (∃ b, (x >>= fun a => pure (f a)) = .ok b) ↔ ∃ a, x = .ok a := by
  simp only [except_bind_ok]
  constructor
  · rintro ⟨_, a, ha, -⟩
    exact ⟨a, ha⟩
  · rintro ⟨a, ha⟩
    exact ⟨f a, a, ha, rfl⟩

end Except

end Ixmati
