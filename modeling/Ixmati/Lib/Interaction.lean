import Ixmati.Lib.Run
import Mathlib.Data.List.Forall2
import Mathlib.Data.List.Perm.Basic

/-!
# Programs that ask their environment

A program has a result, or it asks a question and goes on with the answer.  Nothing else of the
program can be seen from outside, so two programs that are equal do the same whatever the environment
answers.

* `Prog A α` : the programs with questions `q`, answers `A q` and a result in `α`;
* `Protocol A τ` : what a program may ask, and what the answers tell about what it may ask later;
* `Prog.Follows` : the program keeps to a protocol, whatever is answered, and has a result that fits;
  `Prog.follows_iff` : the same for each of its paths; `Prog.Follows.simulate` : a protocol that allows
  more;
* `Prog.exec` : a program on a state that a handler answers from; `Prog.exec_congr` : two handlers that
  agree on what is asked on the way come to the same;
* `Pool` : any number of programs run at the same time in one world, one question at a time;
* `Pool.guarded_of_reachable` : let the programs follow a protocol.  What the questions of the protocol
  keep of the world and of the states of all programs holds in every reachable pool;
* `Pool.countP_tells_le` : in a run, what a call is told of some kind is paid by the state of its protocol;
* `Pool.traced_of_reachable` : what holds of each answer when it is given, and is kept by the world, holds
  of all that the calls were told.
-/

namespace Ixmati

variable {Q : Type} {A : Q → Type} {α β ι σ τ : Type}

/-- A program. -/
inductive Prog (A : Q → Type) (α : Type) : Type where
  | ret (result : α)
  | ask (q : Q) (next : A q → Prog A α)

namespace Prog

/-- One program after the other. -/
def bind : Prog A α → (α → Prog A β) → Prog A β
  | .ret a, f => f a
  | .ask q next, f => .ask q fun answer => (next answer).bind f

instance : Monad (Prog A) where
  pure := .ret
  bind := .bind

/-- Ask a question and take the answer as the result. -/
def query (q : Q) : Prog A (A q) := .ask q .ret

@[simp] theorem pure_eq (a : α) : (pure a : Prog A α) = .ret a := rfl

@[simp] theorem ret_bind (a : α) (f : α → Prog A β) : Prog.ret a >>= f = f a := rfl

@[simp] theorem ask_bind (q : Q) (next : A q → Prog A α) (f : α → Prog A β) :
    Prog.ask q next >>= f = .ask q fun answer => next answer >>= f := rfl

@[simp] theorem query_bind (q : Q) (f : A q → Prog A β) : Prog.query q >>= f = .ask q f := rfl

theorem bind_ret (p : Prog A α) : p >>= Prog.ret = p := by
  induction p with
  | ret a => rfl
  | ask q next ih =>
    rw [ask_bind]
    exact congrArg (Prog.ask q) (funext ih)

theorem bind_assoc (p : Prog A α) {γ : Type} (f : α → Prog A β) (g : β → Prog A γ) :
    p >>= f >>= g = p >>= fun a => f a >>= g := by
  induction p with
  | ret a => rfl
  | ask q next ih =>
    simp only [ask_bind]
    exact congrArg (Prog.ask q) (funext ih)

instance : LawfulMonad (Prog A) :=
  LawfulMonad.mk' _ (fun p => bind_ret p) (fun _ _ => rfl) (fun p f g => bind_assoc p f g)

@[simp] theorem map_ret (f : α → β) (a : α) : f <$> (Prog.ret a : Prog A α) = .ret (f a) := rfl

@[simp] theorem map_ask (f : α → β) (q : Q) (next : A q → Prog A α) :
    f <$> Prog.ask q next = .ask q fun answer => f <$> next answer := rfl

/-- The program is not done. -/
def running : Prog A α → Bool
  | .ret _ => false
  | .ask .. => true

/-- The result, if the program is done. -/
def result? : Prog A α → Option α
  | .ret a => some a
  | .ask .. => none

theorem eq_ret_of_result? {p : Prog A α} {a : α} (h : p.result? = some a) : p = .ret a := by
  cases p with
  | ret b =>
    cases h
    rfl
  | ask q next => cases h

/-- The result of a program in a world that answers each question always the same. -/
def eval (answer : ∀ q, A q) : Prog A α → α
  | .ret a => a
  | .ask q next => (next (answer q)).eval answer

/-- The exchanges lead from one program to the other. -/
inductive Path : Prog A α → List (Sigma A) → Prog A α → Prop
  | nil (p : Prog A α) : Path p [] p
  | cons {q : Q} {next : A q → Prog A α} {p : Prog A α} {es : List (Sigma A)} (answer : A q)
    (h : Path (next answer) es p) : Path (.ask q next) (⟨q, answer⟩ :: es) p

end Prog

/-! ### Protocols -/

/-- What may be asked, in states that the answers change. -/
structure Protocol (A : Q → Type) (τ : Type) where
  allowed : τ → Q → Prop
  next : τ → (q : Q) → A q → τ

/-- The state after some exchanges. -/
def Protocol.after (P : Protocol A τ) (s : τ) (es : List (Sigma A)) : τ :=
  es.foldl (fun s e => P.next s e.1 e.2) s

/-- Two protocols at once. -/
def Protocol.both {τ' : Type} (P : Protocol A τ) (P' : Protocol A τ') : Protocol A (τ × τ') where
  allowed s q := P.allowed s.1 q ∧ P'.allowed s.2 q
  next s q answer := (P.next s.1 q answer, P'.next s.2 q answer)

namespace Prog

variable {P : Protocol A τ} {post : τ → α → Prop} {s : τ} {p p' : Prog A α}
  {es : List (Sigma A)}

/-- From the state on, the program keeps to the protocol, and its result fits the last state. -/
def Follows (P : Protocol A τ) (post : τ → α → Prop) : τ → Prog A α → Prop
  | s, .ret a => post s a
  | s, .ask q next => P.allowed s q ∧ ∀ answer, Follows P post (P.next s q answer) (next answer)

@[simp] theorem follows_ret {a : α} : Follows P post s (.ret a) ↔ post s a := Iff.rfl

@[simp] theorem follows_ask {q : Q} {next : A q → Prog A α} :
    Follows P post s (.ask q next) ↔
      P.allowed s q ∧ ∀ answer, Follows P post (P.next s q answer) (next answer) := Iff.rfl

theorem Follows.bind {post' : τ → β → Prop} {f : α → Prog A β} (h : Follows P post s p)
    (hf : ∀ s a, post s a → Follows P post' s (f a)) : Follows P post' s (p >>= f) := by
  induction p generalizing s with
  | ret a => exact hf s a h
  | ask q next ih => exact ⟨h.1, fun answer => ih answer (h.2 answer)⟩

theorem Follows.mono {post' : τ → α → Prop} (h : Follows P post s p)
    (himp : ∀ s a, post s a → post' s a) : Follows P post' s p := by
  induction p generalizing s with
  | ret a => exact himp s a h
  | ask q next ih => exact ⟨h.1, fun answer => ih answer (h.2 answer)⟩

theorem Follows.map {post' : τ → β → Prop} {f : α → β} (h : Follows P post s p)
    (hf : ∀ s a, post s a → post' s (f a)) : Follows P post' s (f <$> p) := by
  rw [map_eq_pure_bind]
  exact h.bind fun s a ha => hf s a ha

/-- Two views of the result are one if they agree on the results that the program can have. -/
theorem Follows.map_congr {f g : α → β} (h : Follows P post s p) (hfg : ∀ s a, post s a → f a = g a) :
    f <$> p = g <$> p := by
  induction p generalizing s with
  | ret a => rw [map_ret, map_ret, hfg s a h]
  | ask q next ih =>
    rw [map_ask, map_ask]
    exact congrArg (Prog.ask q) (funext fun answer => ih answer (h.2 answer))

/-- What is left of a program after some exchanges follows the protocol from the state after them. -/
theorem Follows.path (h : Follows P post s p) (hpath : Path p es p') :
    Follows P post (P.after s es) p' := by
  induction hpath generalizing s with
  | nil => exact h
  | cons answer _ ih => exact ih (h.2 answer)

/-- The program may do what it does next. -/
def FitsAt (P : Protocol A τ) (post : τ → α → Prop) (s : τ) : Prog A α → Prop
  | .ret a => post s a
  | .ask q _ => P.allowed s q

/-- A program follows a protocol exactly if it fits at the end of each of its paths. -/
theorem follows_iff :
    Follows P post s p ↔ ∀ es p', Path p es p' → FitsAt P post (P.after s es) p' := by
  constructor
  · intro h es p' hpath
    have hleft := h.path hpath
    cases p' with
    | ret a => exact hleft
    | ask q next => exact hleft.1
  · intro h
    induction p generalizing s with
    | ret a => exact h [] _ (.nil _)
    | ask q next ih =>
      exact ⟨h [] _ (.nil _), fun answer => ih answer fun es p' hpath => h _ p' (.cons answer hpath)⟩

/-- A protocol that allows at least as much, up to a relation of the states. -/
theorem Follows.simulate {τ' : Type} {P' : Protocol A τ'} {post' : τ' → α → Prop} {R : τ → τ' → Prop}
    {s' : τ'} (hallowed : ∀ s s' q, R s s' → P.allowed s q → P'.allowed s' q)
    (hnext : ∀ s s' q answer, R s s' → P.allowed s q → R (P.next s q answer) (P'.next s' q answer))
    (hpost : ∀ s s' a, R s s' → post s a → post' s' a) (hR : R s s') (h : Follows P post s p) :
    Follows P' post' s' p := by
  induction p generalizing s s' with
  | ret a => exact hpost s s' a hR h
  | ask q next ih =>
    exact ⟨hallowed s s' q hR h.1, fun answer => ih answer (hnext s s' q answer hR h.1) (h.2 answer)⟩

theorem Follows.both {τ' : Type} {P' : Protocol A τ'} {post' : τ' → α → Prop} {s' : τ'}
    (h : Follows P post s p) (h' : Follows P' post' s' p) :
    Follows (P.both P') (fun s a => post s.1 a ∧ post' s.2 a) (s, s') p := by
  induction p generalizing s s' with
  | ret a => exact ⟨h, h'⟩
  | ask q next ih => exact ⟨⟨h.1, h'.1⟩, fun answer => ih answer (h.2 answer) (h'.2 answer)⟩

/-- One more exchange. -/
theorem Path.concat {q : Q} {next : A q → Prog A α} (h : Path p es (.ask q next)) (answer : A q) :
    Path p (es ++ [⟨q, answer⟩]) (next answer) := by
  generalize hlast : Prog.ask q next = last at h
  induction h with
  | nil p =>
    subst hlast
    exact .cons answer (.nil _)
  | cons answer' _ ih => exact .cons answer' (ih hlast)

/-- The program may ask anything, and its result fits the exchanges so far. -/
def Rests (post : List (Sigma A) → α → Prop) (es : List (Sigma A)) (p : Prog A α) : Prop :=
  p.Follows ⟨fun _ _ => True, fun es q answer => es ++ [⟨q, answer⟩]⟩ post es

theorem rests_ret {post : List (Sigma A) → α → Prop} {a : α} (h : post es a) :
    (Prog.ret a : Prog A α).Rests post es := h

theorem rests_ask {post : List (Sigma A) → α → Prop} {q : Q} {next : A q → Prog A α}
    (h : ∀ answer, (next answer).Rests post (es ++ [⟨q, answer⟩])) :
    (Prog.ask q next).Rests post es := ⟨trivial, h⟩

/-- Every result fits. -/
theorem rests_map {post : List (Sigma A) → β → Prop} {f : α → β} (h : ∀ es a, post es (f a))
    (p : Prog A α) (es : List (Sigma A)) : (f <$> p).Rests post es := by
  induction p generalizing es with
  | ret a => exact h es a
  | ask q next ih => exact rests_ask fun answer => ih answer _

/-- A result rests on the exchanges that led to it. -/
theorem Rests.path {post : List (Sigma A) → α → Prop} {es' : List (Sigma A)} {a : α}
    (h : p.Rests post es') (hpath : Path p es (.ret a)) : post (es' ++ es) a := by
  generalize hlast : Prog.ret a = last at hpath
  induction hpath generalizing es' with
  | nil p =>
    subst hlast
    rw [List.append_nil]
    exact h
  | cons answer _ ih =>
    rw [List.append_cons]
    exact ih (h.2 answer) hlast

/-- Whatever is answered, the result fits. -/
def Returns (p : Prog A α) (post : α → Prop) : Prop :=
  p.Follows ⟨fun _ _ => True, fun _ _ _ => ()⟩ (fun _ => post) ()

theorem returns_ret {post : α → Prop} {a : α} (h : post a) : (Prog.ret a : Prog A α).Returns post := h

theorem returns_ask {post : α → Prop} {q : Q} {next : A q → Prog A α}
    (h : ∀ answer, (next answer).Returns post) : (Prog.ask q next).Returns post := ⟨trivial, h⟩

end Prog

/-! ### Handlers -/

namespace Prog

variable {handle handle' : σ → (q : Q) → A q × σ} {ok : Q → Prop} {s : σ} {p : Prog A α}

/-- The result of a program and the state that it leaves, when a handler answers from the state. -/
def exec (handle : σ → (q : Q) → A q × σ) : σ → Prog A α → α × σ
  | s, .ret a => (a, s)
  | s, .ask q next => exec handle (handle s q).2 (next (handle s q).1)

@[simp] theorem exec_ret (s : σ) (a : α) : exec handle s (.ret a) = (a, s) := rfl

@[simp] theorem exec_ask (s : σ) (q : Q) (next : A q → Prog A α) :
    exec handle s (.ask q next) = exec handle (handle s q).2 (next (handle s q).1) := rfl

@[simp] theorem exec_query (s : σ) (q : Q) : exec handle s (query q) = handle s q := rfl

theorem exec_bind (s : σ) (p : Prog A α) (f : α → Prog A β) :
    exec handle s (p >>= f) = exec handle (exec handle s p).2 (f (exec handle s p).1) := by
  induction p generalizing s with
  | ret a => rfl
  | ask q next ih => exact ih _ _

/-- All that a program asks in a run satisfies `ok`. -/
def Asks (ok : Q → Prop) (handle : σ → (q : Q) → A q × σ) : σ → Prog A α → Prop
  | _, .ret _ => True
  | s, .ask q next => ok q ∧ Asks ok handle (handle s q).2 (next (handle s q).1)

@[simp] theorem asks_ret (a : α) : Asks ok handle s (.ret a) := trivial

@[simp] theorem asks_query {q : Q} : Asks ok handle s (query q) ↔ ok q := and_iff_left trivial

theorem asks_bind {f : α → Prog A β} :
    Asks ok handle s (p >>= f) ↔
      Asks ok handle s p ∧ Asks ok handle (exec handle s p).2 (f (exec handle s p).1) := by
  induction p generalizing s with
  | ret a => exact (and_iff_right trivial).symm
  | ask q next ih =>
    show ok q ∧ Asks ok handle _ (next _ >>= f) ↔ (ok q ∧ _) ∧ _
    rw [ih, and_assoc]
    rfl

/-- Handlers that agree on what is asked on the way come to the same. -/
theorem exec_congr (h : Asks ok handle s p) (hok : ∀ s q, ok q → handle' s q = handle s q) :
    exec handle' s p = exec handle s p := by
  induction p generalizing s with
  | ret a => rfl
  | ask q next ih =>
    rw [exec_ask, hok s q h.1]
    exact ih _ h.2

section Loop

variable {ι : Type} {f : ι → Prog A Unit} {g : σ → ι → σ} {I : σ → Prop} {xs : List ι}

/-- A loop whose rounds are known in the states that they meet. -/
theorem exec_forM (h : ∀ x ∈ xs, ∀ s, I s → exec handle s (f x) = ((), g s x) ∧ I (g s x))
    (hs : I s) : exec handle s (forM xs f) = ((), xs.foldl g s) := by
  induction xs generalizing s with
  | nil => rfl
  | cons x xs ih =>
    obtain ⟨hx, hkeep⟩ := h x List.mem_cons_self s hs
    rw [List.forM_cons, exec_bind, hx, List.foldl_cons]
    exact ih (fun y hy => h y (List.mem_cons_of_mem _ hy)) hkeep

theorem asks_forM (h : ∀ x ∈ xs, ∀ s, I s → exec handle s (f x) = ((), g s x) ∧ I (g s x))
    (hok : ∀ x ∈ xs, ∀ s, I s → Asks ok handle s (f x)) (hs : I s) :
    Asks ok handle s (forM xs f) := by
  induction xs generalizing s with
  | nil => trivial
  | cons x xs ih =>
    obtain ⟨hx, hkeep⟩ := h x List.mem_cons_self s hs
    rw [List.forM_cons, asks_bind, hx]
    exact ⟨hok x List.mem_cons_self s hs, ih (fun y hy => h y (List.mem_cons_of_mem _ hy))
      (fun y hy => hok y (List.mem_cons_of_mem _ hy)) hkeep⟩

end Loop

end Prog

/-! ### Many programs -/

/-- How a world answers, with the choices that it has, and what happens in it besides. -/
structure World (A : Q → Type) (σ : Type) where
  Choice : Q → Type
  answer : σ → (q : Q) → Choice q → Option (A q × σ)
  Event : Type
  outside : σ → Event → Option σ

/-- A call: what it was started with, and what is left of its program. -/
structure Call (A : Q → Type) (ι α : Type) where
  input : ι
  prog : Prog A α

/-- A world with the calls that run in it. -/
structure Pool (A : Q → Type) (σ ι α : Type) where
  world : σ
  calls : List (Call A ι α)

namespace Pool

variable {W : World A σ} {serve : ι → Prog A α}

/-- The steps of a pool. -/
inductive Action (W : World A σ) (ι : Type) where
  | start (input : ι)
  /-- The question of a call is answered. -/
  | answer (i : ℕ) (choice : ∀ q, W.Choice q)
  | outside (event : W.Event)

/-- One step. -/
def step (W : World A σ) (serve : ι → Prog A α) (pool : Pool A σ ι α) :
    Action W ι → Option (Pool A σ ι α)
  | .start input => some { pool with calls := pool.calls ++ [⟨input, serve input⟩] }
  | .answer i choice =>
    match pool.calls[i]? with
    | some ⟨input, .ask q next⟩ =>
      (W.answer pool.world q (choice q)).map fun (answer, world) =>
        ⟨world, pool.calls.set i ⟨input, next answer⟩⟩
    | _ => none
  | .outside event => (W.outside pool.world event).map fun world => { pool with world := world }

/-- What a step can do, by cases. -/
inductive Moves (W : World A σ) (serve : ι → Prog A α) (pool : Pool A σ ι α) :
    Action W ι → Pool A σ ι α → Prop
  | start (input : ι) :
    Moves W serve pool (.start input) { pool with calls := pool.calls ++ [⟨input, serve input⟩] }
  | answer {i : ℕ} {choice : ∀ q, W.Choice q} {input : ι} {q : Q} {next : A q → Prog A α}
    {answer : A q} {world : σ} (hcall : pool.calls[i]? = some ⟨input, .ask q next⟩)
    (hanswer : W.answer pool.world q (choice q) = some (answer, world)) :
    Moves W serve pool (.answer i choice) ⟨world, pool.calls.set i ⟨input, next answer⟩⟩
  | outside {event : W.Event} {world : σ} (h : W.outside pool.world event = some world) :
    Moves W serve pool (.outside event) { pool with world := world }

theorem moves_of_step {pool pool' : Pool A σ ι α} {a : Action W ι}
    (h : step W serve pool a = some pool') : Moves W serve pool a pool' := by
  cases a with
  | start input =>
    cases h
    exact .start input
  | answer i choice =>
    simp only [step] at h
    split at h
    · rename_i input q next hcall
      obtain ⟨⟨answer, world⟩, hanswer, rfl⟩ := Option.map_eq_some_iff.1 h
      exact .answer hcall hanswer
    · cases h
  | outside event =>
    obtain ⟨world, houtside, rfl⟩ := Option.map_eq_some_iff.1 h
    exact .outside houtside

theorem forall₂_set {β γ : Type} {R : β → γ → Prop} {xs : List β} {ys : List γ}
    (h : List.Forall₂ R xs ys) {i : ℕ} {x : β} {y : γ} (hxy : R x y) :
    List.Forall₂ R (xs.set i x) (ys.set i y) := by
  induction h generalizing i with
  | nil => exact .nil
  | cons hab htail ih =>
    cases i with
    | zero => exact .cons hxy htail
    | succ i => exact .cons hab ih

theorem exists_getElem?_of_forall₂ {β γ : Type} {R : β → γ → Prop} {xs : List β} {ys : List γ}
    (h : List.Forall₂ R xs ys) {i : ℕ} {y : γ} (hy : ys[i]? = some y) :
    ∃ x, xs[i]? = some x ∧ R x y := by
  induction h generalizing i with
  | nil => simp at hy
  | cons hab htail ih =>
    cases i with
    | zero =>
      rw [List.getElem?_cons_zero, Option.some.injEq] at hy
      exact ⟨_, rfl, hy ▸ hab⟩
    | succ i => exact ih hy

/-- To change one state is to change the first one of the same states in another order. -/
theorem exists_perm_set {β : Type} {xs : List β} {i : ℕ} {x : β} (h : xs[i]? = some x) :
    ∃ rest, xs.Perm (x :: rest) ∧ ∀ y, (xs.set i y).Perm (y :: rest) := by
  obtain ⟨hi, rfl⟩ := List.getElem?_eq_some_iff.1 h
  exact ⟨xs.eraseIdx i, (List.getElem_cons_eraseIdx_perm hi).symm,
    fun y => List.set_perm_cons_eraseIdx hi y⟩

/-! ### The rule for pools -/

section Rule

variable {P : ι → Protocol A τ} {post : ι → τ → α → Prop} {init : ι → τ}
  {I I' : σ → List (ι × τ) → Prop} {pool pool' : Pool A σ ι α} {a : Action W ι}

/-- The call is where the state says. -/
def IsAt (P : ι → Protocol A τ) (post : ι → τ → α → Prop) (s : ι × τ) (c : Call A ι α) : Prop :=
  s.1 = c.input ∧ c.prog.Follows (P c.input) (post c.input) s.2

/-- The calls are where the states say, and `I` relates the world and these states. -/
def Guarded (P : ι → Protocol A τ) (post : ι → τ → α → Prop) (I : σ → List (ι × τ) → Prop)
    (pool : Pool A σ ι α) : Prop :=
  ∃ states, List.Forall₂ (IsAt P post) states pool.calls ∧ I pool.world states

/-- One step, of whose questions the protocol is known. -/
theorem guarded_step (hserve : ∀ input, (serve input).Follows (P input) (post input) (init input))
    (hstart : ∀ world states input, I world states → I' world (states ++ [(input, init input)]))
    (hanswer : ∀ world states i input s q choice answer world', I world states →
      states[i]? = some (input, s) → (P input).allowed s q →
      W.answer world q choice = some (answer, world') →
      I' world' (states.set i (input, (P input).next s q answer)))
    (houtside : ∀ world states event world', I world states → W.outside world event = some world' →
      I' world' states)
    (hpool : Guarded P post I pool) (h : step W serve pool a = some pool') : Guarded P post I' pool' := by
  obtain ⟨states, hcalls, hI⟩ := hpool
  cases moves_of_step h with
  | start input =>
    exact ⟨states ++ [(input, init input)],
      List.rel_append hcalls (.cons ⟨rfl, hserve input⟩ .nil), hstart _ _ _ hI⟩
  | @answer i choice input q next answer world hcall hans =>
    obtain ⟨⟨_, s⟩, hs, heq, hfollows⟩ := exists_getElem?_of_forall₂ hcalls hcall
    cases heq
    exact ⟨states.set i (input, (P input).next s q answer),
      forall₂_set hcalls ⟨rfl, hfollows.2 answer⟩, hanswer _ _ _ _ _ _ _ _ _ hI hs hfollows.1 hans⟩
  | outside houts => exact ⟨states, hcalls, houtside _ _ _ _ hI houts⟩

theorem guarded_of_reachable
    (hserve : ∀ input, (serve input).Follows (P input) (post input) (init input))
    (hstart : ∀ world states input, I world states → I world (states ++ [(input, init input)]))
    (hanswer : ∀ world states i input s q choice answer world', I world states →
      states[i]? = some (input, s) → (P input).allowed s q →
      W.answer world q choice = some (answer, world') →
      I world' (states.set i (input, (P input).next s q answer)))
    (houtside : ∀ world states event world', I world states → W.outside world event = some world' →
      I world' states)
    {world : σ} (hI : I world []) (hreach : Reachable (step W serve) ⟨world, []⟩ pool) :
    Guarded P post I pool :=
  hreach.invariant ⟨[], .nil, hI⟩ fun _ _ _ hpool h =>
    guarded_step hserve hstart hanswer houtside hpool h

end Rule

/-! ### What the calls pay for -/

section Paid

variable {P : ι → Protocol A τ} {post : ι → τ → α → Prop} {init : ι → τ} {C : σ → Prop}
  {p : Sigma A → Bool} {due : τ → ℕ} {states : List (ι × τ)} {pool pool' : Pool A σ ι α}
  {a : Action W ι} {as : List (Action W ι)}

/-- What a call is told in a step, with the position of the call. -/
def tells (W : World A σ) (pool : Pool A σ ι α) : Action W ι → List (ℕ × Sigma A)
  | .answer i choice =>
    match pool.calls[i]? with
    | some ⟨_, .ask q _⟩ =>
      ((W.answer pool.world q (choice q)).map fun (answer, _) => (i, ⟨q, answer⟩)).toList
    | _ => []
  | _ => []

/-- What the state of the call at a position is worth. -/
def dueAt (due : τ → ℕ) (states : List (ι × τ)) (i : ℕ) : ℕ :=
  ((states[i]?).map fun s => due s.2).getD 0

/-- One step: what is told is paid by the state of the call that is told it. -/
theorem paid_step (hserve : ∀ input, (serve input).Follows (P input) (post input) (init input))
    (hinit : ∀ input, due (init input) = 0)
    (hpay : ∀ world input s q choice answer world', C world → (P input).allowed s q →
      W.answer world q choice = some (answer, world') →
      (if p ⟨q, answer⟩ then 1 else 0) + due ((P input).next s q answer) ≤ due s)
    (hcalls : List.Forall₂ (IsAt P post) states pool.calls) (hC : C pool.world)
    (h : step W serve pool a = some pool') :
    ∃ states', List.Forall₂ (IsAt P post) states' pool'.calls ∧ ∀ i,
      (tells W pool a).countP (fun x => x.1 == i && p x.2) + dueAt due states' i ≤
        dueAt due states i := by
  cases moves_of_step h with
  | start input =>
    refine ⟨states ++ [(input, init input)],
      List.rel_append hcalls (.cons ⟨rfl, hserve input⟩ .nil), fun i => ?_⟩
    show 0 + dueAt due _ i ≤ _
    rw [Nat.zero_add]
    unfold dueAt
    rcases Nat.lt_trichotomy i states.length with hi | rfl | hi
    · simp only [List.getElem?_append_left hi, Nat.le_refl]
    · simp [hinit]
    · rw [List.getElem?_eq_none (by simp only [List.length_append, List.length_singleton]; omega)]
      exact Nat.zero_le _
  | @answer j choice input q next answer world hcall hans =>
    obtain ⟨⟨_, s⟩, hs, heq, hfollows⟩ := exists_getElem?_of_forall₂ hcalls hcall
    cases heq
    have htells : tells W pool (.answer j choice) = [(j, ⟨q, answer⟩)] := by
      simp [tells, hcall, hans]
    refine ⟨states.set j (input, (P input).next s q answer),
      forall₂_set hcalls ⟨rfl, hfollows.2 answer⟩, fun i => ?_⟩
    rw [htells, List.countP_singleton]
    by_cases hij : j = i
    · subst hij
      have hlt := (List.getElem?_eq_some_iff.1 hs).1
      have hle := hpay _ _ _ _ _ _ _ hC hfollows.1 hans
      rw [dueAt, dueAt, List.getElem?_set_self hlt, hs]
      simpa using hle
    · rw [dueAt, dueAt, List.getElem?_set_ne hij]
      simp [hij]
  | outside houts => exact ⟨states, hcalls, fun i => Nat.le_of_eq (Nat.zero_add _)⟩

/-- **Each call pays for what it is told**: let a question of a kind cost one, and let no answer add to
what the state of the protocol is worth, while the world has `C`.  Then each call is told no more of the
kind than its state was worth, and calls that are started later nothing. -/
theorem countP_tells_le (hserve : ∀ input, (serve input).Follows (P input) (post input) (init input))
    (hinit : ∀ input, due (init input) = 0)
    (hpay : ∀ world input s q choice answer world', C world → (P input).allowed s q →
      W.answer world q choice = some (answer, world') →
      (if p ⟨q, answer⟩ then 1 else 0) + due ((P input).next s q answer) ≤ due s)
    (hcalls : List.Forall₂ (IsAt P post) states pool.calls)
    (hC : StepsMeet (step W serve) (fun pool _ => C pool.world) pool as)
    (hrun : runFrom (step W serve) pool as = some pool') (i : ℕ) :
    (outputs (step W serve) (tells W) pool as).countP (fun x => x.1 == i && p x.2) ≤
      dueAt due states i := by
  induction as generalizing pool states with
  | nil => exact Nat.zero_le _
  | cons a as ih =>
    obtain ⟨pool₁, hstep, hrest⟩ := runFrom_cons.1 hrun
    obtain ⟨states', hcalls', hpaid⟩ := paid_step hserve hinit hpay hcalls hC.1 hstep
    rw [outputs_cons hstep, List.countP_append]
    exact Nat.le_trans (Nat.add_le_add_left (ih hcalls' (hC.2 _ hstep) hrest) _) (hpaid i)

end Paid

/-! ### What the calls were told -/

section Traced

variable {B : σ → Sigma A → Prop} {I : σ → Prop} {n : ℕ} {pool pool' : Pool A σ ι α}

/-- The world has `I`, and all that the calls from the `n`-th on were told has `B` in it. -/
structure Traced (serve : ι → Prog A α) (I : σ → Prop) (B : σ → Sigma A → Prop) (n : ℕ)
    (pool : Pool A σ ι α) : Prop where
  world : I pool.world
  length : n ≤ pool.calls.length
  calls : ∀ i call, n ≤ i → pool.calls[i]? = some call →
    ∃ es, (serve call.input).Path es call.prog ∧ ∀ e ∈ es, B pool.world e

theorem traced_self (hI : I pool.world) : Traced serve I B pool.calls.length pool where
  world := hI
  length := Nat.le_refl _
  calls _ _ hi hcall := absurd (List.getElem?_eq_some_iff.1 hcall).1 (Nat.not_lt.2 hi)

theorem traced_step
    (hanswer : ∀ w q choice answer w', I w → W.answer w q choice = some (answer, w') →
      I w' ∧ B w' ⟨q, answer⟩ ∧ ∀ e, B w e → B w' e)
    (houtside : ∀ w event w', I w → W.outside w event = some w' → I w' ∧ ∀ e, B w e → B w' e)
    {a : Action W ι} (hpool : Traced serve I B n pool) (h : step W serve pool a = some pool') :
    Traced serve I B n pool' := by
  cases moves_of_step h with
  | start input =>
    refine ⟨hpool.world, Nat.le_trans hpool.length (by simp), fun i call hi hcall => ?_⟩
    rcases Nat.lt_or_ge i pool.calls.length with hlt | hge
    · rw [List.getElem?_append_left hlt] at hcall
      exact hpool.calls i call hi hcall
    · rw [List.getElem?_append_right hge] at hcall
      have hnew : call = ⟨input, serve input⟩ := by
        obtain ⟨_, hmem⟩ := List.getElem?_eq_some_iff.1 hcall
        rw [List.getElem_singleton] at hmem
        exact hmem.symm
      subst hnew
      exact ⟨[], .nil _, by simp⟩
  | @answer i choice input q next answer world hasked hans =>
    obtain ⟨hworld, hB, hkeep⟩ := hanswer _ _ _ _ _ hpool.world hans
    refine ⟨hworld, by simpa using hpool.length, fun j call hj hcall => ?_⟩
    rcases eq_or_ne i j with rfl | hne
    · obtain ⟨es, hpath, hes⟩ := hpool.calls i _ hj hasked
      have hlt := (List.getElem?_eq_some_iff.1 hasked).1
      rw [List.getElem?_set_self hlt, Option.some.injEq] at hcall
      subst hcall
      refine ⟨es ++ [⟨q, answer⟩], hpath.concat answer, fun e he => ?_⟩
      rcases List.mem_append.1 he with he | he
      · exact hkeep e (hes e he)
      · rw [List.mem_singleton.1 he]
        exact hB
    · rw [List.getElem?_set_ne hne] at hcall
      obtain ⟨es, hpath, hes⟩ := hpool.calls j call hj hcall
      exact ⟨es, hpath, fun e he => hkeep e (hes e he)⟩
  | outside houts =>
    obtain ⟨hworld, hkeep⟩ := houtside _ _ _ hpool.world houts
    refine ⟨hworld, hpool.length, fun i call hi hcall => ?_⟩
    obtain ⟨es, hpath, hes⟩ := hpool.calls i call hi hcall
    exact ⟨es, hpath, fun e he => hkeep e (hes e he)⟩

/-- **What the calls are told**: let each answer have `B` when it is given, and let `B` be kept by the
world.  Then all that the calls were told that were started since a state of the pool has `B` later on. -/
theorem traced_of_reachable
    (hanswer : ∀ w q choice answer w', I w → W.answer w q choice = some (answer, w') →
      I w' ∧ B w' ⟨q, answer⟩ ∧ ∀ e, B w e → B w' e)
    (houtside : ∀ w event w', I w → W.outside w event = some w' → I w' ∧ ∀ e, B w e → B w' e)
    (hI : I pool.world) (hreach : Reachable (step W serve) pool pool') :
    Traced serve I B pool.calls.length pool' :=
  hreach.invariant (traced_self hI) fun _ _ _ hpool h => traced_step hanswer houtside hpool h

end Traced

end Pool

end Ixmati
