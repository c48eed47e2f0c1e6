import Mathlib.Data.List.Infix

/-!
# Topics of MQTT

A topic name is a sequence of levels, separated by slashes.  In a topic filter the level `+` stands for
any one level, and `#`, which may only be the last level, for any number of levels, also none.

* `Topic.Matches` : the filter matches the name; `Topic.matchLevels` decides it;
* `Topic.matches_append_iff` : levels that are no wildcards stand for themselves;
* `Topic.WellFormed` : where wildcards may stand in a filter.
-/

namespace Ixmati

namespace Topic

/-- A level of a name or of a filter. -/
abbrev Level := List Char

/-- The levels. -/
def levels (text : List Char) : List Level := text.splitOn '/'

/-- The level is a wildcard. -/
def IsWildcard (l : Level) : Prop := l = ['+'] ∨ l = ['#']

instance (l : Level) : Decidable (IsWildcard l) := inferInstanceAs (Decidable (_ ∨ _))

/-- The filter matches the name. -/
inductive Matches : List Level → List Level → Prop
  | nil : Matches [] []
  | rest (name : List Level) : Matches [['#']] name
  | any {filter name : List Level} (l : Level) (h : Matches filter name) :
    Matches (['+'] :: filter) (l :: name)
  | level {filter name : List Level} {l : Level} (hl : ¬ IsWildcard l) (h : Matches filter name) :
    Matches (l :: filter) (l :: name)

/-- Does the filter match the name? -/
def matchLevels : List Level → List Level → Bool
  | [], name => name.isEmpty
  | l :: filter, name =>
    if l = ['#'] then filter.isEmpty
    else
      match name with
      | [] => false
      | m :: name => (l = ['+'] || l = m) && matchLevels filter name

/-- A wildcard is a level of its own, and `#` the last one. -/
def WellFormed : List Level → Prop
  | [] => True
  | l :: filter =>
    (('+' ∈ l ∨ '#' ∈ l) → IsWildcard l) ∧ (l = ['#'] → filter = []) ∧ WellFormed filter

instance : (filter : List Level) → Decidable (WellFormed filter)
  | [] => isTrue trivial
  | l :: filter =>
    have : Decidable (WellFormed filter) := instDecidableWellFormed filter
    inferInstanceAs (Decidable (((_ ∨ _) → IsWildcard l) ∧ (l = ['#'] → filter = []) ∧ _))

section Matches

variable {filter name front : List Level} {l m : Level}

theorem matches_hash_iff : Matches (['#'] :: filter) name ↔ filter = [] := by
  constructor
  · intro h
    cases h with
    | rest => rfl
    | level hl => exact absurd (Or.inr rfl) hl
  · rintro rfl
    exact .rest name

theorem matches_plus_iff : Matches (['+'] :: filter) (m :: name) ↔ Matches filter name := by
  constructor
  · intro h
    cases h with
    | any l h => exact h
    | level hl => exact absurd (Or.inl rfl) hl
  · exact .any m

theorem matches_level_iff (hl : ¬ IsWildcard l) :
    Matches (l :: filter) (m :: name) ↔ l = m ∧ Matches filter name := by
  constructor
  · intro h
    cases h with
    | rest => exact absurd (Or.inr rfl) hl
    | any => exact absurd (Or.inl rfl) hl
    | level _ h => exact ⟨rfl, h⟩
  · rintro ⟨rfl, h⟩
    exact .level hl h

theorem not_matches_nil (hl : l ≠ ['#']) : ¬ Matches (l :: filter) [] := by
  intro h
  cases h
  exact hl rfl

theorem matchLevels_iff : matchLevels filter name = true ↔ Matches filter name := by
  induction filter generalizing name with
  | nil =>
    rw [matchLevels, List.isEmpty_iff]
    constructor
    · rintro rfl
      exact .nil
    · intro h
      cases h
      rfl
  | cons l filter ih =>
    unfold matchLevels
    split_ifs with hhash
    · rw [hhash, matches_hash_iff, List.isEmpty_iff]
    · cases name with
      | nil => simp [not_matches_nil hhash]
      | cons m name =>
        simp only [Bool.and_eq_true, Bool.or_eq_true, decide_eq_true_eq, ih]
        by_cases hplus : l = ['+']
        · rw [hplus, matches_plus_iff]
          simp
        · rw [matches_level_iff (by rintro (h | h) <;> contradiction)]
          simp [hplus]

instance (filter name : List Level) : Decidable (Matches filter name) :=
  decidable_of_iff _ matchLevels_iff

/-- Levels that are no wildcards stand for themselves. -/
theorem matches_append_iff (hfront : ∀ l ∈ front, ¬ IsWildcard l) :
    Matches (front ++ filter) name ↔ ∃ rest, name = front ++ rest ∧ Matches filter rest := by
  induction front generalizing name with
  | nil => simp
  | cons l front ih =>
    have hl : ¬ IsWildcard l := hfront l (List.mem_cons_self ..)
    have hrest : ∀ l ∈ front, ¬ IsWildcard l := fun x hx => hfront x (List.mem_cons_of_mem _ hx)
    cases name with
    | nil => simp [not_matches_nil fun h => hl (Or.inr h)]
    | cons m name =>
      rw [List.cons_append, matches_level_iff hl, ih hrest]
      constructor
      · rintro ⟨rfl, rest, rfl, h⟩
        exact ⟨rest, rfl, h⟩
      · rintro ⟨rest, heq, h⟩
        obtain ⟨rfl, rfl⟩ := List.cons.inj heq
        exact ⟨rfl, rest, rfl, h⟩

end Matches

/-! ### Levels of texts -/

theorem levels_slash (front back : List Char) :
    levels (front ++ '/' :: back) = levels front ++ levels back :=
  List.splitOn_append_cons_self front back

theorem levels_of_not_mem {text : List Char} (h : '/' ∉ text) : levels text = [text] :=
  List.splitOn_eq_singleton h

theorem levels_ne_nil (text : List Char) : levels text ≠ [] := List.splitOn_ne_nil '/' text

/-- The first level of a text is what stands before its first slash. -/
theorem levels_eq_cons_iff {text l : List Char} (hl : '/' ∉ l) :
    (∃ rest, levels text = l :: rest) ↔ text = l ∨ ∃ back, text = l ++ '/' :: back := by
  constructor
  · rintro ⟨rest, hrest⟩
    by_cases hslash : '/' ∈ text
    · obtain ⟨front, back, rfl, hfront⟩ := List.eq_append_cons_of_mem hslash
      rw [levels_slash, levels_of_not_mem hfront, List.singleton_append, List.cons.injEq] at hrest
      exact Or.inr ⟨back, by rw [hrest.1]⟩
    · rw [levels_of_not_mem hslash, List.cons.injEq] at hrest
      exact Or.inl hrest.1
  · rintro (rfl | ⟨back, rfl⟩)
    · exact ⟨[], levels_of_not_mem hl⟩
    · exact ⟨levels back, by rw [levels_slash, levels_of_not_mem hl, List.singleton_append]⟩

end Topic

end Ixmati
