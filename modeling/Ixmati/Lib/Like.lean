import Mathlib.Data.List.Infix

/-!
# Patterns of `LIKE`

What SQLite promises about `text LIKE pattern` without `ESCAPE`: a percent sign in the pattern stands for
any characters, also none, an underscore for any one character, and every other character for itself;
ASCII letters are compared without case.  A pattern that is too long is an error.

* `Matches` : the pattern matches the text; `LikeOperator` : an operator that decides it;
* `matches_percent_iff` : a pattern that ends in a percent sign is matched by what begins with a match of
  the rest; `matches_self` : in particular by what begins with the rest itself;
* `standardLike` : an operator.
-/

namespace Ixmati

namespace Sql

/-- The characters are equal, up to the case of an ASCII letter. -/
def sameChar (c d : Char) : Bool :=
  c == d || (decide (c.toNat < 128) && decide (d.toNat < 128) && c.toLower == d.toLower)

/-- The text matches the pattern. -/
inductive Matches : List Char → List Char → Prop
  | nil : Matches [] []
  | percent {p s : List Char} (skipped : List Char) (h : Matches p s) : Matches ('%' :: p) (skipped ++ s)
  | underscore {p s : List Char} (c : Char) (h : Matches p s) : Matches ('_' :: p) (c :: s)
  | char {c d : Char} {p s : List Char} (hc : c ≠ '%') (hcd : sameChar c d = true) (h : Matches p s) :
    Matches (c :: p) (d :: s)

/-- An operator that decides it, for patterns of up to so many bytes. -/
structure LikeOperator where
  holds : List Char → List Char → Bool
  holds_iff : ∀ p s, holds p s = true ↔ Matches p s
  /-- The longest pattern. -/
  limit : ℕ

section Matches

variable {p s : List Char}

theorem sameChar_self (c : Char) : sameChar c c = true := by simp [sameChar]

theorem matches_nil_iff : Matches [] s ↔ s = [] := by
  constructor
  · intro h
    cases h
    rfl
  · rintro rfl
    exact .nil

theorem matches_percent_cons_iff : Matches ('%' :: p) s ↔ ∃ t, t <:+ s ∧ Matches p t := by
  constructor
  · intro h
    cases h with
    | percent skipped h => exact ⟨_, List.suffix_append _ _, h⟩
    | char hc => exact absurd rfl hc
  · rintro ⟨t, ⟨skipped, rfl⟩, h⟩
    exact .percent skipped h

theorem matches_cons_iff {c : Char} (hc : c ≠ '%') :
    Matches (c :: p) s ↔ ∃ d t, s = d :: t ∧ (c = '_' ∨ sameChar c d = true) ∧ Matches p t := by
  constructor
  · intro h
    cases h with
    | percent => exact absurd rfl hc
    | underscore d h => exact ⟨d, _, rfl, Or.inl rfl, h⟩
    | char _ hcd h => exact ⟨_, _, rfl, Or.inr hcd, h⟩
  · rintro ⟨d, t, rfl, rfl | hcd, h⟩
    · exact .underscore d h
    · exact .char hc hcd h

/-- A text matches itself. -/
theorem matches_self (p : List Char) : Matches p p := by
  induction p with
  | nil => exact .nil
  | cons c p ih =>
    by_cases hc : c = '%'
    · subst hc
      exact .percent ['%'] ih
    · exact .char hc (sameChar_self c) ih

/-- A percent sign at the end leaves the end of the text open. -/
theorem matches_percent_iff : Matches (p ++ ['%']) s ↔ ∃ front, front <+: s ∧ Matches p front := by
  induction p generalizing s with
  | nil =>
    refine iff_of_true ?_ ⟨[], List.nil_prefix, .nil⟩
    have hall : Matches ['%'] (s ++ []) := .percent s .nil
    rwa [List.append_nil] at hall
  | cons c p ih =>
    rw [List.cons_append]
    by_cases hc : c = '%'
    · subst hc
      rw [matches_percent_cons_iff]
      constructor
      · -- what the first percent sign skips is a front part of the front part
        rintro ⟨t, ⟨skipped, rfl⟩, h⟩
        obtain ⟨front, ⟨rest, rfl⟩, hfront⟩ := ih.1 h
        refine ⟨skipped ++ front, ⟨rest, List.append_assoc _ _ _⟩, .percent skipped hfront⟩
      · rintro ⟨front, ⟨rest, rfl⟩, h⟩
        obtain ⟨t, ⟨skipped, rfl⟩, ht⟩ := matches_percent_cons_iff.1 h
        refine ⟨t ++ rest, ⟨skipped, (List.append_assoc _ _ _).symm⟩, ih.2 ⟨t, ⟨rest, rfl⟩, ht⟩⟩
    · rw [matches_cons_iff hc]
      constructor
      · rintro ⟨d, t, rfl, hcd, h⟩
        obtain ⟨front, ⟨rest, rfl⟩, hfront⟩ := ih.1 h
        exact ⟨d :: front, ⟨rest, rfl⟩, (matches_cons_iff hc).2 ⟨d, front, rfl, hcd, hfront⟩⟩
      · rintro ⟨front, ⟨rest, rfl⟩, h⟩
        obtain ⟨d, t, rfl, hcd, ht⟩ := (matches_cons_iff hc).1 h
        exact ⟨d, t ++ rest, rfl, hcd, ih.2 ⟨t, ⟨rest, rfl⟩, ht⟩⟩

end Matches

/-! ### An operator -/

/-- The first character is matched by `c`, and what follows it by the rest of the pattern. -/
def likeChar (c : Char) (rest : List Char → Bool) : List Char → Bool
  | [] => false
  | d :: t => (c == '_' || sameChar c d) && rest t

/-- Does the text match the pattern? -/
def like : List Char → List Char → Bool
  | [], s => s.isEmpty
  | c :: p, s => if c = '%' then s.tails.any (like p) else likeChar c (like p) s

theorem like_iff (p s : List Char) : like p s = true ↔ Matches p s := by
  induction p generalizing s with
  | nil => rw [like, List.isEmpty_iff, matches_nil_iff]
  | cons c p ih =>
    by_cases hc : c = '%'
    · subst hc
      rw [like, if_pos rfl, matches_percent_cons_iff, List.any_eq_true]
      simp only [List.mem_tails, ih]
    · rw [like, if_neg hc, matches_cons_iff hc]
      cases s with
      | nil => simp [likeChar]
      | cons d t => simp [likeChar, ih]

/-- An operator with the limit that SQLite has if nobody changes it. -/
def standardLike : LikeOperator where
  holds := like
  holds_iff := like_iff
  limit := 50000

example : like "user_%".toList "User-view".toList = true := by decide +kernel

end Sql

end Ixmati
