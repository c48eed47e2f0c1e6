import Mathlib.Data.List.Basic
import Mathlib.Data.List.TakeWhile

/-!
# Words in SQL texts

What SQLite promises about the words of a text: white space separates tokens, a word is as long as it
can be (letters, digits, `_`, `$` and everything that is not ASCII), and what stands in double quotes is
one name, whatever is in it.  `Lexer` is a function to tokens that keeps these promises, and
`Lexer.name_iff` says when a text that is put behind the beginning of a word makes one word with it.

* `Lexer.tokens_phrase` : words with a space after each;
* `Lexer.name_iff` : a text completes a word exactly if all its characters can be in a word;
* `standard` : a lexer, with the comments of SQL.  Operators of several characters are given character
  by character;
* `completion` : the characters of a text that complete a word that stands before it, if white space and
  comments are all that follows them; `tokens_completion` says that the lexer reads it so.
-/

namespace Ixmati

namespace Sql

/-- A token. -/
inductive Token where
  /-- A keyword, or a name without quotes. -/
  | word (text : String)
  /-- A name in double quotes. -/
  | quoted (text : String)
  | string (text : String)
  | number (text : String)
  | variable (text : String)
  | symbol (c : Char)
  | illegal
  deriving DecidableEq

/-- White space. -/
def isSpace (c : Char) : Bool := c == ' ' || c == '\t' || c == '\n' || c == '\r' || c.toNat == 12

/-- A character of a word. -/
def isIdChar (c : Char) : Bool := c.isAlphanum || c == '_' || c == '$' || decide (128 ≤ c.toNat)

/-- A character that a word may begin with, if it is ASCII. -/
def isIdStart (c : Char) : Bool := c.isAlpha || c == '_'

/-- A word of two or more characters; one letter may also begin a blob. -/
def isWord : List Char → Bool
  | c :: d :: cs => isIdStart c && (d :: cs).all isIdChar
  | _ => false

/-- Double quotes in a name are doubled. -/
def doubled : List Char → List Char
  | [] => []
  | c :: cs => if c = '"' then '"' :: '"' :: doubled cs else c :: doubled cs

/-- The name in double quotes. -/
def quote (name : List Char) : List Char := '"' :: (doubled name ++ ['"'])

/-- What is promised about words and names. -/
structure Lexer where
  tokens : List Char → List Token
  nil : tokens [] = []
  space : ∀ c rest, isSpace c = true → tokens (c :: rest) = tokens rest
  word : ∀ w rest, isWord w = true → (∀ c ∈ rest.head?, isIdChar c = false) →
    tokens (w ++ rest) = .word (String.ofList w) :: tokens rest
  quoted : ∀ name, (∀ c ∈ name, c.toNat ≠ 0) → tokens (quote name) = [.quoted (String.ofList name)]

/-- Words with a space after each. -/
def phrase (words : List (List Char)) : List Char := words.flatMap fun w => w ++ [' ']

section Words

variable {w s : List Char}

theorem isWord_append (hw : isWord w = true) (hs : ∀ c ∈ s, isIdChar c = true) :
    isWord (w ++ s) = true := by
  match w, hw with
  | c :: d :: cs, hw =>
    rw [List.cons_append, List.cons_append, isWord, Bool.and_eq_true, List.all_eq_true] at *
    refine ⟨hw.1, fun x hx => ?_⟩
    rw [← List.cons_append] at hx
    rcases List.mem_append.1 hx with hx | hx
    · exact hw.2 x hx
    · exact hs x hx

theorem isSpace_not_isIdChar {c : Char} (h : isSpace c = true) : isIdChar c = false := by
  simp only [isSpace, Bool.or_eq_true, beq_iff_eq, or_assoc] at h
  rcases h with rfl | rfl | rfl | rfl | h
  · decide
  · decide
  · decide
  · decide
  · have hc : c = Char.ofNat 12 := by rw [← h, Char.ofNat_toNat]
    rw [hc]
    decide

namespace Lexer

variable (L : Lexer)

theorem tokens_phrase {words : List (List Char)} (hwords : ∀ w ∈ words, isWord w = true)
    (rest : List Char) :
    L.tokens (phrase words ++ rest) = words.map (fun w => .word (String.ofList w)) ++ L.tokens rest := by
  induction words with
  | nil => rfl
  | cons w words ih =>
    obtain ⟨hw, hwords⟩ := List.forall_mem_cons.1 hwords
    have hspace : ∀ c ∈ ([' '] ++ (phrase words ++ rest)).head?, isIdChar c = false := by
      intro c hc
      obtain rfl := Option.some.inj hc
      decide
    have hcons : phrase (w :: words) ++ rest = w ++ ([' '] ++ (phrase words ++ rest)) := by
      rw [phrase, List.flatMap_cons, List.append_assoc, List.append_assoc]
      rfl
    rw [hcons, L.word w _ hw hspace, List.singleton_append, L.space _ _ rfl, ih hwords]
    rfl

theorem tokens_words {words : List (List Char)} (hwords : ∀ w ∈ words, isWord w = true) :
    L.tokens (phrase words) = words.map fun w => .word (String.ofList w) := by
  have := L.tokens_phrase hwords []
  rwa [List.append_nil, L.nil, List.append_nil] at this

/-- A word ends at the first character that cannot be in it. -/
theorem tokens_cut {name : List Char} (hname : isWord name = true) (s : List Char) {space : Char}
    (hspace : isSpace space = true) (rest : List Char) :
    L.tokens (name ++ s ++ space :: rest) =
      .word (String.ofList (name ++ s.takeWhile isIdChar)) ::
        L.tokens (s.dropWhile isIdChar ++ space :: rest) := by
  have hrest : ∀ c ∈ (s.dropWhile isIdChar ++ space :: rest).head?, isIdChar c = false := by
    intro c hc
    cases hdrop : s.dropWhile isIdChar with
    | nil =>
      rw [hdrop] at hc
      obtain rfl := Option.some.inj hc
      exact isSpace_not_isIdChar hspace
    | cons d ds =>
      rw [hdrop] at hc
      obtain rfl := Option.some.inj hc
      have hhead := List.head_dropWhile_not isIdChar (l := s) (by rw [hdrop]; simp)
      simpa [hdrop] using hhead
  have hword := isWord_append (s := s.takeWhile isIdChar) hname fun c hc => List.mem_takeWhile_imp hc
  have hsplit : name ++ s ++ space :: rest =
      name ++ s.takeWhile isIdChar ++ (s.dropWhile isIdChar ++ space :: rest) := by
    rw [List.append_assoc, List.append_assoc, ← List.append_assoc (s.takeWhile isIdChar),
      List.takeWhile_append_dropWhile]
  rw [hsplit, L.word _ _ hword hrest]

/-- A text after the beginning of a name completes it exactly if it could be in a word. -/
theorem name_iff {words : List (List Char)} (hwords : ∀ w ∈ words, isWord w = true) {name : List Char}
    (hname : isWord name = true) (s : List Char) {space : Char} (hspace : isSpace space = true)
    (rest : List Char) :
    L.tokens (phrase words ++ (name ++ s ++ space :: rest)) =
        L.tokens (phrase words) ++ .word (String.ofList (name ++ s)) :: L.tokens (space :: rest) ↔
      ∀ c ∈ s, isIdChar c = true := by
  rw [L.tokens_phrase hwords, L.tokens_words hwords, List.append_cancel_left_eq]
  constructor
  · intro h
    rw [L.tokens_cut hname s hspace] at h
    have hsame := Token.word.inj (List.cons.inj h).1
    rw [String.ofList_inj, List.append_cancel_left_eq] at hsame
    exact List.takeWhile_eq_self_iff.1 hsame
  · intro hs
    refine L.word _ _ (isWord_append hname hs) fun c hc => ?_
    obtain rfl := Option.some.inj hc
    exact isSpace_not_isIdChar hspace

end Lexer

end Words

/-! ### A lexer -/

/-- The rest of a quoted text and what follows it. -/
def closeQuote (q : Char) : List Char → Option (List Char × List Char)
  | [] => none
  | [c] => if c = q then some ([], []) else none
  | c :: d :: rest =>
    if c = q then
      if d = q then (closeQuote q rest).map fun p => (q :: p.1, p.2) else some ([], d :: rest)
    else (closeQuote q (d :: rest)).map fun p => (c :: p.1, p.2)

/-- What follows a comment that began with a slash and a star; it may be left open. -/
def closeComment : List Char → List Char
  | [] => []
  | [_] => []
  | c :: d :: rest => if c = '*' ∧ d = '/' then rest else closeComment (d :: rest)

/-- The token of a quoted text. -/
def quotedToken (q : Char) (body : List Char) : Token :=
  if q = '"' then .quoted (String.ofList body) else .string (String.ofList body)

/-- What follows one token or some white space or a comment; nothing follows a zero. -/
def lexStep (c : Char) (rest : List Char) : Option Token × List Char :=
  if c.toNat = 0 then (none, [])
  else if isSpace c then (none, rest)
  else if c = '-' ∧ rest.head? = some '-' then (none, rest.dropWhile fun d => d != '\n')
  else if c = '/' ∧ rest.head? = some '*' then (none, closeComment rest.tail)
  else if isIdStart c || decide (128 ≤ c.toNat) then
    (some (.word (String.ofList (c :: rest.takeWhile isIdChar))), rest.dropWhile isIdChar)
  else if c = '"' ∨ c = '\'' then
    match closeQuote c rest with
    | some (body, rest) => (some (quotedToken c body), rest)
    | none => (some .illegal, [])
  else if c.isDigit then
    (some (.number (String.ofList (c :: rest.takeWhile fun d => isIdChar d || d == '.'))),
      rest.dropWhile fun d => isIdChar d || d == '.')
  else if c = '?' then
    (some (.variable (String.ofList (rest.takeWhile Char.isDigit))), rest.dropWhile Char.isDigit)
  else (some (.symbol c), rest)

/-- The tokens of a text that is not longer than `fuel`. -/
def lex : ℕ → List Char → List Token
  | 0, _ => []
  | _ + 1, [] => []
  | fuel + 1, c :: rest => (lexStep c rest).1.toList ++ lex fuel (lexStep c rest).2

section Lex

theorem length_closeQuote {q : Char} {l : List Char} {p : List Char × List Char}
    (h : closeQuote q l = some p) : p.2.length ≤ l.length := by
  fun_induction closeQuote q l generalizing p with
  | case1 => cases h
  | case2 =>
    obtain rfl := Option.some.inj h
    exact Nat.zero_le _
  | case3 => cases h
  | case4 rest ih =>
    obtain ⟨p', hp', rfl⟩ := Option.map_eq_some_iff.1 h
    exact (ih hp').trans (Nat.le_add_right _ 2)
  | case5 d rest hd =>
    obtain rfl := Option.some.inj h
    simp
  | case6 c d rest hc ih =>
    obtain ⟨p', hp', rfl⟩ := Option.map_eq_some_iff.1 h
    exact (ih hp').trans (by simp)

theorem length_closeComment (l : List Char) : (closeComment l).length ≤ l.length := by
  fun_induction closeComment l with
  | case1 => exact le_rfl
  | case2 => exact Nat.zero_le _
  | case3 c d rest hc => exact Nat.le_add_right _ 2
  | case4 c d rest hc ih => exact ih.trans (by simp)

theorem length_lexStep (c : Char) (rest : List Char) : (lexStep c rest).2.length ≤ rest.length := by
  unfold lexStep
  split_ifs
  · exact Nat.zero_le _
  · exact le_rfl
  · exact List.length_dropWhile_le ..
  · exact (length_closeComment _).trans (by simp)
  · exact List.length_dropWhile_le ..
  · split
    · rename_i hclose
      exact length_closeQuote hclose
    · exact Nat.zero_le _
  · exact List.length_dropWhile_le ..
  · exact List.length_dropWhile_le ..
  · exact le_rfl

/-- More fuel than needed makes no difference. -/
theorem lex_eq {fuel : ℕ} {l : List Char} (h : l.length ≤ fuel) : lex fuel l = lex l.length l := by
  induction fuel using Nat.strong_induction_on generalizing l with
  | _ fuel ih =>
    cases l with
    | nil => cases fuel <;> rfl
    | cons c rest =>
      cases fuel with
      | zero => exact absurd h (Nat.not_succ_le_zero _)
      | succ fuel =>
        have hlen := length_lexStep c rest
        rw [List.length_cons] at h ⊢
        have hfuel := ih fuel (Nat.lt_succ_self _) (hlen.trans (Nat.succ_le_succ_iff.1 h))
        rw [lex, lex, hfuel]
        rcases Nat.lt_or_ge rest.length (fuel + 1) with hlt | hge
        · rw [ih rest.length hlt hlen]
        · rw [← hfuel, Nat.le_antisymm (Nat.succ_le_succ_iff.1 h) (by omega)]

theorem lex_cons (c : Char) (rest : List Char) :
    lex (c :: rest).length (c :: rest) =
      (lexStep c rest).1.toList ++ lex (lexStep c rest).2.length (lexStep c rest).2 := by
  rw [List.length_cons, lex, lex_eq (length_lexStep c rest)]

theorem lexStep_space {c : Char} (h : isSpace c = true) (rest : List Char) :
    lexStep c rest = (none, rest) := by
  unfold lexStep
  rw [if_neg, if_pos h]
  intro hzero
  have hc : c = Char.ofNat 0 := by rw [← hzero, Char.ofNat_toNat]
  rw [hc] at h
  cases h

theorem lexStep_word {c : Char} (h : isIdStart c = true) (rest : List Char) :
    lexStep c rest = (some (.word (String.ofList (c :: rest.takeWhile isIdChar))),
      rest.dropWhile isIdChar) := by
  have hne : ∀ d : Char, isIdStart d = false → c ≠ d := by
    rintro d hd rfl
    rw [hd] at h
    cases h
  have hzero : c.toNat ≠ 0 := by
    intro hzero
    exact hne (Char.ofNat 0) (by decide) (by rw [← hzero, Char.ofNat_toNat])
  have hspace : ¬ isSpace c = true := by
    intro hspace
    simp only [isSpace, Bool.or_eq_true, beq_iff_eq, or_assoc] at hspace
    rcases hspace with hc | hc | hc | hc | hc
    · exact hne _ (by decide) hc
    · exact hne _ (by decide) hc
    · exact hne _ (by decide) hc
    · exact hne _ (by decide) hc
    · exact hne (Char.ofNat 12) (by decide) (by rw [← hc, Char.ofNat_toNat])
  unfold lexStep
  rw [if_neg hzero, if_neg hspace, if_neg fun hc => hne _ (by decide) hc.1,
    if_neg fun hc => hne _ (by decide) hc.1, if_pos (by rw [h]; rfl)]

/-- A quoted text is read back. -/
theorem closeQuote_doubled (name : List Char) :
    closeQuote '"' (doubled name ++ ['"']) = some (name, []) := by
  induction name with
  | nil => rfl
  | cons c name ih =>
    by_cases hc : c = '"'
    · rw [doubled, if_pos hc, List.cons_append, List.cons_append, closeQuote, if_pos rfl, if_pos rfl, ih,
        hc]
      rfl
    · rw [doubled, if_neg hc, List.cons_append]
      cases hrest : doubled name ++ ['"'] with
      | nil => simp at hrest
      | cons d ds =>
        rw [closeQuote, if_neg hc, ← hrest, ih]
        rfl

/-- A lexer. -/
def standard : Lexer where
  tokens l := lex l.length l
  nil := rfl
  space c rest h := by
    rw [lex_cons, lexStep_space h]
    rfl
  word w rest hw hrest := by
    match w, hw with
    | c :: d :: cs, hw =>
      rw [isWord, Bool.and_eq_true, List.all_eq_true] at hw
      have htake : (d :: cs ++ rest).takeWhile isIdChar = d :: cs := by
        rw [List.takeWhile_append_of_pos hw.2]
        cases rest with
        | nil => simp
        | cons x rest => simp [hrest x rfl]
      have hdrop : (d :: cs ++ rest).dropWhile isIdChar = rest := by
        rw [List.dropWhile_append_of_pos hw.2]
        cases rest with
        | nil => rfl
        | cons x rest => simp [hrest x rfl]
      rw [List.cons_append, lex_cons, lexStep_word hw.1, htake, hdrop]
      rfl
  quoted name hname := by
    have hstep : lexStep '"' (doubled name ++ ['"']) = (some (.quoted (String.ofList name)), []) := by
      unfold lexStep
      rw [if_neg (by decide), if_neg (by decide), if_neg (by simp), if_neg (by simp), if_neg (by decide),
        if_pos (Or.inl rfl), closeQuote_doubled]
      rfl
    rw [quote, lex_cons, hstep]
    rfl

end Lex

/-! ### A word with white space and comments behind it -/

/-- A comment that began with a slash and a star ends in the text. -/
def isClosed : List Char → Bool
  | [] => false
  | [_] => false
  | c :: d :: rest => decide (c = '*' ∧ d = '/') || isClosed (d :: rest)

/-- White space and comments that end, in a text that is not longer than `fuel`. -/
def isBlank : ℕ → List Char → Bool
  | _, [] => true
  | 0, _ :: _ => false
  | fuel + 1, c :: rest =>
    if isSpace c then isBlank fuel rest
    else if c = '-' ∧ rest.head? = some '-' then
      decide ('\n' ∈ rest) && isBlank fuel (rest.dropWhile fun d => d != '\n')
    else if c = '/' ∧ rest.head? = some '*' then
      isClosed rest.tail && isBlank fuel (closeComment rest.tail)
    else false

/-- What a text adds to a word that stands before it, if nothing else is in the text. -/
def completion (s : List Char) : Option (List Char) :=
  if isBlank s.length (s.dropWhile isIdChar) then some (s.takeWhile isIdChar) else none

section Completion

variable {s w rest : List Char}

theorem completion_of_isIdChar (h : ∀ c ∈ s, isIdChar c = true) : completion s = some s := by
  have hdrop : s.dropWhile isIdChar = [] := List.dropWhile_eq_nil_iff.2 h
  have htake : s.takeWhile isIdChar = s := List.takeWhile_eq_self_iff.2 h
  rw [completion, hdrop, htake]
  cases s <;> rfl

/-- Without white space and slashes there is nothing to pass over. -/
theorem completion_getD (h : ∀ c ∈ s, isSpace c = false ∧ c ≠ '/') : (completion s).getD s = s := by
  cases hdrop : s.dropWhile isIdChar with
  | nil => rw [completion_of_isIdChar (List.dropWhile_eq_nil_iff.1 hdrop), Option.getD_some]
  | cons c t =>
    have hsub : ∀ d ∈ c :: t, d ∈ s := fun d hd => List.dropWhile_sublist isIdChar |>.subset (hdrop ▸ hd)
    have hline : '\n' ∉ t := fun hmem => by
      cases (h _ (hsub _ (List.mem_cons_of_mem _ hmem))).1
    obtain ⟨hspace, hslash⟩ := h c (hsub c (List.mem_cons_self ..))
    have hblank : isBlank s.length (c :: t) = false := by
      cases s.length with
      | zero => rfl
      | succ n => simp [isBlank, hspace, hslash, hline]
    rw [completion, hdrop, hblank]
    rfl

theorem closeComment_append (h : isClosed s = true) :
    closeComment (s ++ rest) = closeComment s ++ rest := by
  fun_induction isClosed s with
  | case1 => cases h
  | case2 => cases h
  | case3 c d s ih =>
    rw [List.cons_append, List.cons_append, closeComment, closeComment]
    by_cases hend : c = '*' ∧ d = '/'
    · rw [if_pos hend, if_pos hend]
    · rw [if_neg hend, if_neg hend]
      simp only [hend, decide_false, Bool.false_or] at h
      exact ih h

/-- The lexer passes over white space and comments that end. -/
theorem tokens_isBlank {fuel : ℕ} (h : isBlank fuel s = true) :
    standard.tokens (s ++ rest) = standard.tokens rest := by
  induction fuel generalizing s with
  | zero =>
    cases s with
    | nil => rfl
    | cons => cases h
  | succ fuel ih =>
    cases s with
    | nil => rfl
    | cons c s =>
      rw [isBlank] at h
      have hstep := lex_cons c (s ++ rest)
      split_ifs at h with hspace hline hblock
      · rw [List.cons_append, standard.space _ _ hspace, ih h]
      · -- a comment to the end of the line
        obtain ⟨rfl, hdash⟩ := hline
        rw [Bool.and_eq_true, decide_eq_true_eq] at h
        have hhead : (s ++ rest).head? = some '-' := by
          rw [List.head?_append, hdash]
          rfl
        have hdrop : (s ++ rest).dropWhile (fun d => d != '\n') =
            s.dropWhile (fun d => d != '\n') ++ rest := by
          rw [List.dropWhile_append, if_neg]
          rw [List.isEmpty_iff, List.dropWhile_eq_nil_iff]
          exact fun hall => absurd (hall _ h.1) (by decide)
        have hnext : lexStep '-' (s ++ rest) =
            (none, s.dropWhile (fun d => d != '\n') ++ rest) := by
          unfold lexStep
          rw [if_neg (by decide), if_neg (by decide), if_pos ⟨rfl, hhead⟩, hdrop]
        rw [hnext] at hstep
        exact hstep.trans (ih h.2)
      · -- a comment with an end of its own
        obtain ⟨rfl, hstar⟩ := hblock
        rw [Bool.and_eq_true] at h
        obtain ⟨s, rfl⟩ : ∃ t, s = '*' :: t := by
          cases s with
          | nil => cases hstar
          | cons d s => exact ⟨s, by rw [Option.some.inj hstar]⟩
        have hnext : lexStep '/' ('*' :: s ++ rest) = (none, closeComment s ++ rest) := by
          unfold lexStep
          rw [if_neg (by decide), if_neg (by decide), if_neg (by simp), if_pos ⟨rfl, rfl⟩]
          exact congrArg _ (closeComment_append h.1)
        rw [hnext] at hstep
        exact hstep.trans (ih h.2)

/-- A word and what completes it are one word. -/
theorem tokens_completion (h : completion s = some w) {words : List (List Char)}
    (hwords : ∀ w ∈ words, isWord w = true) {name : List Char} (hname : isWord name = true)
    {space : Char} (hspace : isSpace space = true) :
    standard.tokens (phrase words ++ (name ++ s ++ space :: rest)) =
      standard.tokens (phrase words) ++
        .word (String.ofList (name ++ w)) :: standard.tokens (space :: rest) := by
  unfold completion at h
  split_ifs at h with hblank
  obtain rfl := Option.some.inj h
  rw [standard.tokens_phrase hwords, standard.tokens_words hwords, standard.tokens_cut hname s hspace,
    tokens_isBlank hblank]

end Completion

end Sql

end Ixmati
