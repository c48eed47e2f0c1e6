import Mathlib.Algebra.Group.Nat.Defs
import Mathlib.Data.List.DropRight

/-!
# Lines of UTF-8 text

The string functions of Rust that line-oriented protocols are parsed with, on lists of characters:
UTF-8 encoding and decoding, lines up to `'\n'`, `trim`, `strip_prefix`, a split at the first
separator, and `parse::<usize>`.

* `takeLine_encode` : a text without line break, encoded and terminated, is read back as one line;
* `not_mem_of_takeLine` : a line that was read has no line break in it;
* `Trimmed.trim_eq` and `trimmed_trim` : when `trim` does nothing, and what it leaves;
* `parseUsize_repr` : decimal numbers are read back.
-/

namespace Ixmati

/-! ### UTF-8 -/

/-- The UTF-8 encoding of a text. -/
def encode (cs : List Char) : List UInt8 := cs.flatMap String.utf8EncodeChar

/-- Decode bytes, if they are valid UTF-8. -/
def decode (b : List UInt8) : Option (List Char) :=
  (String.fromUTF8? b.toByteArray).map String.toList

@[simp] theorem encode_append (cs ds : List Char) : encode (cs ++ ds) = encode cs ++ encode ds := by
  simp [encode]

theorem toByteArray_encode (cs : List Char) : (encode cs).toByteArray = cs.utf8Encode := rfl

theorem decode_encode (cs : List Char) : decode (encode cs) = some cs := by
  have h : (encode cs).toByteArray = (String.ofList cs).toByteArray := by
    simp [toByteArray_encode]
  unfold decode String.fromUTF8?
  rw [h, dif_pos (String.ofList cs).isValidUTF8]
  exact congrArg some (String.toList_ofList)

theorem encode_of_decode {b : List UInt8} {cs : List Char} (h : decode b = some cs) :
    encode cs = b := by
  unfold decode String.fromUTF8? at h
  split_ifs at h with hv
  swap
  · cases h
  simp only [Option.map_some, Option.some.injEq] at h
  have hb : (encode cs).toByteArray = b.toByteArray := by
    rw [toByteArray_encode, ← h, String.utf8Encode_toList]
    rfl
  have hdata := congrArg (fun a => a.data.toList) hb
  simpa using hdata

/-- The byte of the line break occurs only in its own encoding. -/
theorem ten_mem_utf8EncodeChar (c : Char) : 10 ∈ String.utf8EncodeChar c ↔ c = '\n' := by
  have hbyte : ∀ n : ℕ, n < 256 → ((10 : UInt8) = UInt8.ofNat n ↔ n = 10) := by
    intro n hn
    rw [← UInt8.toNat_inj, UInt8.toNat_ofNat']
    have : n % 2 ^ 8 = n := Nat.mod_eq_of_lt (by omega)
    rw [this]
    exact eq_comm
  have hc : c = '\n' ↔ c.val.toNat = 10 := by
    rw [← Char.val_inj, ← UInt32.toNat_inj]
    rfl
  rw [hc]
  fun_cases String.utf8EncodeChar c
  all_goals
    simp only [List.mem_cons, List.not_mem_nil, or_false]
    repeat rw [hbyte _ (by omega)]
  all_goals omega

theorem ten_mem_encode (cs : List Char) : 10 ∈ encode cs ↔ '\n' ∈ cs := by
  simp only [encode, List.mem_flatMap, ten_mem_utf8EncodeChar]
  constructor
  · rintro ⟨c, hc, rfl⟩
    exact hc
  · intro h
    exact ⟨_, h, rfl⟩

/-! ### Lines -/

/-- `read_line` on what has arrived: the bytes up to the first line break, and those after it. -/
def takeLine : List UInt8 → Option (List UInt8 × List UInt8)
  | [] => none
  | b :: bs => if b = 10 then some ([], bs) else (takeLine bs).map fun p => (b :: p.1, p.2)

theorem takeLine_append {line : List UInt8} (h : 10 ∉ line) (rest : List UInt8) :
    takeLine (line ++ 10 :: rest) = some (line, rest) := by
  induction line with
  | nil => rfl
  | cons b bs ih =>
    rw [List.mem_cons, not_or] at h
    rw [List.cons_append, takeLine, if_neg (Ne.symm h.1), ih h.2]
    rfl

theorem takeLine_eq_some {input line rest : List UInt8} (h : takeLine input = some (line, rest)) :
    input = line ++ 10 :: rest ∧ 10 ∉ line := by
  induction input generalizing line with
  | nil => simp [takeLine] at h
  | cons b bs ih =>
    rw [takeLine] at h
    split_ifs at h with hb
    · simp only [Option.some.injEq, Prod.mk.injEq] at h
      obtain ⟨rfl, rfl⟩ := h
      simp [hb]
    · obtain ⟨⟨l, r⟩, hl, heq⟩ := Option.map_eq_some_iff.1 h
      simp only [Prod.mk.injEq] at heq
      obtain ⟨rfl, rfl⟩ := heq
      obtain ⟨rfl, hmem⟩ := ih hl
      exact ⟨rfl, by simp [hmem, Ne.symm hb]⟩

theorem takeLine_eq_none {input : List UInt8} (h : takeLine input = none) : 10 ∉ input := by
  induction input with
  | nil => simp
  | cons b bs ih =>
    rw [takeLine] at h
    split_ifs at h with hb
    rw [Option.map_eq_none_iff] at h
    simp [ih h, Ne.symm hb]

/-- A text without line break is read back as one line. -/
theorem takeLine_encode {cs : List Char} (h : '\n' ∉ cs) (rest : List UInt8) :
    takeLine (encode cs ++ 10 :: rest) = some (encode cs, rest) :=
  takeLine_append (by rwa [ten_mem_encode]) rest

/-- A line that was read has no line break in it. -/
theorem not_mem_of_takeLine {input line rest : List UInt8} {cs : List Char}
    (h : takeLine input = some (line, rest)) (hdec : decode line = some cs) : '\n' ∉ cs := by
  rw [← ten_mem_encode, encode_of_decode hdec]
  exact (takeLine_eq_some h).2

theorem length_of_takeLine {input line rest : List UInt8} (h : takeLine input = some (line, rest)) :
    rest.length < input.length := by
  rw [(takeLine_eq_some h).1]
  simp
  omega

/-! ### `trim`, `strip_prefix` and splits -/

/-- The characters with the Unicode property `White_Space`. -/
def isWhitespace (c : Char) : Bool :=
  let n := c.toNat
  (9 ≤ n && n ≤ 13) || n == 32 || n == 0x85 || n == 0xa0 || n == 0x1680 ||
    (0x2000 ≤ n && n ≤ 0x200a) || n == 0x2028 || n == 0x2029 || n == 0x202f || n == 0x205f ||
    n == 0x3000

/-- `str::trim`. -/
def trim (cs : List Char) : List Char := (cs.dropWhile isWhitespace).rdropWhile isWhitespace

/-- `str::strip_prefix`. -/
def stripPrefix (p : String) (cs : List Char) : Option (List Char) :=
  if p.toList.isPrefixOf cs then some (cs.drop p.toList.length) else none

/-- The parts before and after the first `c`: `splitn(2, c)` with two parts. -/
def splitOnce (c : Char) : List Char → Option (List Char × List Char)
  | [] => none
  | d :: ds => if d = c then some ([], ds) else (splitOnce c ds).map fun p => (d :: p.1, p.2)

/-- The text neither starts nor ends with white space. -/
def Trimmed (cs : List Char) : Prop :=
  cs.head?.any isWhitespace = false ∧ cs.getLast?.any isWhitespace = false

instance (cs : List Char) : Decidable (Trimmed cs) := inferInstanceAs (Decidable (_ ∧ _))

theorem trim_subset (cs : List Char) : trim cs ⊆ cs :=
  List.Subset.trans (List.rdropWhile_prefix _ _).subset (List.dropWhile_suffix _).subset

/-- Such a text is not changed. -/
theorem Trimmed.trim_eq {cs : List Char} (h : Trimmed cs) : trim cs = cs := by
  have hdrop : cs.dropWhile isWhitespace = cs := by
    cases cs with
    | nil => rfl
    | cons c cs =>
      have hc : isWhitespace c = false := h.1
      rw [List.dropWhile_cons_of_neg (by simp [hc])]
  rw [trim, hdrop, List.rdropWhile_eq_self_iff]
  intro hne
  have hlast := h.2
  rw [List.getLast?_eq_getLast_of_ne_nil hne] at hlast
  simpa using hlast

/-- What `trim` leaves neither starts nor ends with white space. -/
theorem trimmed_trim (cs : List Char) : Trimmed (trim cs) := by
  constructor
  · cases hhead : (trim cs).head? with
    | none => rfl
    | some c =>
      -- the first character is also the first one after `dropWhile`
      obtain ⟨t, ht⟩ := List.rdropWhile_prefix isWhitespace (cs.dropWhile isWhitespace)
      have hdrop : (cs.dropWhile isWhitespace).head? = some c := by
        rw [← ht, List.head?_append]
        show ((trim cs).head?.or _) = some c
        rw [hhead]
        rfl
      simpa [hdrop] using List.head?_dropWhile_not isWhitespace cs
  · by_cases hne : trim cs = []
    · rw [hne]
      rfl
    · rw [List.getLast?_eq_getLast_of_ne_nil hne]
      have := List.rdropWhile_last_not isWhitespace (cs.dropWhile isWhitespace) hne
      rw [Bool.not_eq_true] at this
      exact this

theorem Trimmed.append {front cs : List Char} (hfront : front.head?.any isWhitespace = false)
    (hne : front ≠ []) (hcs : cs ≠ []) (hlast : cs.getLast?.any isWhitespace = false) :
    Trimmed (front ++ cs) := by
  refine ⟨?_, ?_⟩
  · rwa [List.head?_append_of_ne_nil _ hne]
  · rwa [List.getLast?_append_of_ne_nil _ hcs]

theorem trim_ne_nil {cs : List Char} {c : Char} (h : c ∈ cs) (hc : isWhitespace c = false) :
    trim cs ≠ [] := by
  have hdrop : c ∈ cs.dropWhile isWhitespace := by
    have hsplit := List.takeWhile_append_dropWhile (p := isWhitespace) (l := cs)
    rw [← hsplit, List.mem_append] at h
    refine h.resolve_left fun hmem => ?_
    have := List.mem_takeWhile_imp hmem
    simp [hc] at this
  rw [trim, Ne, List.rdropWhile_eq_nil_iff]
  intro hall
  simp [hall c hdrop] at hc

/-- White space is cut off at the end only, if neither part starts with it. -/
theorem trim_append {front cs : List Char} (hfront : front.head?.any isWhitespace = false)
    (hne : front ≠ []) (hcs : cs.head?.any isWhitespace = false) (hcne : cs ≠ []) :
    trim (front ++ cs) = front ++ trim cs := by
  have hdrop : ∀ l : List Char, l ≠ [] → l.head?.any isWhitespace = false →
      l.dropWhile isWhitespace = l := by
    intro l hl hhead
    cases l with
    | nil => exact absurd rfl hl
    | cons c l =>
      have hc : isWhitespace c = false := hhead
      rw [List.dropWhile_cons_of_neg (by simp [hc])]
  have htrim : cs.rdropWhile isWhitespace = trim cs := by
    rw [trim, hdrop cs hcne hcs]
  have hleft : trim cs ≠ [] := by
    cases cs with
    | nil => exact absurd rfl hcne
    | cons c cs => exact trim_ne_nil List.mem_cons_self hcs
  rw [trim, hdrop (front ++ cs) (by simp [hne]) (by rwa [List.head?_append_of_ne_nil _ hne]),
    List.rdropWhile, List.reverse_append, List.dropWhile_append]
  have hempty : (cs.reverse.dropWhile isWhitespace).isEmpty = false := by
    rw [List.isEmpty_eq_false_iff]
    intro hnil
    exact hleft (by rw [← htrim, List.rdropWhile, hnil]; rfl)
  rw [hempty, if_neg Bool.false_ne_true, List.reverse_append, List.reverse_reverse, ← htrim]
  rfl

/-- Text that neither starts nor ends with white space is not touched at the front of another. -/
theorem prefix_trim {front : List Char} (hhead : front.head?.any isWhitespace = false)
    (hlast : front.getLast?.any isWhitespace = false) (hne : front ≠ []) (cs : List Char) :
    front <+: trim (front ++ cs) := by
  have hdrop : (front ++ cs).dropWhile isWhitespace = front ++ cs := by
    cases front with
    | nil => exact absurd rfl hne
    | cons c front =>
      have hc : isWhitespace c = false := hhead
      rw [List.cons_append, List.dropWhile_cons_of_neg (by simp [hc])]
  have hrev : front.reverse.dropWhile isWhitespace = front.reverse := by
    cases hr : front.reverse with
    | nil => rfl
    | cons c l =>
      have hc : isWhitespace c = false := by
        rwa [← List.head?_reverse, hr] at hlast
      rw [List.dropWhile_cons_of_neg (by simp [hc])]
  rw [trim, hdrop, List.rdropWhile, List.reverse_append, List.dropWhile_append]
  split_ifs
  · exact ⟨[], by rw [hrev, List.reverse_reverse, List.append_nil]⟩
  · rw [List.reverse_append, List.reverse_reverse]
    exact List.prefix_append _ _

theorem stripPrefix_append (p : String) (cs : List Char) :
    stripPrefix p (p.toList ++ cs) = some cs := by
  simp [stripPrefix]

theorem stripPrefix_eq_some {p : String} {cs rest : List Char} (h : stripPrefix p cs = some rest) :
    cs = p.toList ++ rest := by
  unfold stripPrefix at h
  split_ifs at h with hp
  obtain ⟨t, rfl⟩ := List.isPrefixOf_iff_prefix.1 hp
  simp only [List.drop_left, Option.some.injEq] at h
  rw [h]

theorem splitOnce_append {c : Char} {cs : List Char} (h : c ∉ cs) (ds : List Char) :
    splitOnce c (cs ++ c :: ds) = some (cs, ds) := by
  induction cs with
  | nil => simp [splitOnce]
  | cons d cs ih =>
    rw [List.mem_cons, not_or] at h
    rw [List.cons_append, splitOnce, if_neg (Ne.symm h.1), ih h.2]
    rfl

theorem splitOnce_eq_some {c : Char} {cs front back : List Char}
    (h : splitOnce c cs = some (front, back)) : cs = front ++ c :: back ∧ c ∉ front := by
  induction cs generalizing front with
  | nil => simp [splitOnce] at h
  | cons d ds ih =>
    rw [splitOnce] at h
    split_ifs at h with hd
    · simp only [Option.some.injEq, Prod.mk.injEq] at h
      obtain ⟨rfl, rfl⟩ := h
      simp [hd]
    · obtain ⟨⟨f, b⟩, hf, heq⟩ := Option.map_eq_some_iff.1 h
      simp only [Prod.mk.injEq] at heq
      obtain ⟨rfl, rfl⟩ := heq
      obtain ⟨rfl, hmem⟩ := ih hf
      exact ⟨rfl, by simp [hmem, Ne.symm hd]⟩

/-! ### `parse::<usize>` -/

/-- An unsigned number of at most 64 bits: digits, at least one, after an optional plus sign. -/
def parseUsize (cs : List Char) : Option ℕ :=
  let digits := if cs.head? = some '+' then cs.tail else cs
  if digits ≠ [] ∧ digits.all Char.isDigit ∧ Nat.ofDigitChars 10 digits 0 < 2 ^ 64 then
    some (Nat.ofDigitChars 10 digits 0)
  else none

theorem isDigit_of_mem_repr {n : ℕ} {c : Char} (h : c ∈ (toString n).toList) : c.isDigit = true := by
  have hrepr : (toString n).toList = Nat.toDigits 10 n := Nat.toList_repr
  rw [hrepr] at h
  exact Nat.isDigit_of_mem_toDigits (by decide) (by decide) h

theorem repr_ne_nil (n : ℕ) : (toString n).toList ≠ [] := by
  have hrepr : (toString n).toList = Nat.toDigits 10 n := Nat.toList_repr
  rw [hrepr]
  exact Nat.toDigits_ne_nil

theorem isWhitespace_of_isDigit {c : Char} (h : c.isDigit = true) : isWhitespace c = false := by
  have hlo : 48 ≤ c.toNat := by
    simp only [Char.isDigit, Bool.and_eq_true, decide_eq_true_eq] at h
    exact UInt32.le_iff_toNat_le.1 h.1
  have hhi : c.toNat ≤ 57 := by
    simp only [Char.isDigit, Bool.and_eq_true, decide_eq_true_eq] at h
    exact UInt32.le_iff_toNat_le.1 h.2
  simp only [isWhitespace, Bool.or_eq_false_iff, Bool.and_eq_false_iff, decide_eq_false_iff_not,
    beq_eq_false_iff_ne]
  omega

/-- A decimal number is read back. -/
theorem parseUsize_repr {n : ℕ} (h : n < 2 ^ 64) : parseUsize (toString n).toList = some n := by
  have hrepr : (toString n).toList = Nat.toDigits 10 n := Nat.toList_repr
  have hhead : (toString n).toList.head? ≠ some '+' := by
    intro hplus
    have := isDigit_of_mem_repr (List.mem_of_head? hplus)
    simp at this
  have hall : (toString n).toList.all Char.isDigit = true :=
    List.all_eq_true.2 fun c hc => isDigit_of_mem_repr hc
  have hval : Nat.ofDigitChars 10 (toString n).toList 0 = n := by
    rw [hrepr]
    exact Nat.ofDigitChars_ten_toDigits
  unfold parseUsize
  rw [if_neg hhead]
  simp only [hval]
  rw [if_pos ⟨repr_ne_nil n, hall, h⟩]

end Ixmati
