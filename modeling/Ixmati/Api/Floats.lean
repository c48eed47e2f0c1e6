import Ixmati.Api.Protobuf
import Mathlib.Algebra.Order.Field.Rat
import Mathlib.Data.Nat.Cast.Order.Ring
import Mathlib.Tactic.Positivity
import Mathlib.Tactic.Ring

/-!
# Integers as floats

`as_f64` gives an integer the nearest float.  An integer of at most 53 significant bits is a float itself,
and then it keeps its value.

* `F64.value` : the number that a finite float stands for;
* `F64.Exact` : the integers of at most 53 significant bits;
* `F64.value_ofNat`, `F64.value_negate` : they keep their value, with either sign;
* `F64.isFinite_ofNat`, `F64.isFinite_negate` : no integer becomes infinite.
-/

namespace Ixmati

namespace F64

/-- The value of a finite float, by sign, exponent and fraction. -/
def value (x : F64) : ℚ :=
  let word := x.bits.toNat
  let exponent : ℕ := word / 2 ^ 52 % 2 ^ 11
  let fraction : ℕ := word % 2 ^ 52
  let magnitude : ℚ :=
    if exponent = 0 then fraction * 2 ^ (-1074 : ℤ)
    else ((2 ^ 52 + fraction : ℕ) : ℚ) * 2 ^ ((exponent : ℤ) - 1075)
  if word / 2 ^ 63 = 0 then magnitude else -magnitude

/-- The number has at most 53 significant bits. -/
def Exact (n : ℕ) : Prop := ∃ m k, m < 2 ^ 53 ∧ n = m * 2 ^ k

variable {n : ℕ}

theorem Exact.dvd (h : Exact n) (hn : n ≠ 0) : 2 ^ (n.log2 - 52) ∣ n := by
  obtain ⟨m, k, hm, rfl⟩ := h
  have hlow : 2 ^ (m * 2 ^ k).log2 < 2 ^ (53 + k) := by
    calc 2 ^ (m * 2 ^ k).log2 ≤ m * 2 ^ k := Nat.log2_self_le hn
      _ < 2 ^ 53 * 2 ^ k := Nat.mul_lt_mul_of_pos_right hm (Nat.two_pow_pos k)
      _ = 2 ^ (53 + k) := (Nat.pow_add 2 53 k).symm
  -- so the last bit that the significand holds is one of the zeros behind `m`
  have hexp : (m * 2 ^ k).log2 < 53 + k := (Nat.pow_lt_pow_iff_right one_lt_two).1 hlow
  exact (Nat.pow_dvd_pow 2 (by omega)).trans (Nat.dvd_mul_left _ _)

/-- The significand that `ofNat` stores. -/
def significand (n : ℕ) : ℕ :=
  if n.log2 ≤ 52 then n * 2 ^ (52 - n.log2)
  else
    let ulp := 2 ^ (n.log2 - 52)
    let q := n / ulp
    let twice := 2 * (n % ulp)
    if twice < ulp then q else if ulp < twice then q + 1 else q + q % 2

theorem ofNat_eq (hn : n ≠ 0) :
    ofNat n = ⟨UInt64.ofNat ((n.log2 + 1023) * 2 ^ 52 + (significand n - 2 ^ 52))⟩ := by
  rw [ofNat, if_neg hn]
  rfl

/-- A number below `2 ^ 53` is shifted. -/
theorem significand_small (hn : n ≠ 0) (he : n.log2 ≤ 52) :
    2 ^ 52 ≤ significand n ∧ significand n < 2 ^ 53 ∧ significand n * 2 ^ n.log2 = n * 2 ^ 52 := by
  have hlow : 2 ^ n.log2 ≤ n := Nat.log2_self_le hn
  have hhigh : n < 2 ^ (n.log2 + 1) := Nat.lt_log2_self
  have hshift : 2 ^ n.log2 * 2 ^ (52 - n.log2) = 2 ^ 52 := by
    rw [← Nat.pow_add]
    congr 1
    omega
  rw [significand, if_pos he]
  refine ⟨?_, ?_, ?_⟩
  · rw [← hshift]
    exact Nat.mul_le_mul_right _ hlow
  · calc n * 2 ^ (52 - n.log2) < 2 ^ (n.log2 + 1) * 2 ^ (52 - n.log2) :=
          Nat.mul_lt_mul_of_pos_right hhigh (Nat.two_pow_pos _)
      _ = 2 * (2 ^ n.log2 * 2 ^ (52 - n.log2)) := by rw [Nat.pow_succ]; ring
      _ = 2 ^ 53 := by rw [hshift]; rfl
  · rw [Nat.mul_assoc, Nat.mul_comm _ (2 ^ n.log2), hshift]

/-- A larger number is rounded, unless it is exact. -/
theorem significand_large (hn : n ≠ 0) (he : ¬ n.log2 ≤ 52) :
    2 ^ 52 ≤ significand n ∧ significand n ≤ 2 ^ 53 ∧
      (Exact n → significand n < 2 ^ 53 ∧ significand n * 2 ^ n.log2 = n * 2 ^ 52) := by
  have hlow : 2 ^ n.log2 ≤ n := Nat.log2_self_le hn
  have hhigh : n < 2 ^ (n.log2 + 1) := Nat.lt_log2_self
  have hulp : 0 < 2 ^ (n.log2 - 52) := Nat.two_pow_pos _
  have hsplit : 2 ^ n.log2 = 2 ^ 52 * 2 ^ (n.log2 - 52) := by
    rw [← Nat.pow_add]
    congr 1
    omega
  have hnorm : 2 ^ 52 ≤ n / 2 ^ (n.log2 - 52) := by
    rw [Nat.le_div_iff_mul_le hulp, ← hsplit]
    exact hlow
  have hlt : n / 2 ^ (n.log2 - 52) < 2 ^ 53 := by
    rw [Nat.div_lt_iff_lt_mul hulp]
    calc n < 2 ^ (n.log2 + 1) := hhigh
      _ = 2 ^ 53 * 2 ^ (n.log2 - 52) := by rw [Nat.pow_succ, hsplit]; ring
  rw [significand, if_neg he]
  refine ⟨?_, ?_, fun hexact => ?_⟩
  · simp only
    split_ifs <;> omega
  · simp only
    split_ifs <;> omega
  · -- nothing is rounded away
    have hdvd := hexact.dvd hn
    have hzero : n % 2 ^ (n.log2 - 52) = 0 := Nat.mod_eq_zero_of_dvd hdvd
    simp only [hzero, Nat.mul_zero, if_pos hulp]
    refine ⟨hlt, ?_⟩
    rw [hsplit, Nat.mul_comm (2 ^ 52), ← Nat.mul_assoc, Nat.div_mul_cancel hdvd]

/-- The significand is normalised, unless rounding took it to the next power of two. -/
theorem significand_bounds (hn : n ≠ 0) : 2 ^ 52 ≤ significand n ∧ significand n ≤ 2 ^ 53 := by
  by_cases he : n.log2 ≤ 52
  · obtain ⟨hnorm, hlt, -⟩ := significand_small hn he
    exact ⟨hnorm, hlt.le⟩
  · obtain ⟨hnorm, hle, -⟩ := significand_large hn he
    exact ⟨hnorm, hle⟩

theorem Exact.significand (h : Exact n) (hn : n ≠ 0) :
    significand n < 2 ^ 53 ∧ significand n * 2 ^ n.log2 = n * 2 ^ 52 := by
  by_cases he : n.log2 ≤ 52
  · exact (significand_small hn he).2
  · exact (significand_large hn he).2.2 h

/-- The word of a number that fits 64 bits. -/
theorem toNat_bits_ofNat (hn : n ≠ 0) (hlt : n < 2 ^ 64) :
    (ofNat n).bits.toNat = (n.log2 + 1023) * 2 ^ 52 + (significand n - 2 ^ 52) := by
  have he : n.log2 < 64 := (Nat.log2_lt hn).2 hlt
  obtain ⟨hnorm, hle⟩ := significand_bounds hn
  rw [ofNat_eq hn, UInt64.toNat_ofNat']
  exact Nat.mod_eq_of_lt (by omega)

theorem toNat_bits_ofNat_lt (hlt : n < 2 ^ 64) : (ofNat n).bits.toNat < 0x7FF0000000000000 := by
  by_cases hn : n = 0
  · subst hn
    decide
  · have he : n.log2 < 64 := (Nat.log2_lt hn).2 hlt
    obtain ⟨hnorm, hle⟩ := significand_bounds hn
    rw [toNat_bits_ofNat hn hlt]
    omega

/-- **An integer of at most 53 significant bits is a float.** -/
theorem value_ofNat (hlt : n < 2 ^ 64) (hexact : Exact n) : (ofNat n).value = n := by
  by_cases hn : n = 0
  · subst hn
    simp [ofNat, value]
  · have he : n.log2 < 64 := (Nat.log2_lt hn).2 hlt
    have hbits := toNat_bits_ofNat hn hlt
    have hnorm := (significand_bounds hn).1
    obtain ⟨hsig, hscale⟩ := hexact.significand hn
    -- the fields of the word, read off its sum
    generalize significand n = sig at *
    have hexp : ((n.log2 + 1023) * 2 ^ 52 + (sig - 2 ^ 52)) / 2 ^ 52 % 2 ^ 11 = n.log2 + 1023 := by
      omega
    have hfrac : ((n.log2 + 1023) * 2 ^ 52 + (sig - 2 ^ 52)) % 2 ^ 52 = sig - 2 ^ 52 := by omega
    have hsign : ((n.log2 + 1023) * 2 ^ 52 + (sig - 2 ^ 52)) / 2 ^ 63 = 0 := by omega
    have hwhole : 2 ^ 52 + (sig - 2 ^ 52) = sig := by omega
    unfold value
    simp only [hbits, hexp, hfrac, hsign, if_pos, hwhole]
    rw [if_neg (by omega)]
    have hscale' : (sig : ℚ) * 2 ^ n.log2 = n * 2 ^ 52 := by exact_mod_cast hscale
    have hpow : (2 : ℚ) ^ (((n.log2 + 1023 : ℕ) : ℤ) - 1075) = 2 ^ n.log2 / 2 ^ 52 := by
      have hint : (((n.log2 + 1023 : ℕ) : ℤ) - 1075) = (n.log2 : ℤ) - (52 : ℕ) := by
        push_cast
        ring
      rw [hint, zpow_sub₀ two_ne_zero, zpow_natCast, zpow_natCast]
    rw [hpow, ← mul_div_assoc, hscale', mul_div_assoc, div_self (by positivity), mul_one]

/-! ### The sign -/

variable {x : F64}

theorem toNat_bits_negate (hx : x.bits.toNat < 2 ^ 63) :
    x.negate.bits.toNat = 2 ^ 63 + x.bits.toNat := by
  have hor := Nat.two_pow_add_eq_or_of_lt hx 1
  rw [Nat.mul_one] at hor
  show (x.bits ||| 0x8000000000000000).toNat = _
  rw [UInt64.toNat_or, hor, Nat.or_comm]
  rfl

theorem value_negate (hx : x.bits.toNat < 2 ^ 63) : x.negate.value = -x.value := by
  have hsign : x.bits.toNat / 2 ^ 63 = 0 := by omega
  have hsign' : (2 ^ 63 + x.bits.toNat) / 2 ^ 63 ≠ 0 := by omega
  have hexp : (2 ^ 63 + x.bits.toNat) / 2 ^ 52 % 2 ^ 11 = x.bits.toNat / 2 ^ 52 % 2 ^ 11 := by omega
  have hfrac : (2 ^ 63 + x.bits.toNat) % 2 ^ 52 = x.bits.toNat % 2 ^ 52 := by omega
  unfold value
  simp only [toNat_bits_negate hx, hexp, hfrac, hsign, if_neg hsign', if_pos]

/-! ### Finite floats -/

theorem isFinite_of_lt (hx : x.bits.toNat < 0x7FF0000000000000) : x.isFinite = true := by
  unfold isFinite
  rw [bne_iff_ne]
  intro hmask
  have hle : (x.bits &&& 0x7FF0000000000000).toNat ≤ x.bits.toNat := by
    rw [UInt64.toNat_and]
    exact Nat.and_le_left
  rw [hmask] at hle
  exact absurd hx (not_lt.2 hle)

theorem isFinite_negate : x.negate.isFinite = x.isFinite := by
  have hmask : x.negate.bits &&& 0x7FF0000000000000 = x.bits &&& 0x7FF0000000000000 := by
    apply UInt64.toNat_inj.1
    show ((x.bits ||| 0x8000000000000000) &&& 0x7FF0000000000000).toNat = _
    rw [UInt64.toNat_and, UInt64.toNat_or, Nat.and_or_distrib_right, UInt64.toNat_and]
    exact Nat.or_zero _
  unfold isFinite
  rw [hmask]

theorem isFinite_ofNat (hlt : n < 2 ^ 64) : (ofNat n).isFinite = true :=
  isFinite_of_lt (toNat_bits_ofNat_lt hlt)

end F64

end Ixmati
