import FormLogic.Proofs.Value.Rounding
import FormLogic.Decimal
import Mathlib

/-! Where rounding leaves the finite numbers. That happens from half a spacing above the greatest
finite number on, `2 ^ 1024 - 2 ^ 970`: the tie itself goes to the even neighbour, which is past the
end. -/

namespace FormLogic

namespace Binary64

theorem roundEven_lt_iff (num : ℕ) {den m : ℕ} (hden : 0 < den) (heven : m % 2 = 0) :
    roundEven num den < m ↔ 2 * num + den < 2 * m * den := by
  have hsplit : den * (num / den) + num % den = num := Nat.div_add_mod num den
  have hrest : num % den < den := Nat.mod_lt num hden
  simp only [roundEven]
  generalize num / den = q at hsplit ⊢
  generalize num % den = r at hsplit hrest ⊢
  subst hsplit
  rcases Nat.lt_trichotomy (q + 1) m with hlow | rfl | hhigh
  · have hmul : den * (q + 2) ≤ den * m := Nat.mul_le_mul_left den hlow
    have hleft : (if 2 * r < den ∨ 2 * r = den ∧ q % 2 = 0 then q else q + 1) < m := by
      split <;> omega
    refine iff_of_true hleft ?_
    nlinarith only [hmul, hrest]
  · have hodd : q % 2 ≠ 0 := by omega
    have hright : 2 * (den * q + r) + den < 2 * (q + 1) * den ↔ 2 * r < den := by
      constructor <;> intro h <;> nlinarith only [h]
    rw [hright]
    by_cases hbelow : 2 * r < den
    · rw [if_pos (.inl hbelow)]
      exact iff_of_true (Nat.lt_succ_self q) hbelow
    · rw [if_neg (by omega)]
      exact iff_of_false (Nat.lt_irrefl _) hbelow
  · have hmul : den * m ≤ den * q := Nat.mul_le_mul_left den (Nat.le_of_lt_succ hhigh)
    refine iff_of_false (by split <;> omega) ?_
    nlinarith only [hmul, hden]

theorem nearestRank_lt_iff (num : ℕ) {den : ℕ} (hden : 0 < den) (e : ℕ) :
    nearestRank num den < (e + 3) * Nat.pow 2 52 ↔ num < (2 ^ 54 - 1) * (den * Nat.pow 2 e) := by
  have hpow : Nat.pow 2 52 = 4503599627370496 := rfl
  have hbelow := div_two_pow_lt (num / den)
  have habove := @le_div_two_pow (num / den)
  simp only [nearestRank]
  generalize (num / den).log2 - 52 = doubled at hbelow habove ⊢
  have hspacing : ∀ k, 0 < den * Nat.pow 2 k := fun k => Nat.mul_pos hden (Nat.two_pow_pos k)
  have hmono : ∀ {i j}, i ≤ j → den * Nat.pow 2 i ≤ den * Nat.pow 2 j := fun h =>
    Nat.mul_le_mul_left den (Nat.pow_le_pow_right (by decide) h)
  have hnext : ∀ k, den * Nat.pow 2 (k + 1) = 2 * (den * Nat.pow 2 k) := fun k => by
    rw [Nat.pow_eq, pow_succ, Nat.pow_eq]
    ring
  rw [Nat.div_div_eq_div_mul] at hbelow habove
  have hlow := div_le_roundEven num (den * Nat.pow 2 doubled)
  have hhigh := roundEven_le num (den * Nat.pow 2 doubled)
  have hunit := hspacing e
  rcases Nat.lt_trichotomy doubled (e + 1) with hsmall | rfl | hlarge
  · have hnum := (Nat.div_lt_iff_lt_mul (hspacing doubled)).1 hbelow
    have hle := hmono (Nat.le_of_lt_succ hsmall)
    rw [hpow] at hbelow hnum ⊢
    refine iff_of_true ?_ ?_ <;> omega
  · have heven : (2 * Nat.pow 2 52) % 2 = 0 := Nat.mul_mod_right 2 _
    have hround := roundEven_lt_iff num (hspacing (e + 1)) heven
    rw [hnext e] at hround ⊢
    rw [hpow] at hround ⊢
    omega
  · have hnum := (Nat.le_div_iff_mul_le (hspacing doubled)).1 (habove (by omega))
    have hle := hmono hlarge
    rw [hnext (e + 1), hnext e] at hle
    have hfull := habove (by omega)
    rw [hpow] at hnum hfull ⊢
    refine iff_of_false ?_ ?_ <;> omega

/-- The least number that is rounded past the greatest finite one, which is `(2 ^ 53 - 1) * 2 ^
971`. -/
def overflow : ℚ := (2 ^ 54 - 1) * 2 ^ 970

theorem natCast_mul_two_pow (i : ℕ) :
    (((2 ^ 54 - 1) * Nat.pow 2 i : ℕ) : ℚ) = (2 ^ 54 - 1) * 2 ^ i := by
  have hpow : ((Nat.pow 2 i : ℕ) : ℚ) = 2 ^ i := Nat.cast_pow 2 i
  rw [Nat.cast_mul, hpow, Nat.cast_sub (by decide), Nat.cast_pow, Nat.cast_ofNat, Nat.cast_one]

theorem nearestRank_mul_lt_iff (num : ℕ) {den : ℕ} (hden : 0 < den) (i j : ℕ) :
    nearestRank (num * Nat.pow 2 j) den < (i + j + 3) * Nat.pow 2 52 ↔
      num < (2 ^ 54 - 1) * Nat.pow 2 i * den := by
  have hpow : Nat.pow 2 (i + j) = Nat.pow 2 i * Nat.pow 2 j := Nat.pow_add 2 i j
  have hpos : 0 < Nat.pow 2 j := Nat.two_pow_pos j
  rw [nearestRank_lt_iff _ hden, hpow, ← Nat.mul_assoc den, ← Nat.mul_assoc,
    Nat.mul_lt_mul_right hpos, Nat.mul_comm den, ← Nat.mul_assoc]

theorem isFinite_nearest_iff (negative : Bool) (num den : ℕ) :
    (nearest negative num den).isFinite = true ↔ nearestRank num den < ranks := by
  rw [nearest]
  split
  · next h => exact iff_of_true rfl h
  · next h => exact iff_of_false Bool.false_ne_true h

theorem eq_infinite_of_ofRatio {negative : Bool} {num den : ℕ}
    (h : (ofRatio negative num den).isFinite = false) :
    ofRatio negative num den = .infinite negative := by
  rw [ofRatio, nearest] at h ⊢
  split at h
  · cases h
  · next hranks => rw [dif_neg hranks]

theorem isFinite_ofRatio_iff (negative : Bool) (num : ℕ) {den : ℕ} (hden : 0 < den) :
    (ofRatio negative num den).isFinite = true ↔ (num / den : ℚ) < overflow := by
  have hranks : ranks = (970 + 1074 + 3) * Nat.pow 2 52 := rfl
  rw [ofRatio, isFinite_nearest_iff, hranks]
  unfold unitsPerOne
  generalize 1074 = units
  rw [nearestRank_mul_lt_iff num hden, div_lt_iff₀ (Nat.cast_pos.2 hden), overflow,
    ← natCast_mul_two_pow, ← Nat.cast_mul, Nat.cast_lt]

end Binary64

namespace Decimal

def toRat (d : Decimal) : ℚ := d.coefficient * 10 ^ d.exponent

theorem exists_toBinary64_eq (negative : Bool) (d : Decimal) :
    ∃ num den : ℕ, 0 < den ∧ d.toRat = num / den ∧
      d.toBinary64 negative = .ofRatio negative num den := by
  have hten : ((Nat.pow 10 d.exponent.natAbs : ℕ) : ℚ) = 10 ^ d.exponent.natAbs :=
    Nat.cast_pow 10 _
  have hpos : 0 < Nat.pow 10 d.exponent.natAbs := Nat.pow_pos (by decide)
  rw [toBinary64, toRat]
  split
  · next hneg =>
    refine ⟨d.coefficient, Nat.pow 10 d.exponent.natAbs, hpos, ?_, rfl⟩
    have hexponent : d.exponent = -(d.exponent.natAbs : ℤ) := by omega
    rw [hten, div_eq_mul_inv, ← zpow_natCast, ← zpow_neg, ← hexponent]
  · next hnonneg =>
    refine ⟨d.coefficient * Nat.pow 10 d.exponent.natAbs, 1, Nat.one_pos, ?_, rfl⟩
    have hexponent : d.exponent = (d.exponent.natAbs : ℤ) := by omega
    rw [Nat.cast_one, div_one, Nat.cast_mul, hten, ← zpow_natCast, ← hexponent]

end Decimal

end FormLogic
