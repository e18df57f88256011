import FormLogic.Binary64.Arithmetic
import FormLogic.Proofs.Value.Extent

/-! Rounding to binary64 numbers: a number that has a rank is rounded to itself, and what a whole
number is rounded to is whole. -/

namespace FormLogic.Binary64

theorem roundEven_mul (n : Nat) {den : Nat} (hden : 0 < den) : roundEven (n * den) den = n := by
  simp only [roundEven, Nat.mul_mod_left, Nat.mul_div_cancel n hden]
  exact if_pos (.inl hden)

theorem div_le_roundEven (num den : Nat) : num / den ≤ roundEven num den := by
  simp only [roundEven]
  split <;> omega

theorem roundEven_le (num den : Nat) : roundEven num den ≤ num / den + 1 := by
  simp only [roundEven]
  split <;> omega

theorem log2_mul_two_pow {n : Nat} (hn : n ≠ 0) (k : Nat) : (n * Nat.pow 2 k).log2 = n.log2 + k := by
  have hpow : Nat.pow 2 k ≠ 0 := (Nat.two_pow_pos k).ne'
  rw [Nat.log2_eq_iff (Nat.mul_ne_zero hn hpow), Nat.pow_add, Nat.add_right_comm, Nat.pow_add]
  have hlow : 2 ^ n.log2 ≤ n := Nat.log2_self_le hn
  have hhigh : n < 2 ^ (n.log2 + 1) := Nat.lt_log2_self
  exact ⟨Nat.mul_le_mul_right _ hlow, Nat.mul_lt_mul_of_pos_right hhigh (Nat.two_pow_pos k)⟩

theorem log2_units_sub (rank : Nat) : (units rank).log2 - 52 = doublings rank := by
  have hpow : Nat.pow 2 52 = 4503599627370496 := rfl
  rw [units]
  by_cases hsmall : rank < 2 * Nat.pow 2 52
  · have hzero : doublings rank = 0 := by
      simp only [doublings, hpow] at hsmall ⊢
      omega
    have hone : Nat.pow 2 0 = 1 := rfl
    rw [hzero, Nat.zero_mul, Nat.sub_zero, hone, Nat.mul_one]
    by_cases hrank : rank = 0
    · rw [hrank]
      decide
    · have hlt : rank.log2 < 53 := (Nat.log2_lt hrank).2 hsmall
      omega
  · have hlow : Nat.pow 2 52 ≤ rank - doublings rank * Nat.pow 2 52 := by
      simp only [doublings, hpow] at hsmall ⊢
      omega
    have hhigh : rank - doublings rank * Nat.pow 2 52 < Nat.pow 2 53 := by
      have hpow' : Nat.pow 2 53 = 9007199254740992 := rfl
      simp only [doublings, hpow, hpow'] at hsmall ⊢
      omega
    have hne : rank - doublings rank * Nat.pow 2 52 ≠ 0 := by
      rw [hpow] at hlow ⊢
      omega
    have hlog : (rank - doublings rank * Nat.pow 2 52).log2 = 52 :=
      (Nat.log2_eq_iff hne).2 ⟨hlow, hhigh⟩
    rw [log2_mul_two_pow hne, hlog, Nat.add_sub_cancel_left]

theorem nearestRank_units (rank : Nat) {den : Nat} (hden : 0 < den) :
    nearestRank (units rank * den) den = rank := by
  have hcut : doublings rank * Nat.pow 2 52 ≤ rank := by
    have hpow : Nat.pow 2 52 = 4503599627370496 := rfl
    simp only [doublings, hpow]
    omega
  have hspacing : 0 < den * Nat.pow 2 (doublings rank) :=
    Nat.mul_pos hden (Nat.two_pow_pos _)
  have hround : roundEven (units rank * den) (den * Nat.pow 2 (doublings rank)) =
      rank - doublings rank * Nat.pow 2 52 := by
    rw [units, Nat.mul_assoc, Nat.mul_comm (Nat.pow 2 (doublings rank)) den]
    exact roundEven_mul _ hspacing
  simp only [nearestRank, Nat.mul_div_cancel _ hden, log2_units_sub, hround]
  omega

theorem nearest_units (negative : Bool) (rank : Fin (2047 * Nat.pow 2 52)) {den : Nat}
    (hden : 0 < den) : nearest negative (units rank * den) den = .finite negative rank := by
  have hrank : nearestRank (units rank * den) den = rank := nearestRank_units rank hden
  have hlt : nearestRank (units rank * den) den < ranks := by
    rw [hrank]
    exact rank.isLt
  rw [nearest, dif_pos hlt]
  simp only [hrank]

theorem div_two_pow_lt (n : Nat) : n / Nat.pow 2 (n.log2 - 52) < 2 * Nat.pow 2 52 := by
  have hlt : n < 2 ^ (n.log2 + 1) := Nat.lt_log2_self
  have hsplit : 2 * Nat.pow 2 52 * Nat.pow 2 (n.log2 - 52) = 2 ^ (53 + (n.log2 - 52)) :=
    (Nat.pow_add 2 53 (n.log2 - 52)).symm
  have hle : 2 ^ (n.log2 + 1) ≤ 2 * Nat.pow 2 52 * Nat.pow 2 (n.log2 - 52) := by
    rw [hsplit]
    exact Nat.pow_le_pow_right (by decide) (by omega)
  exact Nat.div_lt_of_lt_mul (Nat.mul_comm (Nat.pow 2 (n.log2 - 52)) _ ▸ hlt.trans_le hle)

theorem le_div_two_pow {n : Nat} (h : n.log2 - 52 ≠ 0) :
    Nat.pow 2 52 ≤ n / Nat.pow 2 (n.log2 - 52) := by
  have hn : n ≠ 0 := by
    rintro rfl
    exact h rfl
  have hle : 2 ^ n.log2 ≤ n := Nat.log2_self_le hn
  have hsum : 52 + (n.log2 - 52) = n.log2 := by omega
  have hsplit : Nat.pow 2 52 * Nat.pow 2 (n.log2 - 52) = 2 ^ n.log2 :=
    (Nat.pow_add 2 52 (n.log2 - 52)).symm.trans (congrArg (Nat.pow 2) hsum)
  exact (Nat.le_div_iff_mul_le (Nat.two_pow_pos _)).2 (hsplit ▸ hle)

theorem units_nearestRank (n : Nat) :
    units (nearestRank n 1) =
      roundEven n (Nat.pow 2 (n.log2 - 52)) * Nat.pow 2 (n.log2 - 52) := by
  have hpow : Nat.pow 2 52 = 4503599627370496 := rfl
  have hbelow := div_two_pow_lt n
  have habove := @le_div_two_pow n
  simp only [nearestRank, Nat.div_one, Nat.one_mul]
  generalize n.log2 - 52 = doubled at hbelow habove ⊢
  have hlow := div_le_roundEven n (Nat.pow 2 doubled)
  have hhigh := roundEven_le n (Nat.pow 2 doubled)
  generalize hround : roundEven n (Nat.pow 2 doubled) = rounded at hlow hhigh ⊢
  by_cases hcarry : rounded = 2 * Nat.pow 2 52
  · have hnext : doublings (doubled * Nat.pow 2 52 + rounded) = doubled + 1 := by
      simp only [doublings, hcarry, hpow]
      omega
    have hcount : doubled * Nat.pow 2 52 + rounded - (doubled + 1) * Nat.pow 2 52 =
        Nat.pow 2 52 := by
      rw [hcarry, hpow]
      omega
    have hdouble : Nat.pow 2 (doubled + 1) = 2 * Nat.pow 2 doubled := Nat.pow_succ'
    rw [units, hnext, hcount, hdouble, hcarry, ← Nat.mul_assoc, Nat.mul_comm (Nat.pow 2 52) 2]
  · have hsame : doublings (doubled * Nat.pow 2 52 + rounded) = doubled := by
      by_cases hzero : doubled = 0
      · rw [hpow] at hbelow hcarry
        simp only [doublings, hzero, hpow]
        omega
      · have hfull := habove hzero
        rw [hpow] at hbelow hfull hcarry
        simp only [doublings, hpow]
        omega
    rw [units, hsame, Nat.add_sub_cancel_left]

theorem isWhole_of_nearest {negative sign : Bool} {n : Nat}
    {rank : Fin (2047 * Nat.pow 2 52)}
    (h : nearest negative (n * unitsPerOne) 1 = .finite sign rank) : isWhole rank = true := by
  have hrank : rank.val = nearestRank (n * unitsPerOne) 1 := by
    rw [nearest] at h
    split at h
    · exact congrArg Fin.val (Binary64.finite.inj h).2.symm
    · exact absurd h nofun
  have hdvd : unitsPerOne ∣ units rank.val := by
    rw [hrank, units_nearestRank]
    generalize (n * unitsPerOne).log2 - 52 = doubled
    unfold unitsPerOne
    generalize 1074 = exponent
    rcases Nat.le_total exponent doubled with hle | hle
    · exact Nat.dvd_trans (Nat.pow_dvd_pow 2 hle) (Nat.dvd_mul_left ..)
    · have hsplit : Nat.pow 2 exponent = Nat.pow 2 (exponent - doubled) * Nat.pow 2 doubled := by
        have hsum : exponent - doubled + doubled = exponent := Nat.sub_add_cancel hle
        exact (congrArg (Nat.pow 2) hsum.symm).trans (Nat.pow_add 2 _ doubled)
      have hround : roundEven (n * Nat.pow 2 exponent) (Nat.pow 2 doubled) *
          Nat.pow 2 doubled = n * Nat.pow 2 exponent := by
        have hspacing : 0 < Nat.pow 2 doubled := Nat.two_pow_pos doubled
        rw [hsplit, ← Nat.mul_assoc, roundEven_mul _ hspacing]
      rw [hround]
      exact Nat.dvd_mul_left ..
  exact beq_iff_eq.2 (Nat.mod_eq_zero_of_dvd hdvd)

end FormLogic.Binary64
