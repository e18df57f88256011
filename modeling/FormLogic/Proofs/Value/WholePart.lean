import FormLogic.Proofs.Value.Rounding
import Mathlib

/-! Comparing a whole number with a binary64 number by parts. Outside the 64-bit range the limits
decide, inside it the whole parts do, and where they are equal the sign of the fraction. No step of
this is rounded, so that it is the comparison of the exact values. -/

namespace FormLogic.Binary64

def wholePart : Binary64 → Binary64
  | .finite negative rank => nearest negative (units rank / unitsPerOne * unitsPerOne) 1
  | x => x

/-- The 64-bit whole number nearest to the whole part; NaN has none and counts as zero. -/
def toInt64 : Binary64 → Int64
  | .finite negative rank =>
    .ofInt (max (-9223372036854775808)
      (min 9223372036854775807 ((signedUnits negative rank).tdiv unitsPerOne)))
  | .infinite negative => if negative then .minValue else .maxValue
  | .nan => 0

def int64Limit : Binary64 := ofInt 9223372036854775808

def bySign (fraction : Binary64) : Ordering :=
  if (fraction.compare? (zero false)).any Ordering.isGT then .lt
  else if (fraction.compare? (zero false)).any Ordering.isLT then .gt
  else .eq

/-- Compares a 64-bit whole number with `x` by the limits, the whole part and the fraction of `x`. -/
def compareByParts? (n : Int64) (x : Binary64) : Option Ordering :=
  if x.isNaN then none
  else if (x.compare? int64Limit).any Ordering.isGE then some .lt
  else if (x.compare? int64Limit.neg).any Ordering.isLT then some .gt
  else
    some ((compare n.toInt x.wholePart.toInt64.toInt).then (bySign (x.sub x.wholePart)))

theorem units_strictMono : StrictMono units := strictMono_nat_of_lt_succ units_lt_units_succ

theorem exists_nearest_eq {n : ℕ} (negative : Bool) {rank : Fin (2047 * Nat.pow 2 52)}
    (hle : n ≤ units rank) (hdvd : Nat.pow 2 (doublings rank) ∣ n) :
    ∃ whole, nearest negative n 1 = .finite negative whole ∧ units whole = n := by
  have hlog : n.log2 - 52 ≤ doublings rank := by
    have hmono : n.log2 ≤ (units rank).log2 := by
      rw [Nat.log2_eq_log_two, Nat.log2_eq_log_two]
      exact Nat.log_mono_right hle
    rw [← log2_units_sub rank]
    omega
  obtain ⟨count, hcount⟩ : Nat.pow 2 (n.log2 - 52) ∣ n := (Nat.pow_dvd_pow 2 hlog).trans hdvd
  have hexact : units (nearestRank n 1) = n := by
    have hspacing : 0 < Nat.pow 2 (n.log2 - 52) := Nat.two_pow_pos _
    rw [units_nearestRank]
    generalize Nat.pow 2 (n.log2 - 52) = spacing at hcount hspacing ⊢
    rw [hcount, Nat.mul_comm spacing count, roundEven_mul count hspacing]
  have hrank : nearestRank n 1 ≤ rank := units_strictMono.le_iff_le.1 (hexact.trans_le hle)
  have hlt : nearestRank n 1 < ranks := hrank.trans_lt rank.isLt
  exact ⟨⟨nearestRank n 1, hlt⟩, by rw [nearest, dif_pos hlt], hexact⟩

theorem doublings_dvd_units (rank : ℕ) : Nat.pow 2 (doublings rank) ∣ units rank :=
  Nat.dvd_mul_left ..

theorem exists_units_wholePart (negative : Bool) (rank : Fin (2047 * Nat.pow 2 52)) :
    ∃ whole, (finite negative rank).wholePart = .finite negative whole ∧
      units whole = units rank / unitsPerOne * unitsPerOne := by
  refine exists_nearest_eq negative (Nat.div_mul_le_self ..) ?_
  have hunits := doublings_dvd_units rank
  unfold unitsPerOne
  generalize 1074 = exponent
  rcases Nat.le_total (doublings rank) exponent with hle | hle
  · exact (Nat.pow_dvd_pow 2 hle).trans (Nat.dvd_mul_left ..)
  · have hwhole : Nat.pow 2 exponent ∣ units rank := (Nat.pow_dvd_pow 2 hle).trans hunits
    rwa [Nat.div_mul_cancel hwhole]

theorem signedUnits_tdiv (negative : Bool) (rank : ℕ) :
    (signedUnits negative rank).tdiv unitsPerOne =
      if negative then -((units rank / unitsPerOne : ℕ) : ℤ) else (units rank / unitsPerOne : ℕ) := by
  rw [signedUnits, Int.ofNat_tdiv]
  split
  · exact Int.neg_tdiv ..
  · rfl

theorem nearestRank_pos {n : ℕ} (h : 0 < n) : 0 < nearestRank n 1 := by
  rw [nearestRank, Nat.div_one, Nat.one_mul]
  by_cases hzero : n.log2 - 52 = 0
  · have hone : Nat.pow 2 0 = 1 := rfl
    have hexact : roundEven n 1 = n := by simpa using roundEven_mul n Nat.one_pos
    rw [hzero, hone, hexact]
    exact Nat.add_pos_right _ h
  · exact Nat.add_pos_left (Nat.mul_pos (Nat.pos_of_ne_zero hzero) (Nat.two_pow_pos 52)) _

theorem exists_orderKey?_nearest (negative : Bool) {n : ℕ} (h : 0 < n) :
    ∃ key : ℕ, 0 < key ∧
      (nearest negative n 1).orderKey? = some (if negative then -(key : ℤ) else key) := by
  rw [nearest]
  split
  · exact ⟨nearestRank n 1, nearestRank_pos h, rfl⟩
  · exact ⟨ranks, by decide, rfl⟩

theorem compare?_rounded_zero (negative : Bool) (n : ℤ) :
    (if n = 0 then zero negative else nearest (n < 0) n.natAbs 1).compare? (zero false) =
      some (compare n 0) := by
  have hzero : (zero false).orderKey? = some 0 := rfl
  split
  · next hn => cases negative <;> simp [hn, zero, compare?, orderKey?]
  · next hne =>
    obtain ⟨key, hkey, horder⟩ := exists_orderKey?_nearest (n < 0) (Int.natAbs_pos.2 hne)
    rw [compare?, horder, hzero]
    rcases Int.lt_or_gt_of_ne hne with hlt | hgt
    · have hnegative : -(key : ℤ) < 0 := by omega
      simp only [hlt, decide_true, ↓reduceIte, compare_lt_iff_lt.2 hlt,
        compare_lt_iff_lt.2 hnegative]
    · have hpositive : (0 : ℤ) < key := by omega
      simp only [not_lt_of_gt hgt, decide_false, Bool.false_eq_true, ↓reduceIte,
        compare_gt_iff_gt.2 hgt, compare_gt_iff_gt.2 hpositive]

theorem compare_mul_eq {e : ℤ} (he : 0 < e) (n u : ℤ) :
    compare (n * e) u = (compare n (u.tdiv e)).then (compare 0 (u.tmod e)) := by
  have hsplit := Int.mul_tdiv_add_tmod u e
  have hhigh := Int.tmod_lt_of_pos u he
  have hlow := Int.lt_tmod_of_pos u he
  generalize u.tdiv e = whole at hsplit ⊢
  generalize u.tmod e = rest at hsplit hhigh hlow ⊢
  obtain rfl := hsplit
  rcases lt_trichotomy n whole with hlt | rfl | hgt
  · have hmul : n * e + e ≤ e * whole := by nlinarith
    rw [compare_lt_iff_lt.2 hlt]
    exact compare_lt_iff_lt.2 (by omega)
  · have hshift : StrictMono fun x => e * n + x := fun _ _ h => Int.add_lt_add_left h _
    have hrest : compare (e * n + 0) (e * n + rest) = compare 0 rest := by
      rw [← cmp_eq_compare, ← cmp_eq_compare]
      exact hshift.cmp_map_eq 0 rest
    rw [compare_eq_iff_eq.2 (rfl : n = n), Int.mul_comm n e, ← hrest, Int.add_zero]
    rfl
  · have hmul : e * whole + e ≤ n * e := by nlinarith
    rw [compare_gt_iff_gt.2 hgt]
    exact compare_gt_iff_gt.2 (by omega)

theorem tdiv_within {e u limit : ℤ} (he : 0 < e) (hlimit : 0 < limit) (hlow : -limit * e ≤ u)
    (hhigh : u < limit * e) : -limit ≤ u.tdiv e ∧ u.tdiv e < limit := by
  constructor
  · calc -limit = (-limit * e).tdiv e := (Int.mul_tdiv_cancel _ he.ne').symm
      _ ≤ u.tdiv e := Int.tdiv_le_tdiv he hlow
  · rcases le_or_gt 0 u with hnonneg | hneg
    · rw [Int.tdiv_eq_ediv_of_nonneg hnonneg]
      exact Int.ediv_lt_of_lt_mul he hhigh
    · calc u.tdiv e ≤ (0 : ℤ).tdiv e := Int.tdiv_le_tdiv he hneg.le
        _ = 0 := Int.zero_tdiv e
        _ < limit := hlimit

section Parts

variable (negative : Bool) (rank : Fin (2047 * Nat.pow 2 52))

theorem exists_wholePart : ∃ whole, (finite negative rank).wholePart = .finite negative whole ∧
      signedUnits negative whole = (signedUnits negative rank).tdiv unitsPerOne * unitsPerOne := by
  obtain ⟨whole, hwhole, hunits⟩ := exists_units_wholePart negative rank
  refine ⟨whole, hwhole, ?_⟩
  rw [signedUnits_tdiv, signedUnits, hunits]
  split
  · rw [Int.neg_mul, Int.natCast_mul]
  · rw [Int.natCast_mul]

theorem toInt_wholePart
    (hlow : -9223372036854775808 * unitsPerOne ≤ signedUnits negative rank)
    (hhigh : signedUnits negative rank < 9223372036854775808 * unitsPerOne) :
    (finite negative rank).wholePart.toInt64.toInt =
      (signedUnits negative rank).tdiv unitsPerOne := by
  have hpos : (0 : ℤ) < unitsPerOne := Int.natCast_pos.2 unitsPerOne_pos
  obtain ⟨whole, hwhole, hunits⟩ := exists_wholePart negative rank
  obtain ⟨hmin, hmax⟩ := tdiv_within hpos (by decide) hlow hhigh
  rw [hwhole, toInt64, hunits, Int.mul_tdiv_cancel _ hpos.ne', min_eq_right (by omega),
    max_eq_right hmin]
  exact Int64.toInt_ofInt_of_le hmin hmax

theorem bySign_fraction :
    bySign ((finite negative rank).sub (finite negative rank).wholePart) =
      compare 0 ((signedUnits negative rank).tmod unitsPerOne) := by
  obtain ⟨whole, hwhole, hunits⟩ := exists_wholePart negative rank
  have hopposite : signedUnits (!negative) whole = -signedUnits negative whole := by
    cases negative <;> simp [signedUnits]
  have hsum : signedUnits negative rank + signedUnits (!negative) whole =
      (signedUnits negative rank).tmod unitsPerOne := by
    rw [hopposite, hunits, Int.tmod_def, Int.mul_comm, Int.sub_eq_add_neg]
  have hfraction : ((finite negative rank).sub (.finite negative whole)).compare? (zero false) =
      some (compare ((signedUnits negative rank).tmod unitsPerOne) 0) := by
    rw [sub, neg, add]
    simp only [hsum]
    exact compare?_rounded_zero _ _
  rw [hwhole, bySign, hfraction, Option.any_some, Option.any_some, Std.OrientedOrd.eq_swap]
  cases compare 0 ((signedUnits negative rank).tmod unitsPerOne) <;> rfl

theorem int64Limit_eq : int64Limit = .finite false ⟨1086 * Nat.pow 2 52, by decide⟩ := by
  decide +kernel

theorem units_int64Limit : units (1086 * Nat.pow 2 52) = 9223372036854775808 * unitsPerOne := by
  decide +kernel

theorem compare?_int64Limit :
    (finite negative rank).compare? int64Limit =
      some (compare (signedUnits negative rank) (9223372036854775808 * unitsPerOne)) := by
  have hlimit : signedUnits false (1086 * Nat.pow 2 52) = 9223372036854775808 * unitsPerOne := by
    rw [signedUnits, if_neg Bool.false_ne_true, units_int64Limit, Int.natCast_mul]
    rfl
  rw [int64Limit_eq, compare?_eq_extent, extent?, extent?, Option.bind_some, Option.map_some,
    compare_coe, hlimit]

theorem compare?_neg_int64Limit :
    (finite negative rank).compare? int64Limit.neg =
      some (compare (signedUnits negative rank) (-9223372036854775808 * unitsPerOne)) := by
  have hlimit : signedUnits true (1086 * Nat.pow 2 52) = -9223372036854775808 * unitsPerOne := by
    rw [signedUnits, if_pos rfl, units_int64Limit, Int.natCast_mul, ← Int.neg_mul]
    rfl
  rw [int64Limit_eq, neg, compare?_eq_extent, extent?, extent?, Option.bind_some, Option.map_some,
    compare_coe, Bool.not_false, hlimit]

end Parts

theorem compareByParts?_eq (n : Int64) (x : Binary64) :
    compareByParts? n x = x.compareInt? n.toInt := by
  cases x with
  | nan => rfl
  | infinite negative =>
    rw [compareByParts?, int64Limit_eq]
    cases negative <;> rfl
  | finite negative rank =>
    have hpos : (0 : ℤ) < unitsPerOne := Int.natCast_pos.2 unitsPerOne_pos
    have hmin : -9223372036854775808 * (unitsPerOne : ℤ) ≤ n.toInt * unitsPerOne :=
      Int.mul_le_mul_of_nonneg_right n.le_toInt hpos.le
    have hmax : n.toInt * unitsPerOne < 9223372036854775808 * unitsPerOne :=
      Int.mul_lt_mul_of_pos_right n.toInt_lt hpos
    have hnumber : ¬ (finite negative rank).isNaN = true := Bool.false_ne_true
    rw [compareByParts?, compareInt?, if_neg hnumber, compare?_int64Limit,
      compare?_neg_int64Limit, bySign_fraction, Option.any_some, Option.any_some]
    have hisLT : ∀ a b : ℤ, (compare a b).isLT = true ↔ a < b := fun a b =>
      Ordering.isLT_iff_eq_lt.trans compare_lt_iff_lt
    by_cases hbeyond : 9223372036854775808 * unitsPerOne ≤ signedUnits negative rank
    · rw [if_pos (Int.isGE_compare.2 hbeyond)]
      exact congrArg some (compare_lt_iff_lt.2 (hmax.trans_le hbeyond)).symm
    · rw [if_neg (by rwa [Int.isGE_compare])]
      by_cases hbelow : signedUnits negative rank < -9223372036854775808 * unitsPerOne
      · rw [if_pos ((hisLT _ _).2 hbelow)]
        exact congrArg some (compare_gt_iff_gt.2 (hbelow.trans_le hmin)).symm
      · rw [if_neg (by rwa [hisLT]), toInt_wholePart negative rank (by omega) (by omega)]
        exact congrArg some (compare_mul_eq hpos _ _).symm

end FormLogic.Binary64
