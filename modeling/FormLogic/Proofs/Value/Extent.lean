import FormLogic.Value.Comparison
import Mathlib.Order.Compare
import Mathlib.Order.WithBotTop
import Mathlib.Order.ConditionallyCompleteLattice.Basic
import Mathlib.Data.Int.ConditionallyCompleteOrder

/-! What numbers denote. Ranks of binary64 numbers are in the order of the values at them, so that
numbers of both forms compare by one exact quantity. -/

namespace FormLogic

namespace Binary64

theorem unitsPerOne_pos : 0 < unitsPerOne := by
  unfold unitsPerOne
  generalize 1074 = exponent
  exact Nat.two_pow_pos exponent

theorem units_lt_units_succ (rank : Nat) : units rank < units (rank + 1) := by
  have hpow : Nat.pow 2 52 = 4503599627370496 := rfl
  have hcut : doublings rank * Nat.pow 2 52 ≤ rank := by
    simp only [doublings, hpow]
    omega
  have hcases : doublings (rank + 1) = doublings rank ∨
      (doublings (rank + 1) = doublings rank + 1 ∧
        rank + 1 = (doublings rank + 2) * Nat.pow 2 52) := by
    simp only [doublings, hpow]
    omega
  rcases hcases with hsame | ⟨hnext, hrank⟩
  · rw [units, units, hsame]
    refine Nat.mul_lt_mul_of_pos_right ?_ (Nat.pow_pos (by decide))
    omega
  · have hold : rank - doublings rank * Nat.pow 2 52 < 2 * Nat.pow 2 52 := by
      rw [hpow] at hrank ⊢
      omega
    have hnew : rank + 1 - (doublings rank + 1) * Nat.pow 2 52 = Nat.pow 2 52 := by
      rw [hpow] at hrank ⊢
      omega
    have hdouble : Nat.pow 2 (doublings rank + 1) = 2 * Nat.pow 2 (doublings rank) :=
      Nat.pow_succ'
    rw [units, units, hnext, hnew, hdouble, ← Nat.mul_assoc, Nat.mul_comm (Nat.pow 2 52) 2]
    exact Nat.mul_lt_mul_of_pos_right hold (Nat.pow_pos (by decide))

theorem units_zero : units 0 = 0 := by rw [units, Nat.zero_sub, Nat.zero_mul]

def extentAt (key : Int) : Int := if key < 0 then -(units key.natAbs : Int) else units key.natAbs

theorem extentAt_natCast (rank : Nat) : extentAt rank = units rank := by
  rw [extentAt, if_neg (by omega), Int.natAbs_natCast]

theorem extentAt_neg_natCast (rank : Nat) : extentAt (-(rank : Int)) = -(units rank : Int) := by
  cases rank with
  | zero => simp [extentAt, units_zero]
  | succ rank => rw [extentAt, if_pos (by omega), Int.natAbs_neg, Int.natAbs_natCast]

theorem signedUnits_eq_extentAt (negative : Bool) (rank : Nat) :
    signedUnits negative rank = extentAt (if negative then -(rank : Int) else rank) := by
  cases negative with
  | false =>
    rw [signedUnits, if_neg Bool.false_ne_true, if_neg Bool.false_ne_true, extentAt_natCast]
  | true => rw [signedUnits, if_pos rfl, if_pos rfl, extentAt_neg_natCast]

theorem extentAt_strictMono : StrictMono extentAt := by
  refine strictMono_int_of_lt_succ fun key => ?_
  cases key with
  | ofNat rank =>
    have hlt := units_lt_units_succ rank
    have hnext := extentAt_natCast (rank + 1)
    rw [Int.natCast_add, Int.natCast_one] at hnext
    rw [Int.ofNat_eq_natCast, hnext, extentAt_natCast]
    exact Int.ofNat_lt.2 hlt
  | negSucc rank =>
    have hlt := units_lt_units_succ rank
    have hnext : -((rank + 1 : Nat) : Int) + 1 = -(rank : Int) := by omega
    rw [Int.negSucc_eq, ← Int.natCast_add_one, hnext, extentAt_neg_natCast, extentAt_neg_natCast]
    exact Int.neg_lt_neg (Int.ofNat_lt.2 hlt)

/-- What a number denotes, in units; infinite numbers lie beyond all others. -/
def extent? : Binary64 → Option (WithBot (WithTop Int))
  | .finite negative rank => some (signedUnits negative rank : Int)
  | .infinite true => some ⊥
  | .infinite false => some ⊤
  | .nan => none

theorem compare_coe (a b : Int) : compare (a : WithBot (WithTop Int)) b = compare a b := by
  have hmono : StrictMono fun a : Int => (a : WithBot (WithTop Int)) :=
    WithBot.coe_strictMono.comp WithTop.coe_strictMono
  rw [← cmp_eq_compare, ← cmp_eq_compare]
  exact hmono.cmp_map_eq a b

theorem compare_extentAt (a b : Int) : compare (extentAt a) (extentAt b) = compare a b := by
  rw [← cmp_eq_compare, ← cmp_eq_compare]
  exact extentAt_strictMono.cmp_map_eq a b

theorem compare_eq_of_lt {a b : Int} {x y : WithBot (WithTop Int)} (h : a < b) (h' : x < y) :
    compare a b = compare x y := (compare_lt_iff_lt.2 h).trans (compare_lt_iff_lt.2 h').symm

theorem compare_eq_of_gt {a b : Int} {x y : WithBot (WithTop Int)} (h : b < a) (h' : y < x) :
    compare a b = compare x y := (compare_gt_iff_gt.2 h).trans (compare_gt_iff_gt.2 h').symm

theorem compare?_eq_extent (x y : Binary64) :
    x.compare? y = x.extent?.bind fun a => y.extent?.map (compare a) := by
  have hranks : -(ranks : Int) < ranks := by decide
  have hkey : ∀ (negative : Bool) (rank : Fin (2047 * Nat.pow 2 52)),
      -(ranks : Int) < (if negative then -(rank.val : Int) else rank.val) ∧
        (if negative then -(rank.val : Int) else rank.val) < (ranks : Int) := by
    intro negative rank
    have hrank : rank.val < ranks := rank.isLt
    split <;> omega
  have hbelow : ∀ n : Int, (n : WithBot (WithTop Int)) < ⊤ := fun n =>
    WithBot.coe_lt_coe.2 (WithTop.coe_lt_top n)
  have habove : ∀ n : Int, ⊥ < (n : WithBot (WithTop Int)) := fun n => WithBot.bot_lt_coe _
  cases x with
  | nan => rfl
  | infinite s =>
    cases y with
    | nan => cases s <;> rfl
    | infinite t =>
      cases s <;> cases t
      · simp [compare?, orderKey?, extent?]
      · exact congrArg some (compare_eq_of_gt hranks bot_lt_top)
      · exact congrArg some (compare_eq_of_lt hranks bot_lt_top)
      · simp [compare?, orderKey?, extent?]
    | finite t b =>
      cases s
      · exact congrArg some (compare_eq_of_gt (hkey t b).2 (hbelow _))
      · exact congrArg some (compare_eq_of_lt (hkey t b).1 (habove _))
  | finite s a =>
    cases y with
    | nan => rfl
    | infinite t =>
      cases t
      · exact congrArg some (compare_eq_of_lt (hkey s a).2 (hbelow _))
      · exact congrArg some (compare_eq_of_gt (hkey s a).1 (habove _))
    | finite t b =>
      simp only [compare?, orderKey?, extent?, Option.bind_some, Option.map_some, compare_coe,
        signedUnits_eq_extentAt, compare_extentAt]

theorem compareInt?_eq_extent (n : Int) (x : Binary64) :
    x.compareInt? n =
      x.extent?.map (compare ((n * unitsPerOne : Int) : WithBot (WithTop Int))) := by
  cases x with
  | nan => rfl
  | infinite s =>
    cases s
    · exact congrArg some (compare_lt_iff_lt.2 (WithBot.coe_lt_coe.2 (WithTop.coe_lt_top _))).symm
    · exact congrArg some (compare_gt_iff_gt.2 (WithBot.bot_lt_coe _)).symm
  | finite s a => simp only [compareInt?, extent?, Option.map_some, compare_coe]

end Binary64

namespace Value

def extent? : Value → Option (WithBot (WithTop Int))
  | .int n => some (n.toInt * Binary64.unitsPerOne : Int)
  | .float x => x.extent?
  | _ => none

theorem compareNumbers?_eq_extent (v w : Value) :
    v.compareNumbers? w = v.extent?.bind fun a => w.extent?.map (compare a) := by
  have hpos : (0 : Int) < Binary64.unitsPerOne := Int.natCast_pos.2 Binary64.unitsPerOne_pos
  have hscale : StrictMono fun n : Int => n * Binary64.unitsPerOne := fun a b h =>
    Int.mul_lt_mul_of_pos_right h hpos
  cases v with
  | int n =>
    cases w with
    | int m =>
      simp only [compareNumbers?, extent?, Option.bind_some, Option.map_some, Binary64.compare_coe]
      rw [← cmp_eq_compare, ← cmp_eq_compare]
      exact congrArg some (hscale.cmp_map_eq n.toInt m.toInt).symm
    | float y => exact Binary64.compareInt?_eq_extent n.toInt y
    | _ => rfl
  | float x =>
    cases w with
    | int m =>
      simp only [compareNumbers?, extent?, Binary64.compareInt?_eq_extent]
      cases x.extent? with
      | none => rfl
      | some a => exact congrArg some Std.OrientedOrd.eq_swap.symm
    | float y => exact Binary64.compare?_eq_extent x y
    | _ => cases h : x.extent? <;> simp [compareNumbers?, extent?, h]
  | _ => rfl

end Value

end FormLogic
