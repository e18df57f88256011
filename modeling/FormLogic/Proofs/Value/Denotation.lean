import FormLogic.Proofs.Value.WholePart
import Mathlib

/-! The rational numbers that values denote, binary64 numbers by their interchange form. Numbers
compare as what they denote, and a whole number is not rounded for that. -/

namespace FormLogic

namespace Binary64

def ofUnits (n : ℤ) : ℚ := n / unitsPerOne

theorem ofUnits_strictMono : StrictMono ofUnits := by
  have hpos : (0 : ℚ) < unitsPerOne := Nat.cast_pos.2 unitsPerOne_pos
  exact fun a b h => div_lt_div_of_pos_right (Int.cast_lt.2 h) hpos

theorem ofUnits_mul (n : ℤ) : ofUnits (n * unitsPerOne) = n := by
  have hne : (unitsPerOne : ℚ) ≠ 0 := Nat.cast_ne_zero.2 unitsPerOne_pos.ne'
  rw [ofUnits, Int.cast_mul, Int.cast_natCast, mul_div_cancel_right₀ _ hne]

def scaled : WithBot (WithTop ℤ) → WithBot (WithTop ℚ) := WithBot.map (WithTop.map ofUnits)

theorem scaled_strictMono : StrictMono scaled := ofUnits_strictMono.withTop_map.withBot_map

/-- The number with these fields for exponent and fraction. The least exponent has no leading one. -/
def magnitude (exponent fraction : ℕ) : ℚ :=
  if exponent = 0 then fraction * 2 ^ (-1074 : ℤ)
  else (2 ^ 52 + fraction) * 2 ^ ((exponent : ℤ) - 1075)

/-- What a bit pattern denotes: a sign bit, eleven exponent bits, 52 fraction bits. The greatest
exponent is that of the infinite numbers and of NaN, which denotes nothing. -/
def denotedByBits? (bits : ℕ) : Option (WithBot (WithTop ℚ)) :=
  let negative := bits / 2 ^ 63 % 2 = 1
  let exponent := bits / 2 ^ 52 % 2 ^ 11
  let fraction := bits % 2 ^ 52
  if exponent < 2047 then
    let x := magnitude exponent fraction
    some ((if negative then -x else x : ℚ) : WithBot (WithTop ℚ))
  else if fraction = 0 then some (if negative then ⊥ else ⊤)
  else none

theorem natCast_two_pow (k : ℕ) : ((Nat.pow 2 k : ℕ) : ℚ) = 2 ^ (k : ℤ) := by
  rw [zpow_natCast]
  exact Nat.cast_pow 2 k

theorem unitsPerOne_eq_zpow : (unitsPerOne : ℚ) = 2 ^ (1074 : ℤ) := by
  have hexponent : ((1074 : ℕ) : ℤ) = 1074 := rfl
  unfold unitsPerOne
  generalize (1074 : ℕ) = exponent at hexponent ⊢
  exact hexponent ▸ natCast_two_pow exponent

theorem ofUnits_units (rank : ℕ) :
    ofUnits (units rank) = magnitude (rank / 2 ^ 52) (rank % 2 ^ 52) := by
  have hpow : Nat.pow 2 52 = 2 ^ 52 := rfl
  have htwo : (2 : ℚ) ≠ 0 := two_ne_zero
  rw [ofUnits, Int.cast_natCast, unitsPerOne_eq_zpow, magnitude]
  split
  · next hzero =>
    have hdoublings : doublings rank = 0 := by
      rw [doublings, hpow, hzero]
    have hfraction : rank % 2 ^ 52 = rank := by omega
    have hone : Nat.pow 2 0 = 1 := rfl
    rw [units, hdoublings, hfraction, Nat.zero_mul, Nat.sub_zero, hone, Nat.mul_one, zpow_neg,
      div_eq_mul_inv]
  · next hexponent =>
    generalize hfraction : rank % 2 ^ 52 = fraction
    generalize hexp : rank / 2 ^ 52 = exponent at hexponent ⊢
    obtain ⟨exponent, rfl⟩ := Nat.exists_eq_succ_of_ne_zero hexponent
    have hdoublings : doublings rank = exponent := by
      rw [doublings, hpow, hexp, Nat.succ_sub_one]
    have hcount : rank - exponent * Nat.pow 2 52 = 2 ^ 52 + fraction := by
      rw [hpow]
      omega
    have hsum : ((exponent.succ : ℕ) : ℤ) - 1075 = exponent - 1074 := by
      push_cast
      omega
    rw [units, hdoublings, hcount, Nat.cast_mul, natCast_two_pow, hsum, zpow_sub₀ htwo,
      mul_div_assoc, Nat.cast_add, Nat.cast_pow, Nat.cast_ofNat]

theorem ofUnits_neg (n : ℤ) : ofUnits (-n) = -ofUnits n := by
  rw [ofUnits, ofUnits, Int.cast_neg, neg_div]

theorem scaled_coe (n : ℤ) : scaled n = (ofUnits n : WithBot (WithTop ℚ)) := rfl

theorem scaled_signedUnits (negative : Bool) (rank : ℕ) :
    scaled (signedUnits negative rank : ℤ) =
      ((if negative then -magnitude (rank / 2 ^ 52) (rank % 2 ^ 52)
        else magnitude (rank / 2 ^ 52) (rank % 2 ^ 52) : ℚ) : WithBot (WithTop ℚ)) := by
  rw [← ofUnits_units, scaled_coe, signedUnits]
  cases negative with
  | false => rw [if_neg Bool.false_ne_true, if_neg Bool.false_ne_true]
  | true => rw [if_pos rfl, if_pos rfl, ofUnits_neg]

theorem denotedByBits?_eq (bits : ℕ) :
    denotedByBits? bits = (ofBits bits).extent?.map scaled := by
  have hhalf : Nat.pow 2 63 = 2 ^ 63 := rfl
  have hwhole : Nat.pow 2 64 = 2 ^ 64 := rfl
  have hranks : ranks = 2047 * 2 ^ 52 := rfl
  have hnegative : decide (Nat.pow 2 63 ≤ bits % Nat.pow 2 64) = decide (bits / 2 ^ 63 % 2 = 1) := by
    rw [hhalf, hwhole, decide_eq_decide]
    omega
  have hexponent : bits % 2 ^ 63 / 2 ^ 52 = bits / 2 ^ 52 % 2 ^ 11 := by omega
  have hfraction : bits % 2 ^ 63 % 2 ^ 52 = bits % 2 ^ 52 := by omega
  rw [denotedByBits?, ofBits, hnegative, hhalf]
  by_cases hfinite : bits % 2 ^ 63 < ranks
  · rw [if_pos (by omega), dif_pos hfinite, extent?, Option.map_some, scaled_signedUnits, hexponent,
      hfraction]
    simp only [decide_eq_true_eq]
  · rw [if_neg (by omega), dif_neg hfinite]
    by_cases hinfinite : bits % 2 ^ 63 = ranks
    · rw [if_pos (by omega), if_pos hinfinite]
      by_cases hsign : bits / 2 ^ 63 % 2 = 1 <;>
        simp only [hsign, decide_true, decide_false, ↓reduceIte] <;> rfl
    · rw [if_neg (by omega), if_neg hinfinite]
      rfl

theorem ofBits_of_toBits? {x : Binary64} {bits : ℕ} (h : x.toBits? = some bits) :
    ofBits bits = x := by
  have hhalf : Nat.pow 2 63 = 2 ^ 63 := rfl
  have hwhole : Nat.pow 2 64 = 2 ^ 64 := rfl
  have hranks : ranks = 2047 * 2 ^ 52 := rfl
  cases x with
  | nan => exact absurd h nofun
  | infinite negative =>
    obtain rfl := Option.some.inj h
    cases negative <;> decide
  | finite negative rank =>
    obtain rfl := Option.some.inj h
    have hrank : rank.val < ranks := rank.isLt
    have hmagnitude : (rank.val + if negative then Nat.pow 2 63 else 0) % Nat.pow 2 63 = rank := by
      rw [hhalf]
      split <;> omega
    have hnegative : decide (Nat.pow 2 63 ≤
        (rank.val + if negative then Nat.pow 2 63 else 0) % Nat.pow 2 64) = negative := by
      rw [hhalf, hwhole]
      cases negative <;> simp <;> omega
    simp only [ofBits, hmagnitude, hnegative, dif_pos hrank]

theorem toBits?_eq_none_iff {x : Binary64} : x.toBits? = none ↔ x.extent? = none := by
  cases x with
  | infinite negative => cases negative <;> simp [toBits?, extent?]
  | _ => simp [toBits?, extent?]

end Binary64

namespace Value

/-- The rational or infinite number that a value denotes. Only numbers denote any, and NaN does not. -/
def denoted? : Value → Option (WithBot (WithTop ℚ))
  | .int n => some (n.toInt : ℚ)
  | .float x => x.toBits?.bind Binary64.denotedByBits?
  | _ => none

theorem denoted?_eq_extent (v : Value) : v.denoted? = v.extent?.map Binary64.scaled := by
  cases v with
  | int n =>
    rw [denoted?, extent?, Option.map_some, Binary64.scaled_coe, Binary64.ofUnits_mul]
  | float x =>
    rw [denoted?, extent?]
    cases hbits : x.toBits? with
    | none => rw [Binary64.toBits?_eq_none_iff.1 hbits, Option.bind_none, Option.map_none]
    | some bits =>
      rw [Option.bind_some, Binary64.denotedByBits?_eq, Binary64.ofBits_of_toBits? hbits]
  | _ => rfl

theorem denoted?_eq_none_iff {v : Value} :
    v.denoted? = none ↔ v.isNumber = false ∨ v = .float .nan := by
  rw [denoted?_eq_extent, Option.map_eq_none_iff]
  constructor
  · intro h
    cases v with
    | int n => cases h
    | float x =>
      cases x with
      | nan => exact .inr rfl
      | infinite negative => cases negative <;> cases h
      | finite negative rank => cases h
    | _ => exact .inl rfl
  · rintro (h | rfl)
    · cases v with
      | int n => cases h
      | float x => cases h
      | _ => rfl
    · rfl

/-- Numbers compare as what they denote, a binary64 number by its bits; nothing compares with NaN or
with what is no number. The comparison of a whole with a binary64 number by limits, whole part and
fraction comes to the same. -/
theorem compareNumbers?_eq_compare_denoted :
    (∀ v w : Value, v.compareNumbers? w = v.denoted?.bind fun a => w.denoted?.map (compare a)) ∧
    (∀ bits, (Value.float (.ofBits bits)).denoted? = Binary64.denotedByBits? bits) ∧
    (∀ v : Value, v.denoted? = none ↔ v.isNumber = false ∨ v = .float .nan) ∧
    (∀ (n : Int64) (x : Binary64),
      (Value.int n).compareNumbers? (.float x) = x.compareByParts? n ∧
      (Value.float x).compareNumbers? (.int n) = (x.compareByParts? n).map Ordering.swap) := by
  refine ⟨fun v w => ?_, fun bits => ?_, fun v => denoted?_eq_none_iff, fun n x => ?_⟩
  · have hcompare : ∀ a b, compare (Binary64.scaled a) (Binary64.scaled b) = compare a b := by
      intro a b
      rw [← cmp_eq_compare, ← cmp_eq_compare]
      exact Binary64.scaled_strictMono.cmp_map_eq a b
    rw [compareNumbers?_eq_extent, denoted?_eq_extent, denoted?_eq_extent]
    cases v.extent? with
    | none => rfl
    | some a =>
      simp only [Option.bind_some, Option.map_some, Option.map_map, Function.comp_def, hcompare]
  · rw [denoted?_eq_extent, Binary64.denotedByBits?_eq]
    rfl
  · rw [Binary64.compareByParts?_eq]
    exact ⟨rfl, rfl⟩

example : (Value.int 9007199254740993).compareNumbers? (.float (.ofInt 9007199254740992)) =
    some .gt := by decide +kernel

end Value

end FormLogic
