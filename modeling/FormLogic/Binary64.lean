/-! Binary64 numbers with one NaN. A finite number is its sign and its rank, the place of its
absolute value among all finite ones in ascending order, so every number has one form. Absolute
values are counted in units of `2 ^ -1074`, of which every finite number is a whole multiple. -/

namespace FormLogic

inductive Binary64
  | finite (negative : Bool) (rank : Fin (2047 * Nat.pow 2 52))
  | infinite (negative : Bool)
  | nan
  deriving DecidableEq

namespace Binary64

def ranks : Nat := 2047 * Nat.pow 2 52

def unitsPerOne : Nat := Nat.pow 2 1074

/-- How often the spacing doubles between rank zero and `rank`. -/
def doublings (rank : Nat) : Nat := rank / Nat.pow 2 52 - 1

/-- The absolute value at a rank, in units. -/
def units (rank : Nat) : Nat :=
  (rank - doublings rank * Nat.pow 2 52) * Nat.pow 2 (doublings rank)

def signedUnits (negative : Bool) (rank : Nat) : Int :=
  if negative then -(units rank : Int) else units rank

/-- The whole number nearest to `num / den`; a half goes to the even neighbour. -/
def roundEven (num den : Nat) : Nat :=
  let rest := num % den
  if 2 * rest < den ∨ (2 * rest = den ∧ num / den % 2 = 0) then num / den else num / den + 1

def nearestRank (num den : Nat) : Nat :=
  let doubled := (num / den).log2 - 52
  doubled * Nat.pow 2 52 + roundEven num (den * Nat.pow 2 doubled)

/-- The number nearest to `num / den` units; past the greatest finite number it is infinite. -/
def nearest (negative : Bool) (num den : Nat) : Binary64 :=
  if h : nearestRank num den < ranks then .finite negative ⟨nearestRank num den, h⟩
  else .infinite negative

def ofRatio (negative : Bool) (num den : Nat) : Binary64 := nearest negative (num * unitsPerOne) den

def ofInt (n : Int) : Binary64 := ofRatio (n < 0) n.natAbs 1

def zero (negative : Bool) : Binary64 := .finite negative ⟨0, by decide⟩

def isZero : Binary64 → Bool
  | .finite _ rank => rank.val == 0
  | _ => false

def isFinite : Binary64 → Bool
  | .finite .. => true
  | _ => false

def isNaN : Binary64 → Bool
  | .nan => true
  | _ => false

/-- The interchange form: sign bit, eleven exponent bits, 52 fraction bits. NaN has none. -/
def toBits? : Binary64 → Option Nat
  | .finite negative rank => some (rank.val + if negative then Nat.pow 2 63 else 0)
  | .infinite negative => some (ranks + if negative then Nat.pow 2 63 else 0)
  | .nan => none

def ofBits (bits : Nat) : Binary64 :=
  let negative := decide (Nat.pow 2 63 ≤ bits % Nat.pow 2 64)
  let magnitude := bits % Nat.pow 2 63
  if h : magnitude < ranks then .finite negative ⟨magnitude, h⟩
  else if magnitude = ranks then .infinite negative
  else .nan

/-- A whole number that orders all numbers but NaN; the two zeros share it. -/
def orderKey? : Binary64 → Option Int
  | .finite negative rank => some (if negative then -(rank.val : Int) else rank.val)
  | .infinite negative => some (if negative then -(ranks : Int) else ranks)
  | .nan => none

def compare? (x y : Binary64) : Option Ordering :=
  match x.orderKey?, y.orderKey? with
  | some a, some b => some (compare a b)
  | _, _ => none

def compareInt? (n : Int) : Binary64 → Option Ordering
  | .finite negative rank => some (compare (n * unitsPerOne) (signedUnits negative rank))
  | .infinite negative => some (if negative then .gt else .lt)
  | .nan => none

def numEq (x y : Binary64) : Bool := x.compare? y == some .eq

end Binary64

end FormLogic
