import FormLogic.Binary64

/-! Decimal numbers and the choice of a decimal for a binary64 number: the coarsest power of ten
of which some multiple reads back, and on that grid the multiple nearest to the number. The last
grid, `10 ^ -1074`, holds every finite number exactly. -/

namespace FormLogic

/-- The number `coefficient * 10 ^ exponent`. -/
structure Decimal where
  coefficient : Nat
  exponent : Int
  deriving DecidableEq

namespace Decimal

def toBinary64 (negative : Bool) (d : Decimal) : Binary64 :=
  if d.exponent < 0 then .ofRatio negative d.coefficient (Nat.pow 10 d.exponent.natAbs)
  else .ofRatio negative (d.coefficient * Nat.pow 10 d.exponent.natAbs) 1

inductive Tie
  | up
  | even

/-- Of `lower` and `lower + 1` the one that `num / den` is nearer to, when it lies `rest / den`
above `lower`. -/
def Tie.choose (tie : Tie) (lower rest den : Nat) : Nat :=
  if 2 * rest < den then lower
  else if den < 2 * rest then lower + 1
  else match tie with
    | .up => lower + 1
    | .even => if lower % 2 = 0 then lower else lower + 1

/-- The multiple of `10 ^ exponent` nearest to the number of this rank among those that read back
as it. -/
def onGrid? (tie : Tie) (rank : Fin Binary64.ranks) (exponent : Int) : Option Decimal :=
  let num := Binary64.units rank * if exponent < 0 then Nat.pow 10 exponent.natAbs else 1
  let den := Binary64.unitsPerOne * if exponent < 0 then 1 else Nat.pow 10 exponent.natAbs
  let lower : Decimal := ⟨num / den, exponent⟩
  let upper : Decimal := ⟨num / den + 1, exponent⟩
  let readsBack (d : Decimal) : Bool := d.toBinary64 false = .finite false rank
  match readsBack lower, readsBack upper with
  | true, true => some ⟨tie.choose lower.coefficient (num % den) den, exponent⟩
  | true, false => some lower
  | false, true => some upper
  | false, false => none

def onCoarsestGrid (tie : Tie) (rank : Fin Binary64.ranks) : (grids : Nat) → Decimal
  | 0 => ⟨Binary64.units rank * Nat.pow 5 1074, -1074⟩
  | grids + 1 =>
    match onGrid? tie rank (grids + 1 - 1074) with
    | some d => d
    | none => onCoarsestGrid tie rank grids

/-- The decimal with the fewest digits that reads back as the number of this rank. -/
def shortest (tie : Tie) (rank : Fin Binary64.ranks) : Decimal :=
  if rank.val = 0 then ⟨0, 0⟩
  else
    let whole := Binary64.units rank / Binary64.unitsPerOne
    onCoarsestGrid tie rank ((Nat.toDigits 10 whole).length + 1074)

def digits (d : Decimal) : List Char := Nat.toDigits 10 d.coefficient

def positional (d : Decimal) : List Char × List Char :=
  let shift := d.exponent.natAbs
  if d.exponent < 0 then
    if shift < d.digits.length then d.digits.splitAt (d.digits.length - shift)
    else (['0'], List.replicate (shift - d.digits.length) '0' ++ d.digits)
  else (d.digits ++ List.replicate shift '0', [])

end Decimal

end FormLogic
