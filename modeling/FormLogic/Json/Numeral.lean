import FormLogic.Binary64.Arithmetic
import FormLogic.Decimal
import FormLogic.Json
import FormLogic.Value.Text

/-! Numbers in JSON texts. A whole number is kept if it has a 64-bit form. Any other number is read
by one product or quotient of its leading digits, as many as 64 bits hold, with a power of ten; so
the result need not be the nearest one. -/

namespace FormLogic.Json.Numeral

def powerOfTen (n : Nat) : Binary64 := .ofRatio false (Nat.pow 10 n) 1

def maxPower : Nat := 308

/-- Appends digits to a number as long as it stays below `2 ^ 64`; the others are left over. -/
def takeDigits (n : Nat) : List Char → Nat × List Char
  | [] => (n, [])
  | c :: rest =>
    let next := Nat.ofDigitChars 10 [c] n
    if next < UInt64.size then takeDigits next rest else (n, c :: rest)

def scaleDown (x : Binary64) (power : Nat) : Binary64 :=
  if power ≤ maxPower then x.div (powerOfTen power)
  else if x.isZero then x
  else scaleDown (x.div (powerOfTen maxPower)) (power - maxPower)
termination_by power
decreasing_by simp only [maxPower] at *; omega

def scaleUp? (x : Binary64) (power : Nat) : Option Binary64 :=
  if power ≤ maxPower then
    let scaled := x.mul (powerOfTen power)
    if scaled.isFinite then some scaled else none
  else if x.isZero then some x
  else none

def scaled? (digits : Nat) (exponent : Int) : Option Binary64 :=
  let x := Binary64.ofInt digits
  if exponent < 0 then some (scaleDown x exponent.natAbs) else scaleUp? x exponent.natAbs

def clampExponent (n : Int) : Int := max (-2147483648) (min n 2147483647)

/-- The absolute value of a number that is not kept as a whole one. An exponent beyond 32 bits
makes it zero or too great. -/
def magnitude? (n : Numeral) : Option Binary64 :=
  let (leading, moreWhole) := takeDigits 0 n.whole
  let (digits, dropped) := takeDigits leading n.fraction
  let exponent : Int := moreWhole.length - (n.fraction.length - dropped.length : Nat)
  match n.exponent with
  | none => scaled? digits exponent
  | some (negative, written) =>
    let power := Nat.ofDigitChars 10 written 0
    if power < 2147483648 then
      scaled? digits (clampExponent (if negative then exponent - power else exponent + power))
    else if digits = 0 ∨ negative then some (.zero false)
    else none

def signed (negative : Bool) (x : Binary64) : Binary64 := if negative then x.neg else x

def whole? (n : Numeral) : Option Int64 :=
  if n.fraction.isEmpty && n.exponent.isNone then
    let magnitude := Nat.ofDigitChars 10 n.whole 0
    if n.negative then if magnitude = 0 then none else Value.int64? (-(magnitude : Int))
    else Value.int64? magnitude
  else none

def toValue? (n : Numeral) : Option Value :=
  match n.whole? with
  | some i => some (.int i)
  | none => n.magnitude?.map fun x => .float (signed n.negative x)

def ofInt (n : Int) : Numeral := ⟨n < 0, Nat.toDigits 10 n.natAbs, [], none⟩

/-- Positional from `1e-5` to below `1e16`, with a digit after the point; otherwise one digit
before the point and an exponent. -/
def ofDecimal (negative : Bool) (d : Decimal) : Numeral :=
  let power : Int := d.digits.length + d.exponent - 1
  if d.coefficient = 0 ∨ (-5 ≤ power ∧ power < 16) then
    let (whole, fraction) := d.positional
    ⟨negative, whole, if fraction.isEmpty then ['0'] else fraction, none⟩
  else
    ⟨negative, d.digits.take 1, d.digits.drop 1,
      some (power < 0, Nat.toDigits 10 power.natAbs)⟩

/-- The fewest digits that read back when rounded to the nearest number; of two equally near the
even one. Only finite numbers have a numeral. -/
def ofBinary64? : Binary64 → Option Numeral
  | .finite negative rank => some (ofDecimal negative (Decimal.shortest .even rank))
  | _ => none

def chars (n : Numeral) : List Char :=
  Binary64.signed n.negative
    (n.whole ++ (if n.fraction.isEmpty then [] else '.' :: n.fraction) ++
      match n.exponent with
      | none => []
      | some (negative, digits) => 'e' :: (if negative then '-' else '+') :: digits)

def digits? (cs : List Char) : Option (List Char × List Char) :=
  if (cs.takeWhile Char.isDigit).isEmpty then none
  else some (cs.takeWhile Char.isDigit, cs.dropWhile Char.isDigit)

def readWhole? (cs : List Char) : Option (List Char × List Char) :=
  match digits? cs with
  | some ('0' :: _ :: _, _) => none
  | found => found

def readFraction? : List Char → Option (List Char × List Char)
  | '.' :: rest => digits? rest
  | rest => some ([], rest)

def readExponentDigits? (negative : Bool) (cs : List Char) :
    Option (Option (Bool × List Char) × List Char) :=
  (digits? cs).map fun (digits, rest) => (some (negative, digits), rest)

def readExponent? (cs : List Char) : Option (Option (Bool × List Char) × List Char) :=
  match cs with
  | c :: rest =>
    if c = 'e' ∨ c = 'E' then
      match rest with
      | '+' :: rest => readExponentDigits? false rest
      | '-' :: rest => readExponentDigits? true rest
      | rest => readExponentDigits? false rest
    else some (none, cs)
  | [] => some (none, [])

def read? (negative : Bool) (cs : List Char) : Option (Numeral × List Char) := do
  let (whole, cs) ← readWhole? cs
  let (fraction, cs) ← readFraction? cs
  let (exponent, cs) ← readExponent? cs
  return (⟨negative, whole, fraction, exponent⟩, cs)

end FormLogic.Json.Numeral
