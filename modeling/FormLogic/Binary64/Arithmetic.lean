import FormLogic.Binary64

/-! Arithmetic on binary64 numbers: the exact result in units, rounded once. -/

namespace FormLogic.Binary64

def neg : Binary64 → Binary64
  | .finite negative rank => .finite (!negative) rank
  | .infinite negative => .infinite (!negative)
  | .nan => .nan

def abs : Binary64 → Binary64
  | .finite _ rank => .finite false rank
  | .infinite _ => .infinite false
  | .nan => .nan

/-- A sum that is exactly zero is negative only if both terms are. -/
def add : Binary64 → Binary64 → Binary64
  | .nan, _ | _, .nan => .nan
  | .infinite s, .infinite t => if s = t then .infinite s else .nan
  | .infinite s, .finite .. => .infinite s
  | .finite .., .infinite t => .infinite t
  | .finite s a, .finite t b =>
    let sum := signedUnits s a + signedUnits t b
    if sum = 0 then zero (s && t) else nearest (sum < 0) sum.natAbs 1

def sub (x y : Binary64) : Binary64 := x.add y.neg

def mul : Binary64 → Binary64 → Binary64
  | .nan, _ | _, .nan => .nan
  | .infinite s, .infinite t => .infinite (s != t)
  | .infinite s, .finite t b => if b.val = 0 then .nan else .infinite (s != t)
  | .finite s a, .infinite t => if a.val = 0 then .nan else .infinite (s != t)
  | .finite s a, .finite t b => nearest (s != t) (units a * units b) unitsPerOne

def div : Binary64 → Binary64 → Binary64
  | .nan, _ | _, .nan => .nan
  | .infinite _, .infinite _ => .nan
  | .infinite s, .finite t _ => .infinite (s != t)
  | .finite s _, .infinite t => zero (s != t)
  | .finite s a, .finite t b =>
    if b.val = 0 then if a.val = 0 then .nan else .infinite (s != t)
    else nearest (s != t) (units a * unitsPerOne) (units b)

/-- The remainder of the quotient cut toward zero; it has the sign of the dividend. -/
def rem : Binary64 → Binary64 → Binary64
  | .nan, _ | _, .nan => .nan
  | .infinite _, _ => .nan
  | .finite s a, .infinite _ => .finite s a
  | .finite s a, .finite _ b => if b.val = 0 then .nan else nearest s (units a % units b) 1

def isWhole (rank : Nat) : Bool := units rank % unitsPerOne == 0

def floor (negative : Bool) (rank : Nat) : Int := signedUnits negative rank / unitsPerOne

def ceil (negative : Bool) (rank : Nat) : Int := -(-signedUnits negative rank / unitsPerOne)

/-- The nearest whole number; a half goes away from zero. -/
def round (negative : Bool) (rank : Nat) : Int :=
  let magnitude : Nat := (2 * units rank + unitsPerOne) / (2 * unitsPerOne)
  if negative then -(magnitude : Int) else magnitude

end FormLogic.Binary64
