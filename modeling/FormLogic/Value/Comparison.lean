import FormLogic.Value

/-! Order and equality of values. Numbers compare by what they denote, whether whole or binary64;
arrays and objects agree element by element. -/

namespace FormLogic.Value

def compareNumbers? : Value → Value → Option Ordering
  | .int a, .int b => some (compare a.toInt b.toInt)
  | .float a, .float b => a.compare? b
  | .int a, .float b => b.compareInt? a.toInt
  | .float a, .int b => (a.compareInt? b.toInt).map Ordering.swap
  | _, _ => none

mutual

/-- Same kind and same content, numbers by what they denote. -/
def agrees : Value → Value → Bool
  | .null, .null => true
  | .bool a, .bool b => a == b
  | .string a, .string b => a == b
  | .array as, .array bs => agreeAll as bs
  | .object as, .object bs => entriesAgree as bs
  | a, b => compareNumbers? a b == some .eq

def agreeAll : List Value → List Value → Bool
  | [], [] => true
  | a :: as, b :: bs => agrees a b && agreeAll as bs
  | _, _ => false

def entriesAgree : List (String × Value) → List (String × Value) → Bool
  | [], [] => true
  | (k, a) :: as, (l, b) :: bs => k == l && agrees a b && entriesAgree as bs
  | _, _ => false

end

mutual

/-- Same form: a whole number is never a binary64 one. NaN differs from itself, and the two zeros
are not told apart. -/
def sameForm : Value → Value → Bool
  | .null, .null => true
  | .bool a, .bool b => a == b
  | .int a, .int b => a == b
  | .float a, .float b => a.numEq b
  | .string a, .string b => a == b
  | .array as, .array bs => sameForms as bs
  | .object as, .object bs => entriesSameForm as bs
  | _, _ => false

def sameForms : List Value → List Value → Bool
  | [], [] => true
  | a :: as, b :: bs => sameForm a b && sameForms as bs
  | _, _ => false

def entriesSameForm : List (String × Value) → List (String × Value) → Bool
  | [], [] => true
  | (k, a) :: as, (l, b) :: bs => k == l && sameForm a b && entriesSameForm as bs
  | _, _ => false

end

end FormLogic.Value
