import FormLogic.Binary64.Arithmetic
import FormLogic.Decimal
import FormLogic.Value

/-! The text of a value, as conditions write it. -/

namespace FormLogic

def intChars (n : Int) : List Char :=
  if n < 0 then '-' :: Nat.toDigits 10 n.natAbs else Nat.toDigits 10 n.natAbs

namespace Binary64

def signed (negative : Bool) (chars : List Char) : List Char :=
  if negative then '-' :: chars else chars

/-- The fewest digits that read back, without exponent; of two equally near the greater. -/
def shortestChars : Binary64 → List Char
  | .finite negative rank =>
    let (whole, fraction) := (Decimal.shortest .up rank).positional
    signed negative (if fraction.isEmpty then whole else whole ++ '.' :: fraction)
  | .infinite negative => signed negative "inf".toList
  | .nan => "NaN".toList

def chars : Binary64 → List Char
  | .finite negative rank =>
    if isWhole rank then
      signed negative (Nat.toDigits 10 (units rank / unitsPerOne) ++ ['.', '0'])
    else shortestChars (.finite negative rank)
  | x => shortestChars x

end Binary64

namespace Value

def escapeChar : Char → List Char
  | '"' => ['\\', '"']
  | '\\' => ['\\', '\\']
  | '\n' => ['\\', 'n']
  | '\t' => ['\\', 't']
  | c => [c]

def stringChars (s : String) : List Char := '"' :: s.toList.flatMap escapeChar ++ ['"']

mutual

def chars : Value → List Char
  | .null => "null".toList
  | .bool b => (toString b).toList
  | .int n => intChars n.toInt
  | .float x => x.chars
  | .string s => stringChars s
  | .array items => '[' :: itemsChars items ++ [']']
  | .object entries => "\x7b".toList ++ entriesChars entries ++ "\x7d".toList

def itemsChars : List Value → List Char
  | [] => []
  | [v] => chars v
  | v :: w :: rest => chars v ++ ", ".toList ++ itemsChars (w :: rest)

def entriesChars : List (String × Value) → List Char
  | [] => []
  | [(key, v)] => key.toList ++ ": ".toList ++ chars v
  | (key, v) :: next :: rest =>
    key.toList ++ ": ".toList ++ chars v ++ ", ".toList ++ entriesChars (next :: rest)

end

def text (v : Value) : String := String.ofList v.chars

end Value

end FormLogic
