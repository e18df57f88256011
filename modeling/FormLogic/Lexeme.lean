import FormLogic.Decimal
import FormLogic.Value

/-! Names, quoted strings and number literals, which conditions and formulas write alike. Each
function is given the characters after the first one of the lexeme. -/

namespace FormLogic.Lexeme

def isNameStart (c : Char) : Bool := c.isAlpha || c == '_'

def isNamePart (c : Char) : Bool := c.isAlphanum || c == '_'

/-- The rest of a dotted name. A dot belongs to it only if another segment follows. -/
def nameRest : List Char → List Char
  | [] => []
  | '.' :: c :: rest => if isNameStart c then '.' :: c :: nameRest rest else []
  | c :: rest => if isNamePart c then c :: nameRest rest else []

def unescape : Char → Char
  | 'n' => '\n'
  | 't' => '\t'
  | 'r' => '\r'
  | c => c

/-- The content of a string after its opening quote, and the number of characters up to its end;
none if it has no end. -/
def stringRest? (quote : Char) : List Char → Option (List Char × Nat)
  | [] => none
  | c :: rest =>
    if c = quote then some ([], 1)
    else if c = '\\' then
      match rest with
      | [] => none
      | e :: rest => (stringRest? quote rest).map fun (content, n) => (unescape e :: content, n + 2)
    else (stringRest? quote rest).map fun (content, n) => (c :: content, n + 1)

structure Literal where
  whole : List Char
  fraction : Option (List Char)

namespace Literal

def read (first : Char) (rest : List Char) : Literal where
  whole := first :: rest.takeWhile Char.isDigit
  fraction :=
    match rest.dropWhile Char.isDigit with
    | '.' :: c :: more => if c.isDigit then some (c :: more.takeWhile Char.isDigit) else none
    | _ => none

def chars (l : Literal) : List Char :=
  match l.fraction with
  | none => l.whole
  | some digits => l.whole ++ '.' :: digits

/-- The number that a literal denotes, with an optional sign in front. Without a fraction it is a
64-bit whole number, if there is one. -/
def value? (negative : Bool) (l : Literal) : Option (Int64 ⊕ Binary64) :=
  match l.fraction with
  | none =>
    let n := Nat.ofDigitChars 10 l.whole 0
    (Value.int64? (if negative then -(n : Int) else n)).map .inl
  | some digits =>
    let d : Decimal := ⟨Nat.ofDigitChars 10 (l.whole ++ digits) 0, -(digits.length : Int)⟩
    some (.inr (d.toBinary64 negative))

end Literal

end FormLogic.Lexeme
