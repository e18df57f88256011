import FormLogic.Json.Numeral

/-! The lexemes of JSON. -/

namespace FormLogic.Json

inductive Token
  | openBrace
  | closeBrace
  | openBracket
  | closeBracket
  | comma
  | colon
  | null
  | bool (b : Bool)
  | number (n : Numeral)
  | string (s : Content)
  | invalid
  deriving DecidableEq

def isSpace (c : Char) : Bool := c == ' ' || c == '\n' || c == '\r' || c == '\t'

def hexDigit? (c : Char) : Option Nat :=
  if c.isDigit then some (c.toNat - '0'.toNat)
  else if 'a' ≤ c ∧ c ≤ 'f' then some (c.toNat - 'a'.toNat + 10)
  else if 'A' ≤ c ∧ c ≤ 'F' then some (c.toNat - 'A'.toNat + 10)
  else none

def hexCode? (a b c d : Char) : Option Nat := do
  let a ← hexDigit? a
  let b ← hexDigit? b
  let c ← hexDigit? c
  let d ← hexDigit? d
  return ((a * 16 + b) * 16 + c) * 16 + d

def escaped? : Char → Option Char
  | '"' => some '"'
  | '\\' => some '\\'
  | '/' => some '/'
  | 'b' => some '\x08'
  | 'f' => some '\x0c'
  | 'n' => some '\n'
  | 'r' => some '\r'
  | 't' => some '\t'
  | _ => none

/-- The codes of a string after its opening quote, and the number of characters up to its end. -/
def stringCodes? : List Char → Option (List Nat × Nat)
  | [] => none
  | '"' :: _ => some ([], 1)
  | '\\' :: 'u' :: a :: b :: c :: d :: rest =>
    match hexCode? a b c d, stringCodes? rest with
    | some code, some (codes, n) => some (code :: codes, n + 6)
    | _, _ => none
  | '\\' :: e :: rest =>
    match escaped? e, stringCodes? rest with
    | some c, some (codes, n) => some (c.toNat :: codes, n + 2)
    | _, _ => none
  | c :: rest =>
    if c.toNat < 0x20 ∨ c = '\\' then none
    else
      match stringCodes? rest with
      | some (codes, n) => some (c.toNat :: codes, n + 1)
      | none => none

def joinSurrogates? : List Nat → Option (List Char)
  | [] => some []
  | [code] => if 0xd800 ≤ code ∧ code < 0xe000 then none else some [Char.ofNat code]
  | code :: next :: rest =>
    if 0xd800 ≤ code ∧ code < 0xdc00 then
      if 0xdc00 ≤ next ∧ next < 0xe000 then
        let joined := 0x10000 + (code - 0xd800) * 0x400 + (next - 0xdc00)
        (joinSurrogates? rest).map (Char.ofNat joined :: ·)
      else none
    else if 0xdc00 ≤ code ∧ code < 0xe000 then none
    else (joinSurrogates? (next :: rest)).map (Char.ofNat code :: ·)

namespace Token

def word (remaining : String) (token : Token) (rest : List Char) : Token × Nat :=
  if remaining.toList.isPrefixOf rest then (token, remaining.length) else (invalid, 0)

def numeral (negative : Bool) (cs rest : List Char) : Token × Nat :=
  match Numeral.read? negative cs with
  | some (n, after) => (number n, rest.length - after.length)
  | none => (invalid, 0)

def read (c : Char) (rest : List Char) : Token × Nat :=
  match c with
  | '\x7b' => (openBrace, 0)
  | '\x7d' => (closeBrace, 0)
  | '[' => (openBracket, 0)
  | ']' => (closeBracket, 0)
  | ',' => (comma, 0)
  | ':' => (colon, 0)
  | 'n' => word "ull" null rest
  | 't' => word "rue" (bool true) rest
  | 'f' => word "alse" (bool false) rest
  | '"' =>
    match stringCodes? rest with
    | some (codes, n) => (string ((joinSurrogates? codes).map String.ofList), n)
    | none => (invalid, 0)
  | '-' => numeral true rest rest
  | c => if c.isDigit then numeral false (c :: rest) rest else (invalid, 0)

def scan : (owned : Nat) → List Char → List Token
  | _, [] => []
  | owned + 1, _ :: rest => scan owned rest
  | 0, c :: rest =>
    if isSpace c then scan 0 rest
    else
      let (token, owned) := read c rest
      token :: scan owned rest

end Token

end FormLogic.Json
