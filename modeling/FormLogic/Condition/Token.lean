import FormLogic.Lexeme
import FormLogic.Scan
import FormLogic.Text.Quoted
import FormLogic.Value.Text

/-! The lexemes of the condition language. A minus sign directly before a digit belongs to the
number. -/

namespace FormLogic.Condition

inductive Token
  | string (s : String)
  | int (n : Int64)
  | float (x : Binary64)
  | bool (b : Bool)
  | name (path : String)
  | isIn
  | not
  | is
  | empty
  | openParen
  | closeParen
  | openBracket
  | closeBracket
  | comma
  | and
  | or
  | equal
  | notEqual
  | greater
  | greaterOrEqual
  | less
  | lessOrEqual

inductive LexicalFault
  | unterminatedString
  | unexpectedCharacter (c : Char)
  | invalidNumber (literal : String)
  deriving DecidableEq

namespace Token

def text : Token → String
  | string s => "string " ++ Text.quoted s
  | int n => "number " ++ String.ofList (intChars n.toInt)
  | float x => "number " ++ String.ofList x.shortestChars
  | bool b => "'" ++ toString b ++ "'"
  | name path => "identifier '" ++ path ++ "'"
  | isIn => "'in'"
  | not => "'not'"
  | is => "'is'"
  | empty => "'empty'"
  | openParen => "'('"
  | closeParen => "')'"
  | openBracket => "'['"
  | closeBracket => "']'"
  | comma => "','"
  | and => "'&&'"
  | or => "'||'"
  | equal => "'=='"
  | notEqual => "'!='"
  | greater => "'>'"
  | greaterOrEqual => "'>='"
  | less => "'<'"
  | lessOrEqual => "'<='"

def textOrEnd : Option Token → String
  | some token => token.text
  | none => "end of input"

def ofWord : String → Token
  | "true" => bool true
  | "false" => bool false
  | "in" => isIn
  | "not" => not
  | "is" => is
  | "empty" => empty
  | path => name path

def ofNumber : Int64 ⊕ Binary64 → Token
  | .inl n => int n
  | .inr x => float x

/-- The number token of a literal with `owned` characters after its first one. -/
def ofLiteral (negative : Bool) (literal : Lexeme.Literal) (owned : Nat) :
    Except LexicalFault (Token × Nat) :=
  match literal.value? negative with
  | some number => .ok (ofNumber number, owned)
  | none =>
    .error (.invalidNumber (String.ofList (Binary64.signed negative literal.chars)))

def ofSymbol? : Char → List Char → Option (Token × Nat)
  | '&', '&' :: _ => some (and, 1)
  | '|', '|' :: _ => some (or, 1)
  | '=', '=' :: _ => some (equal, 1)
  | '!', '=' :: _ => some (notEqual, 1)
  | '>', '=' :: _ => some (greaterOrEqual, 1)
  | '>', _ => some (greater, 0)
  | '<', '=' :: _ => some (lessOrEqual, 1)
  | '<', _ => some (less, 0)
  | '(', _ => some (openParen, 0)
  | ')', _ => some (closeParen, 0)
  | '[', _ => some (openBracket, 0)
  | ']', _ => some (closeBracket, 0)
  | ',', _ => some (comma, 0)
  | _, _ => none

/-- The token that starts with `c`, and how many characters of `rest` belong to it. -/
def read (c : Char) (rest : List Char) : Except LexicalFault (Token × Nat) :=
  if c = '"' ∨ c = '\'' then
    match Lexeme.stringRest? c rest with
    | some (content, owned) => .ok (string (String.ofList content), owned)
    | none => .error .unterminatedString
  else if c.isDigit then
    let literal := Lexeme.Literal.read c rest
    ofLiteral false literal (literal.chars.length - 1)
  else if Lexeme.isNameStart c then
    let word := Lexeme.nameRest rest
    .ok (ofWord (String.ofList (c :: word)), word.length)
  else
    match c, rest with
    | '-', d :: more =>
      if d.isDigit then
        let literal := Lexeme.Literal.read d more
        ofLiteral true literal literal.chars.length
      else .error (.unexpectedCharacter c)
    | _, _ =>
      match ofSymbol? c rest with
      | some found => .ok found
      | none => .error (.unexpectedCharacter c)

def scan (text : String) : Except (Located LexicalFault) (Scan Token) := Scan.ofString read text

end Token

end FormLogic.Condition
