import FormLogic.Lexeme
import FormLogic.Scan
import FormLogic.Text.Quoted
import FormLogic.Value.Text

/-! The lexemes of the formula language. A minus sign is always an operator. -/

namespace FormLogic.Formula

inductive Token
  | int (n : Int64)
  | float (x : Binary64)
  | string (s : String)
  | bool (b : Bool)
  | null
  | name (path : String)
  | plus
  | minus
  | star
  | slash
  | percent
  | bang
  | equal
  | notEqual
  | greater
  | greaterOrEqual
  | less
  | lessOrEqual
  | and
  | or
  | question
  | colon
  | openParen
  | closeParen
  | comma

inductive LexicalFault
  | unterminatedString
  | unexpectedCharacter (c : Char)
  | numberOutOfRange (literal : String)
  deriving DecidableEq

namespace Token

def text : Token → String
  | int n => "number " ++ (Value.int n).text
  | float x => "number " ++ (Value.float x).text
  | string s => "string " ++ Text.quoted s
  | bool b => "'" ++ toString b ++ "'"
  | null => "'null'"
  | name path => "identifier '" ++ path ++ "'"
  | plus => "'+'"
  | minus => "'-'"
  | star => "'*'"
  | slash => "'/'"
  | percent => "'%'"
  | bang => "'!'"
  | equal => "'=='"
  | notEqual => "'!='"
  | greater => "'>'"
  | greaterOrEqual => "'>='"
  | less => "'<'"
  | lessOrEqual => "'<='"
  | and => "'&&'"
  | or => "'||'"
  | question => "'?'"
  | colon => "':'"
  | openParen => "'('"
  | closeParen => "')'"
  | comma => "','"

def textOrEnd : Option Token → String
  | some token => token.text
  | none => "end of formula"

def ofWord : String → Token
  | "true" => bool true
  | "false" => bool false
  | "null" => null
  | path => name path

def ofNumber : Int64 ⊕ Binary64 → Token
  | .inl n => int n
  | .inr x => float x

def ofSymbol? : Char → List Char → Option (Token × Nat)
  | '&', '&' :: _ => some (and, 1)
  | '|', '|' :: _ => some (or, 1)
  | '=', '=' :: _ => some (equal, 1)
  | '!', '=' :: _ => some (notEqual, 1)
  | '!', _ => some (bang, 0)
  | '>', '=' :: _ => some (greaterOrEqual, 1)
  | '>', _ => some (greater, 0)
  | '<', '=' :: _ => some (lessOrEqual, 1)
  | '<', _ => some (less, 0)
  | '+', _ => some (plus, 0)
  | '-', _ => some (minus, 0)
  | '*', _ => some (star, 0)
  | '/', _ => some (slash, 0)
  | '%', _ => some (percent, 0)
  | '?', _ => some (question, 0)
  | ':', _ => some (colon, 0)
  | '(', _ => some (openParen, 0)
  | ')', _ => some (closeParen, 0)
  | ',', _ => some (comma, 0)
  | _, _ => none

def read (c : Char) (rest : List Char) : Except LexicalFault (Token × Nat) :=
  if c = '"' ∨ c = '\'' then
    match Lexeme.stringRest? c rest with
    | some (content, owned) => .ok (string (String.ofList content), owned)
    | none => .error .unterminatedString
  else if c.isDigit then
    let literal := Lexeme.Literal.read c rest
    match literal.value? false with
    | some number => .ok (ofNumber number, literal.chars.length - 1)
    | none => .error (.numberOutOfRange (String.ofList literal.chars))
  else if Lexeme.isNameStart c then
    let word := Lexeme.nameRest rest
    .ok (ofWord (String.ofList (c :: word)), word.length)
  else
    match ofSymbol? c rest with
    | some found => .ok found
    | none => .error (.unexpectedCharacter c)

def scan (text : String) : Except (Located LexicalFault) (Scan Token) := Scan.ofString read text

end Token

end FormLogic.Formula
