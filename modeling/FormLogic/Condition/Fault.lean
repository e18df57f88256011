import FormLogic.Condition.Token

/-! Why a text is no condition. -/

namespace FormLogic.Condition

inductive Expectation
  | operand
  | operator
  | inOrEmptyAfterNot
  | emptyAfterIs
  | emptyAfterIsNot
  | value
  | commaOrBracket
  | closeParen
  | endOfText
  deriving DecidableEq

def Expectation.text : Expectation → String
  | operand => "field name or '('"
  | operator => "comparison operator"
  | inOrEmptyAfterNot => "'in' or 'empty' after 'not'"
  | emptyAfterIs => "'empty' after 'is'"
  | emptyAfterIsNot => "'empty' after 'is not'"
  | value => "value"
  | commaOrBracket => "',' or ']'"
  | closeParen => "')'"
  | endOfText => "end of input"

def maxOpen : Nat := 256

inductive Fault
  | lexical (fault : LexicalFault)
  | unexpectedToken (expected : Expectation) (found : Option Token)
  | tooDeep

def Fault.text : Fault → String
  | lexical .unterminatedString => "unterminated string literal"
  | lexical (.unexpectedCharacter c) => "unexpected character '" ++ String.ofList [c] ++ "'"
  | lexical (.invalidNumber literal) => "invalid number literal '" ++ literal ++ "'"
  | unexpectedToken expected found =>
    "expected " ++ expected.text ++ ", found " ++ Token.textOrEnd found
  | tooDeep => "parentheses nested deeper than " ++ toString maxOpen ++ " levels"

structure Error where
  fault : Fault
  offset : Nat
  expression : String

def Error.message (e : Error) : String :=
  "parse error at offset " ++ toString e.offset ++ " in `" ++ e.expression ++ "`: " ++ e.fault.text

end FormLogic.Condition
