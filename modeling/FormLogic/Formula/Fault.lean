import FormLogic.Formula.Expr
import FormLogic.Formula.Token

/-! Why a text is no formula, and why a formula has no result. -/

namespace FormLogic.Formula

inductive Expectation
  | operand
  | operatorOrEnd
  | colon
  | closeParen
  deriving DecidableEq

def Expectation.text : Expectation → String
  | operand => "operand"
  | operatorOrEnd => "operator or end of formula"
  | colon => "':'"
  | closeParen => "')'"

/-- How deep an expression may nest: parentheses, arguments, branches, unary operators and every
operator of an open chain count. -/
def maxDepth : Nat := 128

inductive TextFault
  | lexical (fault : LexicalFault)
  | unexpectedToken (expected : Expectation) (found : Option Token)
  | tooDeep

def TextFault.text : TextFault → String
  | lexical .unterminatedString => "unterminated string literal"
  | lexical (.unexpectedCharacter c) => "unexpected character '" ++ String.ofList [c] ++ "'"
  | lexical (.numberOutOfRange literal) => "number '" ++ literal ++ "' is out of range"
  | unexpectedToken expected found =>
    "expected " ++ expected.text ++ ", found " ++ Token.textOrEnd found
  | tooDeep => "expression nested deeper than " ++ toString maxDepth ++ " levels"

inductive Operation
  | negation
  | arithmetic (op : Arithmetic)
  | order (test : OrderTest)
  | function (f : Function)
  deriving DecidableEq

def Operation.symbol : Operation → String
  | negation => "-"
  | arithmetic op => op.symbol
  | order test => test.symbol
  | function f => f.name

inductive Error
  | malformed (offset : Nat) (fault : TextFault)
  | unknownName (name : String)
  | unknownFunction (name : String)
  | argumentCount (function : Function) (found : Nat)
  | operands (op : Operation) (left right : Kind)
  | operand (op : Operation) (kind : Kind)
  | divisionByZero
  | overflow (op : Operation)
  | notFinite

def Error.message : Error → String
  | malformed offset fault => "syntax error at offset " ++ toString offset ++ ": " ++ fault.text
  | unknownName name => "identifier '" ++ name ++ "' is not a declared dependency"
  | unknownFunction name => "function '" ++ name ++ "' is not allowed"
  | argumentCount function found =>
    "function '" ++ function.name ++ "' takes 1 argument(s), got " ++ toString found
  | operands op left right =>
    "cannot apply '" ++ op.symbol ++ "' to " ++ left.name ++ " and " ++ right.name
  | operand op kind => "cannot apply '" ++ op.symbol ++ "' to " ++ kind.name
  | divisionByZero => "division by zero"
  | overflow op => "integer overflow in '" ++ op.symbol ++ "'"
  | notFinite => "result is not a finite number"

end FormLogic.Formula
