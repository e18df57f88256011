import FormLogic.Value

/-! Expressions of the formula language. -/

namespace FormLogic.Formula

inductive UnaryOp
  | neg
  | not
  deriving DecidableEq

inductive Arithmetic
  | add
  | sub
  | mul
  | div
  | rem
  deriving DecidableEq

inductive OrderTest
  | greater
  | greaterOrEqual
  | less
  | lessOrEqual
  deriving DecidableEq

inductive BinaryOp
  | arithmetic (op : Arithmetic)
  | order (test : OrderTest)
  | equal
  | notEqual
  | and
  | or
  deriving DecidableEq

inductive Function
  | round
  | floor
  | ceil
  | abs
  deriving DecidableEq

inductive Expr
  | literal (v : Value)
  | field (path : String)
  | unary (op : UnaryOp) (operand : Expr)
  | binary (op : BinaryOp) (left right : Expr)
  | conditional (condition yes no : Expr)
  | call (function : Function) (argument : Expr)

def Arithmetic.symbol : Arithmetic → String
  | add => "+"
  | sub => "-"
  | mul => "*"
  | div => "/"
  | rem => "%"

def OrderTest.symbol : OrderTest → String
  | greater => ">"
  | greaterOrEqual => ">="
  | less => "<"
  | lessOrEqual => "<="

/-- How tightly an operator binds; each level groups from the left. -/
def BinaryOp.level : BinaryOp → Nat
  | or => 1
  | and => 2
  | equal | notEqual => 3
  | order _ => 4
  | arithmetic .add | arithmetic .sub => 5
  | arithmetic .mul | arithmetic .div | arithmetic .rem => 6

namespace Function

def name : Function → String
  | round => "round"
  | floor => "floor"
  | ceil => "ceil"
  | abs => "abs"

def all : List Function := [round, floor, ceil, abs]

def ofName? (name : String) : Option Function := all.find? (·.name == name)

theorem ofName?_name (f : Function) : ofName? f.name = some f := by cases f <;> decide

end Function

end FormLogic.Formula
