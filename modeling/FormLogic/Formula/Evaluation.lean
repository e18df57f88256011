import FormLogic.Binary64.Arithmetic
import FormLogic.Formula.Fault
import FormLogic.Snapshot
import FormLogic.Value.Comparison

/-! The value of an expression in a snapshot. Whole numbers never wrap: a result without a 64-bit
form is an error. A binary64 result that is not finite is one, too. -/

namespace FormLogic.Formula

def ofWhole (op : Operation) (n : Int) : Except Error Value :=
  match Value.int64? n with
  | some i => .ok (.int i)
  | none => .error (.overflow op)

def ofFinite (x : Binary64) : Except Error Value :=
  if x.isFinite then .ok (.float x) else .error .notFinite

def UnaryOp.apply : UnaryOp → Value → Except Error Value
  | .not, v => .ok (.bool !v.isTruthy)
  | .neg, .int n => ofWhole .negation (-n.toInt)
  | .neg, .float x => ofFinite x.neg
  | .neg, v => .error (.operand .negation v.kind)

/-- A quotient of whole numbers is whole when it is exact. A remainder exists only where the
quotient, cut toward zero, has a 64-bit form. -/
def Arithmetic.applyWhole (op : Arithmetic) (a b : Int) : Except Error Value :=
  match op with
  | .add => ofWhole (.arithmetic .add) (a + b)
  | .sub => ofWhole (.arithmetic .sub) (a - b)
  | .mul => ofWhole (.arithmetic .mul) (a * b)
  | .div =>
    if b = 0 then .error .divisionByZero
    else if a.tmod b = 0 then ofWhole (.arithmetic .div) (a.tdiv b)
    else ofFinite ((Binary64.ofInt a).div (.ofInt b))
  | .rem =>
    if b = 0 then .error .divisionByZero
    else
      match Value.int64? (a.tdiv b) with
      | some _ => ofWhole (.arithmetic .rem) (a.tmod b)
      | none => .error (.overflow (.arithmetic .rem))

def Arithmetic.applyBinary64 (op : Arithmetic) (x y : Binary64) : Except Error Value :=
  match op with
  | .add => ofFinite (x.add y)
  | .sub => ofFinite (x.sub y)
  | .mul => ofFinite (x.mul y)
  | .div => if y.isZero then .error .divisionByZero else ofFinite (x.div y)
  | .rem => if y.isZero then .error .divisionByZero else ofFinite (x.rem y)

def Arithmetic.apply (op : Arithmetic) (v w : Value) : Except Error Value :=
  match v, w with
  | .int a, .int b => op.applyWhole a.toInt b.toInt
  | v, w =>
    match v.toBinary64?, w.toBinary64? with
    | some x, some y => op.applyBinary64 x y
    | _, _ => .error (.operands (.arithmetic op) v.kind w.kind)

def OrderTest.holds : OrderTest → Ordering → Bool
  | .greater => Ordering.isGT
  | .greaterOrEqual => Ordering.isGE
  | .less => Ordering.isLT
  | .lessOrEqual => Ordering.isLE

/-- Strings are ordered by code points, numbers by what they denote; with NaN no order holds. -/
def OrderTest.apply (test : OrderTest) (v w : Value) : Except Error Value :=
  match v, w with
  | .string a, .string b => .ok (.bool (test.holds (compare a b)))
  | v, w =>
    if v.isNumber && w.isNumber then .ok (.bool ((v.compareNumbers? w).any test.holds))
    else .error (.operands (.order test) v.kind w.kind)

def BinaryOp.apply (op : BinaryOp) (v w : Value) : Except Error Value :=
  match op with
  | .arithmetic op => op.apply v w
  | .order test => test.apply v w
  | .equal => .ok (.bool (v.agrees w))
  | .notEqual => .ok (.bool !v.agrees w)
  | .and => .ok (.bool (v.isTruthy && w.isTruthy))
  | .or => .ok (.bool (v.isTruthy || w.isTruthy))

/-- The whole number `n`, or `x` itself where `n` has no 64-bit form; so large an `x` is whole. -/
def wholeOr (n : Int) (x : Binary64) : Value :=
  match Value.int64? n with
  | some i => .int i
  | none => .float x

def Function.applyFinite (f : Function) (negative : Bool) (rank : Fin Binary64.ranks) : Value :=
  match f with
  | .round => wholeOr (Binary64.round negative rank) (.finite negative rank)
  | .floor => wholeOr (Binary64.floor negative rank) (.finite negative rank)
  | .ceil => wholeOr (Binary64.ceil negative rank) (.finite negative rank)
  | .abs => .float (.finite false rank)

def Function.apply (f : Function) : Value → Except Error Value
  | .int n =>
    match f with
    | .abs => ofWhole (.function .abs) n.toInt.natAbs
    | _ => .ok (.int n)
  | .float (.finite negative rank) => .ok (f.applyFinite negative rank)
  | .float _ => .error .notFinite
  | v => .error (.operand (.function f) v.kind)

/-- A field that is absent has the value null. Of `&&`, `||` and a conditional only those parts are
evaluated that the result depends on. -/
def Expr.eval (s : Snapshot) : Expr → Except Error Value
  | .literal v => .ok v
  | .field path => .ok ((s.get? path).getD .null)
  | .unary op operand => do op.apply (← operand.eval s)
  | .binary .and left right => do
    let v ← left.eval s
    if v.isTruthy then return .bool (← right.eval s).isTruthy else return .bool false
  | .binary .or left right => do
    let v ← left.eval s
    if v.isTruthy then return .bool true else return .bool (← right.eval s).isTruthy
  | .binary op left right => do
    let v ← left.eval s
    op.apply v (← right.eval s)
  | .conditional condition yes no => do
    let v ← condition.eval s
    if v.isTruthy then yes.eval s else no.eval s
  | .call f argument => do f.apply (← argument.eval s)

end FormLogic.Formula
