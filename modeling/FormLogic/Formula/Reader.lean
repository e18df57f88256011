import FormLogic.Formula.Fault

/-! Reading a formula token by token. The state holds what is still open around the operand at
hand; an operator first completes whatever binds tighter, and operators of one level group from
the left. Names are looked up among the declared ones as soon as the token after them shows that
they call no function. -/

namespace FormLogic.Formula

/-- Something open that waits for an operand. -/
inductive Frame
  | unary (op : UnaryOp)
  /-- A chain of one level with its left side and the number of its operators so far. -/
  | binary (left : Expr) (op : BinaryOp) (count : Nat)
  | paren
  | call (f : Function) (earlier : List Expr)
  | yesBranch (condition : Expr)
  | noBranch (condition yes : Expr)

def Frame.weight : Frame → Nat
  | binary _ _ count => count
  | _ => 1

def depth : List Frame → Nat
  | [] => 1
  | frame :: frames => frame.weight + depth frames

/-- Completes the operators that bind tighter than `level`. -/
def complete (level : Nat) (e : Expr) : List Frame → Expr × List Frame
  | .unary op :: frames => complete level (.unary op e) frames
  | .binary left op count :: frames =>
    if level < op.level then complete level (.binary op left e) frames
    else (e, .binary left op count :: frames)
  | frames => (e, frames)

def completeBranches (e : Expr) : List Frame → Expr × List Frame
  | .noBranch condition yes :: frames => completeBranches (.conditional condition yes e) frames
  | frames => (e, frames)

def completeAll (e : Expr) (frames : List Frame) : Expr × List Frame :=
  let (e, frames) := complete 0 e frames
  completeBranches e frames

def expectation : List Frame → Expectation
  | .paren :: _ | .call .. :: _ => .closeParen
  | .yesBranch _ :: _ => .colon
  | _ => .operatorOrEnd

inductive Stage
  | operand
  | name (path : String)
  | called (f : Function)
  | operator (e : Expr)

structure State where
  stage : Stage
  frames : List Frame
  fields : List String

namespace State

def start : State := ⟨.operand, [], []⟩

def refuse (offset : Nat) (expected : Expectation) (found : Option Token) : Error :=
  .malformed offset (.unexpectedToken expected found)

def withOperand (s : State) (e : Expr) : State := { s with stage := .operator e }

def opening (s : State) (frame : Frame) : State := ⟨.operand, frame :: s.frames, s.fields⟩

def stepUnary (s : State) (op : UnaryOp) (offset : Nat) : Except Error State :=
  if maxDepth ≤ depth s.frames then .error (.malformed offset .tooDeep)
  else .ok (s.opening (.unary op))

def stepOperand (s : State) (token : Located Token) : Except Error State :=
  if maxDepth < depth s.frames then .error (.malformed token.offset .tooDeep)
  else
    match token.item with
    | .int n => .ok (s.withOperand (.literal (.int n)))
    | .float x => .ok (s.withOperand (.literal (.float x)))
    | .string v => .ok (s.withOperand (.literal (.string v)))
    | .bool b => .ok (s.withOperand (.literal (.bool b)))
    | .null => .ok (s.withOperand (.literal .null))
    | .name path => .ok { s with stage := .name path }
    | .openParen => .ok (s.opening .paren)
    | .bang => s.stepUnary .not token.offset
    | .minus => s.stepUnary .neg token.offset
    | found => .error (refuse token.offset .operand (some found))

def binaryOp? : Token → Option BinaryOp
  | .or => some .or
  | .and => some .and
  | .equal => some .equal
  | .notEqual => some .notEqual
  | .greater => some (.order .greater)
  | .greaterOrEqual => some (.order .greaterOrEqual)
  | .less => some (.order .less)
  | .lessOrEqual => some (.order .lessOrEqual)
  | .plus => some (.arithmetic .add)
  | .minus => some (.arithmetic .sub)
  | .star => some (.arithmetic .mul)
  | .slash => some (.arithmetic .div)
  | .percent => some (.arithmetic .rem)
  | _ => none

/-- The left side of a new operator, the number of operators before it in its chain, and the
frames around the chain. -/
def chainBefore (op : BinaryOp) (e : Expr) (frames : List Frame) : Expr × Nat × List Frame :=
  match complete op.level e frames with
  | (e, .binary left before count :: frames) =>
    if before.level = op.level then (.binary before left e, count, frames)
    else (e, 0, .binary left before count :: frames)
  | (e, frames) => (e, 0, frames)

def stepBinary (s : State) (op : BinaryOp) (e : Expr) (offset : Nat) : Except Error State :=
  let (left, count, frames) := chainBefore op e s.frames
  if maxDepth ≤ depth frames + count then .error (.malformed offset .tooDeep)
  else .ok ⟨.operand, .binary left op (count + 1) :: frames, s.fields⟩

def stepOperator (s : State) (e : Expr) (token : Located Token) : Except Error State :=
  match binaryOp? token.item with
  | some op => s.stepBinary op e token.offset
  | none =>
    match token.item, completeAll e s.frames with
    | .question, _ =>
      let (condition, frames) := complete 0 e s.frames
      .ok ⟨.operand, .yesBranch condition :: frames, s.fields⟩
    | .colon, (yes, .yesBranch condition :: frames) =>
      .ok ⟨.operand, .noBranch condition yes :: frames, s.fields⟩
    | .comma, (argument, .call f earlier :: frames) =>
      .ok ⟨.operand, .call f (earlier ++ [argument]) :: frames, s.fields⟩
    | .closeParen, (inner, .paren :: frames) => .ok ⟨.operator inner, frames, s.fields⟩
    | .closeParen, (argument, .call f [] :: frames) =>
      .ok ⟨.operator (.call f argument), frames, s.fields⟩
    | .closeParen, (_, .call f earlier :: _) => .error (.argumentCount f (earlier.length + 1))
    | found, (_, frames) => .error (refuse token.offset (expectation frames) (some found))

def resolve (declared : List String) (s : State) (path : String) : Except Error State :=
  if declared.contains path then
    .ok ⟨.operator (.field path), s.frames,
      if s.fields.contains path then s.fields else s.fields ++ [path]⟩
  else .error (.unknownName path)

def step (declared : List String) (s : State) (token : Located Token) : Except Error State :=
  match s.stage with
  | .operand => s.stepOperand token
  | .operator e => s.stepOperator e token
  | .name path =>
    match token.item with
    | .openParen =>
      match Function.ofName? path with
      | some f => .ok { s with stage := .called f }
      | none => .error (.unknownFunction path)
    | _ =>
      match s.resolve declared path with
      | .ok s => s.stepOperator (.field path) token
      | .error e => .error e
  | .called f =>
    match token.item with
    | .closeParen => .error (.argumentCount f 0)
    | _ => (s.opening (.call f [])).stepOperand token

def endAtOperand (s : State) (stop : Nat) : Error :=
  if maxDepth < depth s.frames then .malformed stop .tooDeep
  else refuse stop .operand none

def finishOperator (s : State) (e : Expr) (stop : Nat) : Except Error (Expr × List String) :=
  match completeAll e s.frames with
  | (e, []) => .ok (e, s.fields)
  | (_, frames) => .error (refuse stop (expectation frames) none)

def finish (declared : List String) (stop : Nat) (s : State) :
    Except Error (Expr × List String) :=
  match s.stage with
  | .operand => .error (s.endAtOperand stop)
  | .operator e => s.finishOperator e stop
  | .name path =>
    match s.resolve declared path with
    | .ok s => s.finishOperator (.field path) stop
    | .error e => .error e
  | .called f => .error ((s.opening (.call f [])).endAtOperand stop)

def run (declared : List String) (stop : Nat) :
    State → List (Located Token) → Except Error (Expr × List String)
  | s, [] => s.finish declared stop
  | s, token :: rest =>
    match s.step declared token with
    | .ok s => run declared stop s rest
    | .error e => .error e

end State

def readTokens (declared : List String) (scan : Scan Token) : Except Error (Expr × List String) :=
  State.run declared scan.stop .start scan.lexemes

end FormLogic.Formula
