import FormLogic.Condition.Fault
import FormLogic.Rule

/-! Reading a condition token by token. The state holds the groups that are open, so that a token
is refused exactly where no condition can go on with it. `&&` binds closer than `||`; a chain of
one rule is that rule, and parentheses leave no trace in the rule. -/

namespace FormLogic.Condition

/-- The finished part of an open group, latest first: the alternatives of its `||`, and the members
of the `&&` under way. -/
structure Group where
  alternatives : List Rule
  members : List Rule

namespace Group

def empty : Group := ⟨[], []⟩

/-- The rule of a chain, which is given latest first. -/
def chain (join : List Rule → Rule) : List Rule → Rule
  | [rule] => rule
  | rules => join rules.reverse

def addMember (rule : Rule) (g : Group) : Group := ⟨g.alternatives, rule :: g.members⟩

def nextAlternative (g : Group) : Group := ⟨chain .all g.members :: g.alternatives, []⟩

def rule (g : Group) : Rule := chain .any (chain .all g.members :: g.alternatives)

end Group

/-- The arrays that are open inside a value, innermost first, each with its items latest first. -/
abbrev OpenArrays := List (List Value)

inductive Stage
  | operand
  | field (name : String)
  | fieldNot (name : String)
  | fieldIs (name : String)
  | fieldIsNot (name : String)
  | value (name : String) (op : Operator) (arrays : OpenArrays)
  | item (name : String) (op : Operator) (items : List Value) (outer : OpenArrays)
  | done

structure State where
  stage : Stage
  group : Group
  outer : List Group

namespace State

def start : State := ⟨.operand, .empty, []⟩

def complete (s : State) (rule : Rule) : State := ⟨.done, s.group.addMember rule, s.outer⟩

def withOperator (s : State) (name : String) (op : Operator) : State :=
  if op.takesValue then { s with stage := .value name op [] }
  else s.complete (.compare name op none)

def withValue (s : State) (name : String) (op : Operator) (v : Value) : OpenArrays → State
  | [] => s.complete (.compare name op (some v))
  | items :: outer => { s with stage := .item name op (v :: items) outer }

def expectation (s : State) : Expectation :=
  match s.stage with
  | .operand => .operand
  | .field _ => .operator
  | .fieldNot _ => .inOrEmptyAfterNot
  | .fieldIs _ => .emptyAfterIs
  | .fieldIsNot _ => .emptyAfterIsNot
  | .value .. => .value
  | .item .. => .commaOrBracket
  | .done => if s.outer.isEmpty then .endOfText else .closeParen

def refuse (s : State) (found : Option Token) : Fault := .unexpectedToken s.expectation found

def step (s : State) (token : Token) : Except Fault State :=
  match s.stage, token with
  | .operand, .name path => .ok { s with stage := .field path }
  | .operand, .openParen =>
    if s.outer.length = maxOpen then .error .tooDeep
    else .ok ⟨.operand, .empty, s.group :: s.outer⟩
  | .field name, .equal => .ok (s.withOperator name .equals)
  | .field name, .notEqual => .ok (s.withOperator name .notEquals)
  | .field name, .greater => .ok (s.withOperator name .greater)
  | .field name, .greaterOrEqual => .ok (s.withOperator name .greaterOrEqual)
  | .field name, .less => .ok (s.withOperator name .less)
  | .field name, .lessOrEqual => .ok (s.withOperator name .lessOrEqual)
  | .field name, .isIn => .ok (s.withOperator name .isIn)
  | .field name, .not => .ok { s with stage := .fieldNot name }
  | .field name, .is => .ok { s with stage := .fieldIs name }
  | .fieldNot name, .isIn => .ok (s.withOperator name .notIn)
  | .fieldNot name, .empty => .ok (s.withOperator name .isNotEmpty)
  | .fieldIs name, .not => .ok { s with stage := .fieldIsNot name }
  | .fieldIs name, .empty => .ok (s.withOperator name .isEmpty)
  | .fieldIsNot name, .empty => .ok (s.withOperator name .isNotEmpty)
  | .value name op arrays, .string v => .ok (s.withValue name op (.string v) arrays)
  | .value name op arrays, .int v => .ok (s.withValue name op (.int v) arrays)
  | .value name op arrays, .float v => .ok (s.withValue name op (.float v) arrays)
  | .value name op arrays, .bool v => .ok (s.withValue name op (.bool v) arrays)
  | .value name op arrays, .openBracket => .ok { s with stage := .value name op ([] :: arrays) }
  | .value name op ([] :: outer), .closeBracket => .ok (s.withValue name op (.array []) outer)
  | .item name op items outer, .comma => .ok { s with stage := .value name op (items :: outer) }
  | .item name op items outer, .closeBracket =>
    .ok (s.withValue name op (.array items.reverse) outer)
  | .done, .and => .ok { s with stage := .operand }
  | .done, .or => .ok ⟨.operand, s.group.nextAlternative, s.outer⟩
  | .done, .closeParen =>
    match s.outer with
    | [] => .error (s.refuse (some token))
    | group :: outer => .ok ⟨.done, group.addMember s.group.rule, outer⟩
  | _, _ => .error (s.refuse (some token))

def finish (s : State) : Except Fault Rule :=
  match s.stage, s.outer with
  | .done, [] => .ok s.group.rule
  | _, _ => .error (s.refuse none)

def run (stop : Nat) : State → List (Located Token) → Except (Located Fault) Rule
  | s, [] =>
    match s.finish with
    | .ok rule => .ok rule
    | .error fault => .error ⟨fault, stop⟩
  | s, token :: rest =>
    match s.step token.item with
    | .ok s => run stop s rest
    | .error fault => .error ⟨fault, token.offset⟩

end State

def readTokens (scan : Scan Token) : Except (Located Fault) Rule :=
  State.run scan.stop .start scan.lexemes

def tokens (expression : String) : Except Error (Scan Token) :=
  match Token.scan expression with
  | .ok scan => .ok scan
  | .error fault => .error ⟨.lexical fault.item, fault.offset, expression⟩

def read (expression : String) : Except Error Rule :=
  match tokens expression with
  | .error e => .error e
  | .ok scan =>
    match readTokens scan with
    | .ok rule => .ok rule
    | .error fault => .error ⟨fault.item, fault.offset, expression⟩

def isValid (expression : String) : Bool := (read expression).isOk

/-- The fields that a condition mentions, in order of first mention; of any other text, none. -/
def fields (expression : String) : List String :=
  match read expression with
  | .ok rule => rule.fields
  | .error _ => []

end FormLogic.Condition
