import FormLogic.Value.Comparison

/-! Rules: comparisons of one field with a value, joined into groups that ask for all or for any of
their members. -/

namespace FormLogic

inductive Operator
  | equals
  | notEquals
  | isIn
  | notIn
  | greater
  | greaterOrEqual
  | less
  | lessOrEqual
  | isEmpty
  | isNotEmpty
  /-- An operator that this version does not know; it never holds. -/
  | unknown
  deriving DecidableEq

namespace Operator

def all : List Operator :=
  [equals, notEquals, isIn, notIn, greater, greaterOrEqual, less, lessOrEqual, isEmpty, isNotEmpty,
    unknown]

def takesValue (op : Operator) : Bool := op != isEmpty && op != isNotEmpty

def name : Operator → String
  | equals => "equals"
  | notEquals => "notEquals"
  | isIn => "in"
  | notIn => "notIn"
  | greater => "greaterThan"
  | greaterOrEqual => "greaterThanOrEqual"
  | less => "lessThan"
  | lessOrEqual => "lessThanOrEqual"
  | isEmpty => "isEmpty"
  | isNotEmpty => "isNotEmpty"
  | unknown => "unknown"

/-- Every other name is read as the unknown operator. -/
def ofName (name : String) : Operator := (all.find? (·.name == name)).getD unknown

def symbol : Operator → String
  | equals => "=="
  | notEquals => "!="
  | isIn => "in"
  | notIn => "not in"
  | greater => ">"
  | greaterOrEqual => ">="
  | less => "<"
  | lessOrEqual => "<="
  | isEmpty => "is empty"
  | isNotEmpty => "not empty"
  | unknown => "<unknown>"

theorem mem_all (op : Operator) : op ∈ all := by cases op <;> decide

theorem ofName_name (op : Operator) : ofName op.name = op := by cases op <;> decide

end Operator

/-- A rule. A comparison has a value only where one was given, whatever its operator takes. -/
inductive Rule
  | compare (field : String) (operator : Operator) (value : Option Value)
  | all (rules : List Rule)
  | any (rules : List Rule)

namespace Rule

/-- Both rules; a group of `all` takes the second one in. -/
def and : Rule → Rule → Rule
  | all rules, other => all (rules ++ [other])
  | rule, other => all [rule, other]

def or : Rule → Rule → Rule
  | any rules, other => any (rules ++ [other])
  | rule, other => any [rule, other]

mutual

def mentions : Rule → List String
  | compare field _ _ => [field]
  | all rules | any rules => mentionsOfAll rules

def mentionsOfAll : List Rule → List String
  | [] => []
  | rule :: rules => mentions rule ++ mentionsOfAll rules

end

def fields (rule : Rule) : List String := rule.mentions.eraseDups

def optionSameForm : Option Value → Option Value → Bool
  | none, none => true
  | some v, some w => v.sameForm w
  | _, _ => false

mutual

def sameForm : Rule → Rule → Bool
  | compare f op v, compare g op' w => f == g && op == op' && optionSameForm v w
  | all rs, all qs => sameForms rs qs
  | any rs, any qs => sameForms rs qs
  | _, _ => false

def sameForms : List Rule → List Rule → Bool
  | [], [] => true
  | r :: rs, q :: qs => sameForm r q && sameForms rs qs
  | _, _ => false

end

end Rule

end FormLogic
