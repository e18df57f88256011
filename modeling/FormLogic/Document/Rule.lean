import FormLogic.Document.Value
import FormLogic.Rule

/-! Rules as JSON objects: a comparison has `field` and `operator` and may have `value`, a group
has `and` or `or`. Null counts as absent, except as a `value`; other keys are skipped. An array is
the object whose members are its items, in the order of the keys; it may leave out the last ones.
A rule is judged when it ends, so the first problem of a text is the one that is met first from the
left. -/

namespace FormLogic

namespace Document

inductive ShapeFault
  | empty
  | ambiguous
  | missingOperator (field : String)
  | missingField (op : Operator)
  deriving DecidableEq

def ShapeFault.message : ShapeFault → String
  | empty => "rule object must have `field` + `operator`, `and`, or `or`"
  | ambiguous => "rule object mixes `field`/`operator`, `and` and `or`; use exactly one"
  | missingOperator field => "condition on `" ++ field ++ "` is missing `operator`"
  | missingField op => "condition with operator `" ++ op.name ++ "` is missing `field`"

inductive RuleFault
  | malformed
  | shape (fault : ShapeFault)
  deriving DecidableEq

inductive RuleKey
  | field
  | operator
  | value
  | and
  | or
  deriving DecidableEq

namespace RuleKey

def name : RuleKey → String
  | field => "field"
  | operator => "operator"
  | value => "value"
  | and => "and"
  | or => "or"

/-- In the order in which an array gives the members. -/
def all : List RuleKey := [field, operator, value, and, or]

def ofName? (name : String) : Option RuleKey := all.find? (·.name == name)

end RuleKey

/-- The members of a rule. The outer option is for the key, the inner one for null. -/
structure RuleMembers where
  field : Option (Option String)
  operator : Option (Option Operator)
  value : Option Value
  all : Option (Option (List Rule))
  any : Option (Option (List Rule))

def stringMember? : Json → Option (Option String)
  | .null => some none
  | .string (some s) => some (some s)
  | _ => none

/-- An operator is a name, or an object that has nothing but null under the name. -/
def operatorMember? (room : Nat) : Json → Option (Option Operator)
  | .object [(some name, .null)] => if room = 0 then none else some (some (.ofName name))
  | j => (stringMember? j).map (·.map .ofName)

namespace RuleMembers

def none : RuleMembers := ⟨.none, .none, .none, .none, .none⟩

def toRule (m : RuleMembers) : Except ShapeFault Rule :=
  match m.field.join, m.operator.join, m.all.join, m.any.join with
  | .none, .none, some rules, .none => .ok (.all rules)
  | .none, .none, .none, some rules => .ok (.any rules)
  | some field, some op, .none, .none => .ok (.compare field op m.value)
  | some field, .none, .none, .none => .error (.missingOperator field)
  | .none, some op, .none, .none => .error (.missingField op)
  | .none, .none, .none, .none => .error .empty
  | _, _, _, _ => .error .ambiguous

/-- Adds the member `j`, unless there is one already; `group` is what `j` is as a group. -/
def add (m : RuleMembers) (room : Nat) (j : Json)
    (group : Except RuleFault (Option (List Rule))) : RuleKey → Except RuleFault RuleMembers
  | .field =>
    match m.field, stringMember? j with
    | .none, some field => .ok { m with field := some field }
    | _, _ => .error .malformed
  | .operator =>
    match m.operator, operatorMember? room j with
    | .none, some op => .ok { m with operator := some op }
    | _, _ => .error .malformed
  | .value =>
    match m.value, Value.ofJson? room j with
    | .none, some v => .ok { m with value := some v }
    | _, _ => .error .malformed
  | .and =>
    match m.all with
    | .none => group.map fun rules => { m with all := some rules }
    | some _ => .error .malformed
  | .or =>
    match m.any with
    | .none => group.map fun rules => { m with any := some rules }
    | some _ => .error .malformed

end RuleMembers

mutual

def ruleOfJson (room : Nat) : Json → Except RuleFault Rule
  | .object entries =>
    if room = 0 then .error .malformed
    else (membersOfJson (room - 1) .none entries).bind (·.toRule.mapError .shape)
  | .array items =>
    if room = 0 then .error .malformed
    else (itemsOfJson (room - 1) .none RuleKey.all items).bind (·.toRule.mapError .shape)
  | _ => .error .malformed

def membersOfJson (room : Nat) (m : RuleMembers) :
    List (Json.Content × Json) → Except RuleFault RuleMembers
  | [] => .ok m
  | (none, _) :: _ => .error .malformed
  | (some name, j) :: rest =>
    match RuleKey.ofName? name with
    | none => if j.isWhole then membersOfJson room m rest else .error .malformed
    | some key => (m.add room j (groupOfJson room j) key).bind (membersOfJson room · rest)

def itemsOfJson (room : Nat) (m : RuleMembers) :
    List RuleKey → List Json → Except RuleFault RuleMembers
  | _, [] => .ok m
  | [], _ :: _ => .error .malformed
  | key :: keys, j :: rest =>
    (m.add room j (groupOfJson room j) key).bind (itemsOfJson room · keys rest)

def groupOfJson (room : Nat) : Json → Except RuleFault (Option (List Rule))
  | .null => .ok none
  | .array items =>
    if room = 0 then .error .malformed
    else
      match rulesOfJson (room - 1) items with
      | .error fault => .error fault
      | .ok rules => .ok (some rules)
  | _ => .error .malformed

def rulesOfJson (room : Nat) : List Json → Except RuleFault (List Rule)
  | [] => .ok []
  | j :: rest =>
    match ruleOfJson room j with
    | .error fault => .error fault
    | .ok rule =>
      match rulesOfJson room rest with
      | .error fault => .error fault
      | .ok rules => .ok (rule :: rules)

end

end Document

namespace Rule

mutual

def toJson : Rule → Json
  | compare field op value =>
    .object ([(some "field", .string field), (some "operator", .string op.name)] ++
      (value.map fun v => (some "value", v.toJson)).toList)
  | all rules => .object [(some "and", .array (listToJson rules))]
  | any rules => .object [(some "or", .array (listToJson rules))]

def listToJson : List Rule → List Json
  | [] => []
  | rule :: rules => toJson rule :: listToJson rules

end

def ofText (text : String) : Except Document.RuleFault Rule :=
  let document := Json.read text
  match Document.ruleOfJson Json.maxNesting document.root with
  | .error fault => .error fault
  | .ok rule => if document.ends then .ok rule else .error .malformed

end Rule

end FormLogic
