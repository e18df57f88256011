import FormLogic.Condition.Reader

/-! The grammar of conditions, with the rule that each derivation writes. Chains grow at their right
end, so that their operands stay in the order of the text. -/

namespace FormLogic.Condition

def operators : List (List Token × Operator) :=
  [([.equal], .equals), ([.notEqual], .notEquals), ([.greater], .greater),
    ([.greaterOrEqual], .greaterOrEqual), ([.less], .less), ([.lessOrEqual], .lessOrEqual),
    ([.isIn], .isIn), ([.not, .isIn], .notIn), ([.not, .empty], .isNotEmpty),
    ([.is, .empty], .isEmpty), ([.is, .not, .empty], .isNotEmpty)]

inductive ValuePhrase
  | value (v : Value)
  | items (vs : List Value)

inductive DerivesValue : ValuePhrase → List Token → Prop
  | string (s : String) : DerivesValue (.value (.string s)) [.string s]
  | int (n : Int64) : DerivesValue (.value (.int n)) [.int n]
  | float (x : Binary64) : DerivesValue (.value (.float x)) [.float x]
  | bool (b : Bool) : DerivesValue (.value (.bool b)) [.bool b]
  | emptyArray : DerivesValue (.value (.array [])) [.openBracket, .closeBracket]
  | array {vs : List Value} {text : List Token} (items : DerivesValue (.items vs) text) :
    DerivesValue (.value (.array vs)) (.openBracket :: (text ++ [.closeBracket]))
  | firstItem {v : Value} {text : List Token} (first : DerivesValue (.value v) text) :
    DerivesValue (.items [v]) text
  | nextItem {vs : List Value} {v : Value} {before text : List Token}
    (items : DerivesValue (.items vs) before) (next : DerivesValue (.value v) text) :
    DerivesValue (.items (vs ++ [v])) (before ++ .comma :: text)

inductive Phrase
  | primary (rule : Rule)
  | conjunction (rules : List Rule)
  | disjunction (rules : List Rule)

/-- The rule of a chain: a single operand stands for itself. -/
def joined (join : List Rule → Rule) : List Rule → Rule
  | [only] => only
  | rules => join rules

/-- Which tokens write a rule, with at most so many parentheses open at once. -/
inductive Derives : Nat → Phrase → List Token → Prop
  | comparison {depth : Nat} {op : Operator} {v : Value} {symbol text : List Token}
    (name : String) (operator : (symbol, op) ∈ operators) (takes : op.takesValue = true)
    (value : DerivesValue (.value v) text) :
    Derives depth (.primary (.compare name op (some v))) (.name name :: (symbol ++ text))
  | emptiness {depth : Nat} {op : Operator} {symbol : List Token}
    (name : String) (operator : (symbol, op) ∈ operators) (takes : op.takesValue = false) :
    Derives depth (.primary (.compare name op none)) (.name name :: symbol)
  | parentheses {depth : Nat} {rules : List Rule} {text : List Token}
    (inside : Derives depth (.disjunction rules) text) :
    Derives (depth + 1) (.primary (joined .any rules)) (.openParen :: (text ++ [.closeParen]))
  | firstMember {depth : Nat} {rule : Rule} {text : List Token}
    (first : Derives depth (.primary rule) text) : Derives depth (.conjunction [rule]) text
  | nextMember {depth : Nat} {rules : List Rule} {rule : Rule} {before text : List Token}
    (members : Derives depth (.conjunction rules) before)
    (next : Derives depth (.primary rule) text) :
    Derives depth (.conjunction (rules ++ [rule])) (before ++ .and :: text)
  | firstAlternative {depth : Nat} {members : List Rule} {text : List Token}
    (first : Derives depth (.conjunction members) text) :
    Derives depth (.disjunction [joined .all members]) text
  | nextAlternative {depth : Nat} {rules members : List Rule} {before text : List Token}
    (alternatives : Derives depth (.disjunction rules) before)
    (next : Derives depth (.conjunction members) text) :
    Derives depth (.disjunction (rules ++ [joined .all members])) (before ++ .or :: text)

def Writes (tokens : List Token) (rule : Rule) : Prop :=
  ∃ rules, Derives maxOpen (.disjunction rules) tokens ∧ rule = joined .any rules

theorem DerivesValue.ne_items_nil {phrase : ValuePhrase} {text : List Token}
    (h : DerivesValue phrase text) : phrase ≠ .items [] := by
  cases h with
  | firstItem first => simp
  | nextItem items next => simp
  | _ => exact nofun

end FormLogic.Condition
