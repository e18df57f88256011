import FormLogic.Condition.Reader

/-! Conditions of a form: a rule, or the text of one. -/

namespace FormLogic

inductive Condition
  | expression (text : String)
  | rule (rule : Rule)

namespace Condition

def toRule : Condition → Except Error Rule
  | expression text => read text
  | rule r => .ok r

def sameForm : Condition → Condition → Bool
  | expression a, expression b => a == b
  | rule a, rule b => a.sameForm b
  | _, _ => false

end Condition

end FormLogic
