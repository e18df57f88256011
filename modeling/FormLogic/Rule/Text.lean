import FormLogic.Rule
import FormLogic.Value.Text

/-! The text of a rule, in the language of conditions. Groups stand in parentheses; a group
without members has a text that no condition has. -/

namespace FormLogic.Rule

mutual

def chars : Rule → List Char
  | compare field op (some value) =>
    field.toList ++ ' ' :: op.symbol.toList ++
      if op.takesValue then ' ' :: value.chars else []
  | compare field op none => field.toList ++ ' ' :: op.symbol.toList
  | all [] => "and[]".toList
  | all (rule :: rules) => '(' :: chars rule ++ moreChars "&&" rules ++ [')']
  | any [] => "or[]".toList
  | any (rule :: rules) => '(' :: chars rule ++ moreChars "||" rules ++ [')']

def moreChars (connective : String) : List Rule → List Char
  | [] => []
  | rule :: rules => ' ' :: connective.toList ++ ' ' :: chars rule ++ moreChars connective rules

end

def text (rule : Rule) : String := String.ofList rule.chars

end FormLogic.Rule
