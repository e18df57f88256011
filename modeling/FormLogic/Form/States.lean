import FormLogic.Form
import FormLogic.NameSet
import FormLogic.Rule.Truth

/-! The states of fields in a snapshot, as the conditions of the fields make them. -/

namespace FormLogic

structure FieldStates where
  hidden : NameSet
  required : NameSet
  readOnly : NameSet

def Field.affected (fields : List (Field Rule)) (s : Snapshot) (effect : Effect) : NameSet :=
  .ofList ((fields.filter fun field => (field.condition? effect).any (·.holds s)).map Field.path)

namespace FieldStates

def ofFields (fields : List (Field Rule)) (s : Snapshot) : FieldStates where
  hidden := Field.affected fields s .hidden
  required := Field.affected fields s .required
  readOnly := Field.affected fields s .readOnly

def mergedRequired (states : FieldStates) (base : List String) : NameSet :=
  states.required.union base

def listText (names : List String) : String := "[" ++ ", ".intercalate names ++ "]"

def text (states : FieldStates) : String :=
  "hidden: " ++ listText states.hidden.names ++ ", required: " ++ listText states.required.names ++
    ", read-only: " ++ listText states.readOnly.names

end FieldStates

end FormLogic
