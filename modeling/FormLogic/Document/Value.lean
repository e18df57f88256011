import FormLogic.Json.Reader
import FormLogic.Json.Writer

/-! Values as JSON. Reading takes at most `room` nested arrays and objects; of repeated keys the
last one counts. Writing gives null for numbers that are not finite. -/

namespace FormLogic

def Json.maxNesting : Nat := 127

namespace Value

mutual

def ofJson? (room : Nat) : Json → Option Value
  | .null => some .null
  | .bool b => some (.bool b)
  | .number n => n.toValue?
  | .string s => s.map .string
  | .array items => if room = 0 then none else (listOfJson? (room - 1) items).map .array
  | .object entries =>
    if room = 0 then none
    else (entriesOfJson? (room - 1) entries).map fun entries => .object (Entries.ofList entries)
  | .cut => none

def listOfJson? (room : Nat) : List Json → Option (List Value)
  | [] => some []
  | j :: rest =>
    match ofJson? room j, listOfJson? room rest with
    | some v, some vs => some (v :: vs)
    | _, _ => none

def entriesOfJson? (room : Nat) : List (Json.Content × Json) → Option (List (String × Value))
  | [] => some []
  | (key, j) :: rest =>
    match key, ofJson? room j, entriesOfJson? room rest with
    | some key, some v, some entries => some ((key, v) :: entries)
    | _, _, _ => none

end

mutual

def toJson : Value → Json
  | .null => .null
  | .bool b => .bool b
  | .int n => .number (.ofInt n.toInt)
  | .float x => (Json.Numeral.ofBinary64? x).elim .null .number
  | .string s => .string s
  | .array items => .array (listToJson items)
  | .object entries => .object (entriesToJson entries)

def listToJson : List Value → List Json
  | [] => []
  | v :: rest => toJson v :: listToJson rest

def entriesToJson : List (String × Value) → List (Json.Content × Json)
  | [] => []
  | (key, v) :: rest => (some key, toJson v) :: entriesToJson rest

end

def ofText? (text : String) : Option Value :=
  let document := Json.read text
  if document.ends then ofJson? Json.maxNesting document.root else none

end Value

end FormLogic
