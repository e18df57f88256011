import FormLogic.Document.Rule
import FormLogic.Form

/-! Forms as JSON documents. A condition is a rule or the text of a condition; it is read as a whole
first, so that even keys that will be skipped must be proper values. -/

namespace FormLogic

namespace Document

/-- The members of an object that have one of these keys. None if such a key is repeated, if a key
is no text, or if the value of another key is cut off. -/
def members? (keys : List String) : List (Json.Content × Json) → Option (List (String × Json))
  | [] => some []
  | (none, _) :: _ => none
  | (some key, j) :: rest =>
    match members? keys rest with
    | none => none
    | some found =>
      if keys.contains key then
        if (found.lookup key).isSome then none else some ((key, j) :: found)
      else if j.isWhole then some found
      else none

/-- The members of an object inside `room` levels. An array is the object whose members are its
items, in the order of the keys; it may leave out the last ones. -/
def record? (room : Nat) (keys : List String) : Json → Option (List (String × Json))
  | .object entries => if room = 0 then none else members? keys entries
  | .array items =>
    if room = 0 then none
    else if items.length ≤ keys.length then some (keys.zip items)
    else none
  | _ => none

/-- The items of an array, each read inside `room - 1` levels; an absent array is empty. -/
def list? {α : Type} (room : Nat) (read : Nat → Json → Option α) : Option Json → Option (List α)
  | none => some []
  | some (.array items) => if room = 0 then none else items.mapM (read (room - 1))
  | some _ => none

def string? : Json → Option String
  | .string s => s
  | _ => none

def requiredString? : Option Json → Option String
  | some j => string? j
  | none => none

def flag? : Option Json → Option Bool
  | none => some false
  | some (.bool b) => some b
  | some _ => none

def condition? (room : Nat) (j : Json) : Option Condition :=
  match Value.ofJson? room j, j with
  | none, _ => none
  | some _, .string (some text) => some (.expression text)
  | some _, j =>
    match ruleOfJson room j with
    | .ok rule => some (.rule rule)
    | .error _ => none

def optionalCondition? (room : Nat) : Option Json → Option (Option Condition)
  | none | some .null => some none
  | some j => (condition? room j).map some

def field? (room : Nat) (j : Json) : Option (Field Condition) := do
  let members ← record? room
    ["path", "required", Effect.hidden.key, Effect.required.key, Effect.readOnly.key] j
  let path ← requiredString? (members.lookup "path")
  let required ← flag? (members.lookup "required")
  let hiddenWhen ← optionalCondition? (room - 1) (members.lookup Effect.hidden.key)
  let requiredWhen ← optionalCondition? (room - 1) (members.lookup Effect.required.key)
  let readOnlyWhen ← optionalCondition? (room - 1) (members.lookup Effect.readOnly.key)
  return ⟨path, required, hiddenWhen, requiredWhen, readOnlyWhen⟩

def calculation? (room : Nat) (j : Json) : Option Calculation := do
  let members ← record? room ["target", "dependsOn", "formula"] j
  let target ← requiredString? (members.lookup "target")
  let dependsOn ← list? (room - 1) (fun _ => string?) (members.lookup "dependsOn")
  let formula ← requiredString? (members.lookup "formula")
  return ⟨target, dependsOn, formula⟩

def form? (room : Nat) (j : Json) : Option Form := do
  let members ← record? room ["fields", "calculated"] j
  let fields ← list? (room - 1) field? (members.lookup "fields")
  let calculations ← list? (room - 1) calculation? (members.lookup "calculated")
  return ⟨fields, calculations⟩

end Document

def Condition.toJson : Condition → Json
  | expression text => .string text
  | rule r => r.toJson

def Field.toJson (field : Field Condition) : Json :=
  .object ([(some "path", .string field.path), (some "required", .bool field.required)] ++
    Effect.all.filterMap fun effect =>
      (field.condition? effect).map fun condition => (some effect.key, condition.toJson))

def Calculation.toJson (c : Calculation) : Json :=
  .object [(some "target", .string c.target),
    (some "dependsOn", .array (c.dependsOn.map fun name => .string (some name))),
    (some "formula", .string c.formula)]

namespace Form

def toJson (form : Form) : Json :=
  .object [(some "fields", .array (form.fields.map Field.toJson)),
    (some "calculated", .array (form.calculations.map Calculation.toJson))]

def toText (form : Form) : String := form.toJson.pretty

def ofText? (text : String) : Option Form :=
  let document := Json.read text
  if document.ends then Document.form? Json.maxNesting document.root else none

end Form

end FormLogic
