import FormLogic.Calculation.Graph
import FormLogic.Calculation.Order
import FormLogic.Form.States
import FormLogic.Formula

/-! Forms made ready for use: conditions read, calculated fields in order of computation, each with
its formula read. A formula that cannot be read is kept with its error and makes no form unusable;
nor does a dependency that is no known field. -/

namespace FormLogic

inductive Form.Error
  | duplicateField (path : String)
  | duplicateTarget (target : String)
  | condition (path : String) (effect : Effect) (error : Condition.Error)
  | cycle (cycle : Calculation.Cycle)

def Form.Error.message : Form.Error → String
  | duplicateField path => "duplicate field path '" ++ path ++ "'"
  | duplicateTarget target => "calculated field '" ++ target ++ "' is defined more than once"
  | condition path effect error =>
    "invalid " ++ effect.key ++ " condition on field '" ++ path ++ "': " ++ error.message
  | cycle c => c.message

structure CompiledCalculation where
  declaration : Calculation
  formula : Except Formula.Error Formula

structure CompiledForm where
  fields : List (Field Rule)
  /-- In order of computation. -/
  calculations : List CompiledCalculation

def firstRepeat? (seen : List String) : List String → Option String
  | [] => none
  | name :: names => if seen.contains name then some name else firstRepeat? (name :: seen) names

namespace Field

def compileCondition (field : Field Condition) (effect : Effect) :
    Except Form.Error (Option Rule) :=
  match field.condition? effect with
  | none => .ok none
  | some condition =>
    match condition.toRule with
    | .ok rule => .ok (some rule)
    | .error e => .error (.condition field.path effect e)

def compile (field : Field Condition) : Except Form.Error (Field Rule) := do
  let hiddenWhen ← field.compileCondition .hidden
  let requiredWhen ← field.compileCondition .required
  let readOnlyWhen ← field.compileCondition .readOnly
  return ⟨field.path, field.required, hiddenWhen, requiredWhen, readOnlyWhen⟩

end Field

def Calculation.compile (c : Calculation) : CompiledCalculation :=
  ⟨c, Formula.read c.formula c.dependsOn⟩

namespace Form

/-- The form made ready, or its first problem: repeated fields, repeated targets, conditions in
order of the fields, cycles. -/
def compile (form : Form) : Except Error CompiledForm :=
  match firstRepeat? [] (form.fields.map Field.path) with
  | some path => .error (.duplicateField path)
  | none =>
    match firstRepeat? [] (form.calculations.map Calculation.target) with
    | some target => .error (.duplicateTarget target)
    | none =>
      match form.fields.mapM Field.compile with
      | .error e => .error e
      | .ok fields =>
        match Calculation.order form.calculations with
        | .error cycle => .error (.cycle cycle)
        | .ok ordered => .ok ⟨fields, ordered.map Calculation.compile⟩

end Form

namespace CompiledForm

variable (form : CompiledForm)

def declarations : List Calculation := form.calculations.map CompiledCalculation.declaration

def order : List String := form.declarations.map Calculation.target

def paths : List String := form.fields.map Field.path

def baseRequired : List String := (form.fields.filter Field.required).map Field.path

def watched : NameSet := .ofList (form.declarations.flatMap Calculation.dependsOn)

def graph : DependencyGraph := Calculation.graph form.declarations

def warnings : List MissingDependency :=
  Calculation.missing form.declarations (form.paths ++ form.order)

def dependenciesOf? (target : String) : Option (List String) :=
  (form.declarations.find? (·.target == target)).map Calculation.dependsOn

def condition? (path : String) (effect : Effect) : Option Rule :=
  (form.fields.find? (·.path == path)).bind (·.condition? effect)

def states (s : Snapshot) : FieldStates := .ofFields form.fields s

def text : String :=
  "CompiledSchema(" ++ toString form.fields.length ++ " fields, " ++
    toString form.calculations.length ++ " calculated, " ++ toString form.watched.size ++
    " watched paths)"

end CompiledForm

end FormLogic
