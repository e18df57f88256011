import FormLogic.Calculation
import FormLogic.Condition

/-! Forms as they are declared: fields with their conditions, and calculated fields. -/

namespace FormLogic

inductive Effect
  | hidden
  | required
  | readOnly
  deriving DecidableEq

def Effect.all : List Effect := [hidden, required, readOnly]

theorem Effect.mem_all (effect : Effect) : effect ∈ Effect.all := by
  cases effect <;> decide

def Effect.key : Effect → String
  | hidden => "hiddenWhen"
  | required => "requiredWhen"
  | readOnly => "readOnlyWhen"

structure Field (κ : Type) where
  path : String
  required : Bool
  hiddenWhen : Option κ
  requiredWhen : Option κ
  readOnlyWhen : Option κ

def Field.condition? {κ : Type} (field : Field κ) : Effect → Option κ
  | .hidden => field.hiddenWhen
  | .required => field.requiredWhen
  | .readOnly => field.readOnlyWhen

structure Form where
  fields : List (Field Condition)
  calculations : List Calculation

def Condition.optionSameForm : Option Condition → Option Condition → Bool
  | none, none => true
  | some a, some b => a.sameForm b
  | _, _ => false

def Field.sameForm (a b : Field Condition) : Bool :=
  a.path == b.path && a.required == b.required &&
    Effect.all.all fun effect =>
      Condition.optionSameForm (a.condition? effect) (b.condition? effect)

def Form.sameForm (a b : Form) : Bool :=
  a.fields.length == b.fields.length &&
    (a.fields.zip b.fields).all (fun (f, g) => f.sameForm g) && a.calculations == b.calculations

end FormLogic
