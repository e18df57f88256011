import FormLogic.Calculation.Reach
import FormLogic.Form.Compiled

/-! Computing calculated fields. A pass goes through them in order; each formula sees what the
fields before it have been set to, and a write is proposed only where the new value does not agree
with the present one. A formula that fails is reported and leaves its field alone. -/

namespace FormLogic

structure Failure where
  target : String
  error : Formula.Error

def Failure.text (f : Failure) : String :=
  "formula for '" ++ f.target ++ "' failed: " ++ f.error.message

structure Report where
  writes : List Write
  failures : List Failure
  evaluated : List String

namespace Report

def empty : Report := ⟨[], [], []⟩

def isClean (r : Report) : Bool := r.failures.isEmpty

def text (r : Report) : String :=
  "writes: " ++ FieldStates.listText (r.writes.map Write.text) ++ ", failures: " ++
    toString r.failures.length ++ ", evaluated: " ++ FieldStates.listText r.evaluated

end Report

namespace CompiledCalculation

def target (c : CompiledCalculation) : String := c.declaration.target

def eval (c : CompiledCalculation) (s : Snapshot) : Except Formula.Error Value :=
  match c.formula with
  | .ok formula => formula.eval s
  | .error e => .error e

def isCurrent (c : CompiledCalculation) (s : Snapshot) (v : Value) : Bool :=
  (s.get? c.target).any (·.agrees v)

def pass : List CompiledCalculation → Snapshot → Report
  | [], _ => .empty
  | c :: rest, s =>
    match c.eval s with
    | .error e =>
      let r := pass rest s
      ⟨r.writes, ⟨c.target, e⟩ :: r.failures, c.target :: r.evaluated⟩
    | .ok v =>
      if c.isCurrent s v then
        let r := pass rest s
        ⟨r.writes, r.failures, c.target :: r.evaluated⟩
      else
        let r := pass rest (s.insert c.target v)
        ⟨⟨c.target, v, .system⟩ :: r.writes, r.failures, c.target :: r.evaluated⟩

end CompiledCalculation

namespace CompiledForm

variable (form : CompiledForm)

def report (s : Snapshot) : Report := CompiledCalculation.pass form.calculations s

def recompute (s : Snapshot) : List Write := (form.report s).writes

/-- The watched fields that lie on, above or below a path. -/
def overlapping (path : String) : List String :=
  form.watched.names.filter fun name => (Path.ofString name).overlaps (.ofString path)

def isWatched (path : String) : Bool := !(form.overlapping path).isEmpty

/-- All writes if one of the changed paths is watched, otherwise none. -/
def onChange (changed : List String) (s : Snapshot) : List Write :=
  if changed.any form.isWatched then form.recompute s else []

def scheduled (path : String) : NameSet :=
  Calculation.reached form.declarations (path :: form.overlapping path)

/-- Computes only what a change at `path` reaches, in the same order. -/
def recomputeAffected (path : String) (s : Snapshot) : List Write :=
  (CompiledCalculation.pass
    (form.calculations.filter fun c => (form.scheduled path).contains c.target) s).writes

end CompiledForm

end FormLogic
