import FormLogic.Formula.Evaluation
import FormLogic.Formula.Reader

/-! Formulas of calculated fields. A formula reads only names that were declared for it. -/

namespace FormLogic

/-- A formula that has been read: its text, its expression, and the names that it reads in order
of first mention. -/
structure Formula where
  source : String
  expr : Formula.Expr
  fields : List String

namespace Formula

def read (source : String) (declared : List String) : Except Error Formula :=
  match Token.scan source with
  | .error fault => .error (.malformed fault.offset (.lexical fault.item))
  | .ok scan =>
    match readTokens declared scan with
    | .ok (expr, fields) => .ok ⟨source, expr, fields⟩
    | .error e => .error e

/-- The value of a formula. It is never itself an infinite number or NaN. -/
def eval (formula : Formula) (s : Snapshot) : Except Error Value :=
  match formula.expr.eval s with
  | .ok (.float x) => ofFinite x
  | result => result

def evalText (source : String) (declared : List String) (s : Snapshot) : Except Error Value :=
  match read source declared with
  | .ok formula => formula.eval s
  | .error e => .error e

end Formula

end FormLogic
