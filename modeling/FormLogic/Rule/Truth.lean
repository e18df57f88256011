import FormLogic.Rule
import FormLogic.Snapshot

/-! When a rule holds of a snapshot. Comparisons never convert a value; an order holds between
numbers only. -/

namespace FormLogic

def Value.optionsAgree : Option Value → Option Value → Bool
  | some v, some w => v.agrees w
  | none, none => true
  | _, _ => false

def Value.isAmong (actual expected : Option Value) : Bool :=
  match actual, expected with
  | some v, some (.array items) => items.any (·.agrees v)
  | _, _ => false

def Value.isOrdered (test : Ordering → Bool) (actual expected : Option Value) : Bool :=
  match actual, expected with
  | some v, some w => (v.compareNumbers? w).any test
  | _, _ => false

def Operator.holds (op : Operator) (actual expected : Option Value) : Bool :=
  match op with
  | .equals => Value.optionsAgree actual expected
  | .notEquals => !Value.optionsAgree actual expected
  | .isIn => Value.isAmong actual expected
  | .notIn => !Value.isAmong actual expected
  | .greater => Value.isOrdered Ordering.isGT actual expected
  | .greaterOrEqual => Value.isOrdered Ordering.isGE actual expected
  | .less => Value.isOrdered Ordering.isLT actual expected
  | .lessOrEqual => Value.isOrdered Ordering.isLE actual expected
  | .isEmpty => actual.all Value.isBlank
  | .isNotEmpty => !actual.all Value.isBlank
  | .unknown => false

namespace Rule

mutual

/-- A group without members never holds. -/
def holds (s : Snapshot) : Rule → Bool
  | compare field op value => op.holds (s.get? field) value
  | all rules => !rules.isEmpty && allHold s rules
  | any rules => anyHolds s rules

def allHold (s : Snapshot) : List Rule → Bool
  | [] => true
  | rule :: rules => holds s rule && allHold s rules

def anyHolds (s : Snapshot) : List Rule → Bool
  | [] => false
  | rule :: rules => holds s rule || anyHolds s rules

end

theorem allHold_eq_all (s : Snapshot) (rules : List Rule) :
    allHold s rules = rules.all (holds s) := by
  induction rules with
  | nil => rfl
  | cons rule rules ih => rw [allHold, List.all_cons, ih]

theorem anyHolds_eq_any (s : Snapshot) (rules : List Rule) :
    anyHolds s rules = rules.any (holds s) := by
  induction rules with
  | nil => rfl
  | cons rule rules ih => rw [anyHolds, List.any_cons, ih]

end Rule

end FormLogic
