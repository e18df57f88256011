import FormLogic.Proofs.Condition.Grammar
import FormLogic.Rule.Truth

/-! The form of a rule that its text keeps. It holds of the same snapshots as the rule. -/

namespace FormLogic.Rule

mutual

/-- The rule with every group of one member replaced by that member, and without the values that an
operator does not take. -/
def reduced : Rule → Rule
  | compare field op value => compare field op (if op.takesValue then value else none)
  | all rules => Condition.joined all (reducedAll rules)
  | any rules => Condition.joined any (reducedAll rules)

def reducedAll : List Rule → List Rule
  | [] => []
  | rule :: rules => reduced rule :: reducedAll rules

end

mutual

def nesting : Rule → Nat
  | compare .. => 0
  | all rules | any rules => nestingOfAll rules + 1

def nestingOfAll : List Rule → Nat
  | [] => 0
  | rule :: rules => max (nesting rule) (nestingOfAll rules)

end

theorem reducedAll_eq_map (rules : List Rule) : reducedAll rules = rules.map reduced := by
  induction rules with
  | nil => rfl
  | cons rule rules ih => rw [reducedAll, ih, List.map_cons]

theorem nesting_le_nestingOfAll {rule : Rule} {rules : List Rule} (h : rule ∈ rules) :
    rule.nesting ≤ nestingOfAll rules := by
  induction rules with
  | nil => exact absurd h List.not_mem_nil
  | cons first rules ih =>
    rw [nestingOfAll]
    rcases List.mem_cons.1 h with rfl | hmore
    · exact Nat.le_max_left ..
    · exact Nat.le_trans (ih hmore) (Nat.le_max_right ..)

variable (s : Snapshot)

theorem holds_joined_all (rules : List Rule) :
    (Condition.joined all rules).holds s = (!rules.isEmpty && allHold s rules) := by
  rcases rules with _ | ⟨rule, _ | ⟨next, rest⟩⟩
  · rfl
  · simp [Condition.joined, allHold]
  · rfl

theorem holds_joined_any (rules : List Rule) :
    (Condition.joined any rules).holds s = anyHolds s rules := by
  rcases rules with _ | ⟨rule, _ | ⟨next, rest⟩⟩
  · rfl
  · simp [Condition.joined, anyHolds]
  · rfl

theorem isEmpty_reducedAll (rules : List Rule) : (reducedAll rules).isEmpty = rules.isEmpty := by
  cases rules <;> rfl

mutual

theorem holds_reduced (rule : Rule) : rule.reduced.holds s = rule.holds s := by
  cases rule with
  | compare field op value => cases op <;> rfl
  | all rules =>
    rw [reduced, holds_joined_all, isEmpty_reducedAll, allHold_reducedAll rules, holds]
  | any rules => rw [reduced, holds_joined_any, anyHolds_reducedAll rules, holds]

theorem allHold_reducedAll (rules : List Rule) : allHold s (reducedAll rules) = allHold s rules := by
  cases rules with
  | nil => rfl
  | cons rule rules =>
    rw [reducedAll, allHold, allHold, holds_reduced rule, allHold_reducedAll rules]

theorem anyHolds_reducedAll (rules : List Rule) :
    anyHolds s (reducedAll rules) = anyHolds s rules := by
  cases rules with
  | nil => rfl
  | cons rule rules =>
    rw [reducedAll, anyHolds, anyHolds, holds_reduced rule, anyHolds_reducedAll rules]

end

end FormLogic.Rule
