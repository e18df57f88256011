import FormLogic.Rule.Truth
import Mathlib

/-! Rules joined in pairs. Either of two rules is just that; both of two rules is both of them unless
the first is a group of `all` without members. That group never holds by itself, but takes in the
second rule, which is then the only member. -/

namespace FormLogic.Rule

variable (s : Snapshot)

theorem allHold_append (rules more : List Rule) :
    allHold s (rules ++ more) = (allHold s rules && allHold s more) := by
  rw [allHold_eq_all, allHold_eq_all, allHold_eq_all, List.all_append]

theorem anyHolds_append (rules more : List Rule) :
    anyHolds s (rules ++ more) = (anyHolds s rules || anyHolds s more) := by
  rw [anyHolds_eq_any, anyHolds_eq_any, anyHolds_eq_any, List.any_append]

theorem holds_pair_all (a b : Rule) : (all [a, b]).holds s = (a.holds s && b.holds s) := by
  simp [holds, allHold]

theorem holds_pair_any (a b : Rule) : (any [a, b]).holds s = (a.holds s || b.holds s) := by
  simp [holds, anyHolds]

theorem holds_and_of_ne {a : Rule} (h : a ≠ all []) (b : Rule) :
    (a.and b).holds s = (a.holds s && b.holds s) := by
  cases a with
  | compare field op value => exact holds_pair_all s _ b
  | any rules => exact holds_pair_all s _ b
  | all rules =>
    obtain ⟨first, others, rfl⟩ := List.exists_cons_of_ne_nil fun hnil => h (congrArg all hnil)
    have hempty : ∀ more, (first :: others ++ more).isEmpty = false := fun _ => rfl
    rw [Rule.and, holds, holds, allHold_append, hempty]
    simp [allHold]

theorem holds_or (a b : Rule) : (a.or b).holds s = (a.holds s || b.holds s) := by
  cases a with
  | compare field op value => exact holds_pair_any s _ b
  | all rules => exact holds_pair_any s _ b
  | any rules =>
    rw [Rule.or, holds, holds, anyHolds_append]
    simp [anyHolds]

theorem holds_and_or (a b : Rule) :
    ((a.and b).holds s = true ↔ (a = all [] ∨ a.holds s = true) ∧ b.holds s = true) ∧
      ((a.or b).holds s = true ↔ a.holds s = true ∨ b.holds s = true) := by
  refine ⟨?_, by rw [holds_or, Bool.or_eq_true]⟩
  by_cases hempty : a = all []
  · have hsingle : ((all []).and b).holds s = b.holds s := by simp [Rule.and, holds, allHold]
    rw [hempty, hsingle]
    exact ⟨fun hb => ⟨.inl rfl, hb⟩, fun h => h.2⟩
  · rw [holds_and_of_ne s hempty, Bool.and_eq_true]
    exact and_congr_left fun _ => ⟨.inr, fun h => h.resolve_left hempty⟩

theorem holds_empty_and :
    ¬ (((all []).and (compare "age" .isEmpty none)).holds .empty = true ↔
      (all []).holds .empty = true ∧ (compare "age" .isEmpty none).holds .empty = true) := by
  decide

end FormLogic.Rule
