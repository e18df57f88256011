import FormLogic.Proofs.Value.Resemblance
import Mathlib

/-! What a rule looks at: the values found at its fields, and of these nothing that agreement does not
look at. So it holds alike of snapshots that have resembling values there. -/

namespace FormLogic

open Value

theorem Operator.holds_congr (op : Operator) {actual other : Option Value}
    (h : Option.Rel Resembles actual other) (expected : Option Value) :
    op.holds actual expected = op.holds other expected := by
  cases h with
  | none => rfl
  | @some v w h =>
    have hagree : optionsAgree (some v) expected = optionsAgree (some w) expected := by
      cases expected with
      | none => rfl
      | some u => exact h.agrees_eq u
    have hamong : isAmong (some v) expected = isAmong (some w) expected := by
      have hitem : ∀ item : Value, item.agrees v = item.agrees w := fun item => by
        rw [agrees_comm, h.agrees_eq, agrees_comm]
      cases expected with
      | none => rfl
      | some u =>
        cases u with
        | array items => simp only [isAmong, hitem]
        | _ => rfl
    have hordered : ∀ test, isOrdered test (some v) expected = isOrdered test (some w) expected := by
      intro test
      cases expected with
      | none => rfl
      | some u => simp only [isOrdered, h.compareNumbers?_eq u]
    cases op <;> simp only [holds, hagree, hamong, hordered, Option.all_some, h.isBlank_eq]

theorem Value.rel_of_optionsAgree {found other : Option Value}
    (h : optionsAgree found other = true) : Option.Rel Resembles found other := by
  cases found with
  | none =>
    cases other with
    | none => exact .none
    | some w => cases h
  | some v =>
    cases other with
    | none => cases h
    | some w => exact .some (.agreeing h)

namespace Rule

variable {s t : Snapshot}

mutual

theorem holds_congr (rule : Rule) (h : ∀ field ∈ rule.mentions,
    Option.Rel Resembles (s.get? field) (t.get? field)) : rule.holds s = rule.holds t := by
  cases rule with
  | compare field op value => exact op.holds_congr (h field (List.mem_singleton_self _)) value
  | all rules => rw [holds, holds, allHold_congr rules h]
  | any rules => rw [holds, holds, anyHolds_congr rules h]

theorem allHold_congr (rules : List Rule) (h : ∀ field ∈ mentionsOfAll rules,
    Option.Rel Resembles (s.get? field) (t.get? field)) : allHold s rules = allHold t rules := by
  cases rules with
  | nil => rfl
  | cons rule rules =>
    rw [mentionsOfAll, List.forall_mem_append] at h
    rw [allHold, allHold, holds_congr rule h.1, allHold_congr rules h.2]

theorem anyHolds_congr (rules : List Rule) (h : ∀ field ∈ mentionsOfAll rules,
    Option.Rel Resembles (s.get? field) (t.get? field)) : anyHolds s rules = anyHolds t rules := by
  cases rules with
  | nil => rfl
  | cons rule rules =>
    rw [mentionsOfAll, List.forall_mem_append] at h
    rw [anyHolds, anyHolds, holds_congr rule h.1, anyHolds_congr rules h.2]

end

theorem mem_fields_iff {rule : Rule} {field : String} :
    field ∈ rule.fields ↔ field ∈ rule.mentions := List.mem_eraseDups

end Rule

end FormLogic
