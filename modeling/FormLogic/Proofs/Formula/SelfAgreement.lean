import FormLogic.Proofs.Formula.Dependence
import Mathlib

/-! Which results of a formula agree with themselves. A number that is computed or passed on is
finite, but an array or object is passed on as it is, with any NaN inside. -/

namespace FormLogic.Formula

theorem eval_of_passed? {source : String} {declared : List String} {formula : Formula}
    (hread : read source declared = .ok formula) {s : Snapshot} {path : String} {v : Value}
    (hpassed : formula.expr.passed? s = some path) (hget : s.get? path = some v)
    (hv : v.isSingle = false) : formula.eval s = .ok v := by
  have hexpr := (Expr.eval_of_passed? (over_of_read hread).1 hpassed).2
  rw [hget, Option.getD_some] at hexpr
  rw [eval, hexpr]
  cases v with
  | float x => cases hv
  | _ => rfl

/-- A result agrees with itself just when there is no NaN in it. That is so of every result unless
the formula passes on an array or object that has NaN inside. -/
theorem agrees_self_of_eval_iff {source : String} {declared : List String} {formula : Formula}
    (hread : read source declared = .ok formula) (s : Snapshot) :
    (∀ v, formula.eval s = .ok v → (v.agrees v = true ↔ v.hasNaN = false)) ∧
    ((∀ v, formula.eval s = .ok v → v.agrees v = true) ↔
      ∀ path v, formula.expr.passed? s = some path → s.get? path = some v →
        v.isSingle = false → v.hasNaN = false) ∧
    ((∀ path ∈ formula.fields, ∀ v, s.get? path = some v → v.isSingle = false →
        v.hasNaN = false) →
      ∀ v, formula.eval s = .ok v → v.agrees v = true) := by
  have hself : ∀ v : Value, v.agrees v = true ↔ v.hasNaN = false := fun v => by
    rw [v.agrees_self, Bool.not_eq_true']
  have hagree : (∀ path ∈ formula.fields, ∀ v, formula.expr.passed? s = some path →
      s.get? path = some v → v.isSingle = false → v.hasNaN = false) →
      ∀ v, formula.eval s = .ok v → v.agrees v = true := by
    intro hfields v h
    rw [hself, ← Bool.not_eq_true]
    intro hnan
    obtain ⟨hmany, path, hpath, hpassed, hget⟩ := passed_of_hasNaN hread h hnan
    exact absurd ((hfields path hpath v hpassed hget hmany).symm.trans hnan) nofun
  refine ⟨fun v _ => hself v, ⟨fun hall path v hpassed hget hmany => ?_, fun hpasses => ?_⟩,
    fun hfields => ?_⟩
  · exact (hself v).1 (hall v (eval_of_passed? hread hpassed hget hmany))
  · exact hagree fun path _ v => hpasses path v
  · exact hagree fun path hpath v _ => hfields path hpath v

def shareFormula : Formula :=
  ⟨"many ? shares : total / 2",
    .conditional (.field "many") (.field "shares")
      (.binary (.arithmetic .div) (.field "total") (.literal (.int 2))),
    ["many", "shares", "total"]⟩

theorem read_shareFormula :
    read shareFormula.source shareFormula.fields = .ok shareFormula := by cbv

theorem agrees_self_shares :
    let s : Snapshot :=
      ⟨[("many", .bool true), ("shares", .array [.int 1, .float (.zero false)]),
        ("total", .float .nan)]⟩
    (∀ path ∈ shareFormula.fields, ∀ v, s.get? path = some v → v.isSingle = false →
        v.hasNaN = false) ∧
      shareFormula.eval s = .ok (.array [.int 1, .float (.zero false)]) ∧
      (Value.array [.int 1, .float (.zero false)]).agrees
        (.array [.int 1, .float (.zero false)]) = true := by
  intro s
  have hfields : ∀ path ∈ shareFormula.fields, ∀ v, s.get? path = some v →
      v.isSingle = false → v.hasNaN = false := by
    intro path hpath v hget hmany
    obtain rfl | rfl | rfl : path = "many" ∨ path = "shares" ∨ path = "total" := by
      simpa [shareFormula] using hpath
    · obtain rfl : Value.bool true = v := Option.some.inj hget
      exact absurd hmany nofun
    · obtain rfl : Value.array [.int 1, .float (.zero false)] = v := Option.some.inj hget
      rfl
    · obtain rfl : Value.float .nan = v := Option.some.inj hget
      exact absurd hmany nofun
  exact ⟨hfields, rfl, (agrees_self_of_eval_iff read_shareFormula s).2.2 hfields _ rfl⟩

theorem not_agrees_self_shares :
    let s : Snapshot := ⟨[("many", .bool true), ("shares", .array [.float .nan])]⟩
    read shareFormula.source shareFormula.fields = .ok shareFormula ∧
      shareFormula.eval s = .ok (.array [.float .nan]) ∧
      (Value.array [.float .nan]).agrees (.array [.float .nan]) = false :=
  ⟨read_shareFormula, rfl, rfl⟩

end FormLogic.Formula
