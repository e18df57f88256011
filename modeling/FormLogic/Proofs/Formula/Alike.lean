import FormLogic.Form.Pass
import FormLogic.Proofs.Formula.Names
import FormLogic.Proofs.Value.Agreement

/-! Formulas do not tell alike values apart. From fields with alike values a formula computes alike
values, or it fails in the same way. -/

namespace FormLogic

namespace Binary64

variable {x x' y y' : Binary64}

theorem nearest_zero (negative : Bool) (den : Nat) : nearest negative 0 den = zero negative := by
  have hround : ∀ den, roundEven 0 den = 0 := by
    intro den
    cases den <;> simp [roundEven]
  have hrank : nearestRank 0 den = 0 := by simp [nearestRank, hround]
  simp [nearest, hrank, zero, ranks]

theorem round_zero (negative : Bool) : round negative 0 = 0 := by
  have hpos := unitsPerOne_pos
  have hlt : 2 * units 0 + unitsPerOne < 2 * unitsPerOne := by
    rw [units_zero]
    omega
  simp [round, Nat.div_eq_of_lt hlt]

theorem floor_zero (negative : Bool) : floor negative 0 = 0 := by
  rw [floor, signedUnits_zero, Int.zero_ediv]

theorem ceil_zero (negative : Bool) : ceil negative 0 = 0 := by
  rw [ceil, signedUnits_zero, Int.neg_zero, Int.zero_ediv, Int.neg_zero]

theorem add_comm (x y : Binary64) : x.add y = y.add x := by
  cases x with
  | nan => cases y <;> rfl
  | infinite s =>
    cases y with
    | infinite t => cases s <;> cases t <;> rfl
    | _ => rfl
  | finite s a =>
    cases y with
    | finite t b => rw [add, add, Int.add_comm, Bool.and_comm]
    | _ => rfl

theorem mul_comm (x y : Binary64) : x.mul y = y.mul x := by
  have hsign : ∀ s t : Bool, (s != t) = (t != s) := by decide
  cases x with
  | nan => cases y <;> rfl
  | infinite s =>
    cases y with
    | nan => rfl
    | infinite t => rw [mul, mul, hsign]
    | finite t b => rw [mul, mul, hsign]
  | finite s a =>
    cases y with
    | nan => rfl
    | infinite t => rw [mul, mul, hsign]
    | finite t b => rw [mul, mul, hsign, Nat.mul_comm]

def Alike (x y : Binary64) : Prop := x = y ∨ (x.isZero = true ∧ y.isZero = true)

namespace Alike

theorem refl (x : Binary64) : x.Alike x := .inl rfl

theorem zeros (s t : Bool) : (zero s).Alike (zero t) := .inr ⟨rfl, rfl⟩

theorem isZero_eq (h : x.Alike y) : x.isZero = y.isZero := by
  rcases h with rfl | ⟨hx, hy⟩
  · rfl
  · rw [hx, hy]

theorem trans (h : x.Alike x') (h' : x'.Alike y) : x.Alike y := by
  rcases h with rfl | ⟨hx, hx'⟩
  · exact h'
  · exact .inr ⟨hx, h'.isZero_eq ▸ hx'⟩

theorem eq_of_isZero_eq_false (h : x.Alike y) (hx : x.isZero = false) : x = y :=
  h.resolve_right fun hzeros => absurd (hx.symm.trans hzeros.1) nofun

theorem isFinite_eq (h : x.Alike y) : x.isFinite = y.isFinite := by
  rcases h with rfl | ⟨hx, hy⟩
  · rfl
  · obtain ⟨s, rfl⟩ := eq_zero_of_isZero hx
    obtain ⟨t, rfl⟩ := eq_zero_of_isZero hy
    rfl

theorem neg (h : x.Alike y) : x.neg.Alike y.neg := by
  rcases h with rfl | ⟨hx, hy⟩
  · exact refl _
  · obtain ⟨s, rfl⟩ := eq_zero_of_isZero hx
    obtain ⟨t, rfl⟩ := eq_zero_of_isZero hy
    exact zeros _ _

theorem left {op : Binary64 → Binary64 → Binary64}
    (hop : ∀ s t z, (op (zero s) z).Alike (op (zero t) z)) (h : x.Alike y) (z : Binary64) :
    (op x z).Alike (op y z) := by
  rcases h with rfl | ⟨hx, hy⟩
  · exact refl _
  · obtain ⟨s, rfl⟩ := eq_zero_of_isZero hx
    obtain ⟨t, rfl⟩ := eq_zero_of_isZero hy
    exact hop s t z

theorem add (h : x.Alike x') (h' : y.Alike y') : (x.add y).Alike (x'.add y') := by
  have hzero : ∀ s t z, ((zero s).add z).Alike ((zero t).add z) := by
    intro s t z
    cases z with
    | finite u c =>
      simp only [zero, Binary64.add, signedUnits_zero, Int.zero_add]
      split
      · exact zeros _ _
      · exact refl _
    | _ => exact refl _
  have hright := left hzero h' x'
  rw [add_comm y x', add_comm y' x'] at hright
  exact (left hzero h y).trans hright

theorem sub (h : x.Alike x') (h' : y.Alike y') : (x.sub y).Alike (x'.sub y') := h.add h'.neg

theorem mul (h : x.Alike x') (h' : y.Alike y') : (x.mul y).Alike (x'.mul y') := by
  have hzero : ∀ s t z, ((zero s).mul z).Alike ((zero t).mul z) := by
    intro s t z
    cases z with
    | finite u c =>
      simp only [zero, Binary64.mul, units_zero, Nat.zero_mul, nearest_zero]
      exact zeros _ _
    | _ => exact refl _
  have hright := left hzero h' x'
  rw [mul_comm y x', mul_comm y' x'] at hright
  exact (left hzero h y).trans hright

theorem div (h : x.Alike x') (y : Binary64) : (x.div y).Alike (x'.div y) := by
  refine left (fun s t z => ?_) h y
  cases z with
  | finite u c =>
    simp only [zero, Binary64.div, units_zero, Nat.zero_mul, nearest_zero]
    split
    · exact refl _
    · exact zeros _ _
  | infinite u => exact zeros _ _
  | nan => exact refl _

theorem rem (h : x.Alike x') (y : Binary64) : (x.rem y).Alike (x'.rem y) := by
  refine left (fun s t z => ?_) h y
  cases z with
  | finite u c =>
    simp only [zero, Binary64.rem, units_zero, Nat.zero_mod, nearest_zero]
    split
    · exact refl _
    · exact zeros _ _
  | infinite u => exact zeros _ _
  | nan => exact refl _

end Alike

end Binary64

namespace Value

theorem Alike.toBinary64? {v w : Value} (h : v.Alike w) :
    (v.toBinary64? = none ∧ w.toBinary64? = none) ∨
      ∃ x y, v.toBinary64? = some x ∧ w.toBinary64? = some y ∧ x.Alike y := by
  cases h with
  | same v =>
    cases hv : v.toBinary64? with
    | none => exact .inl ⟨rfl, rfl⟩
    | some x => exact .inr ⟨x, x, rfl, rfl, .refl x⟩
  | zeros left right => exact .inr ⟨_, _, rfl, rfl, .inr ⟨left, right⟩⟩
  | arrays items => exact .inl ⟨rfl, rfl⟩
  | objects entries => exact .inl ⟨rfl, rfl⟩

theorem Alike.int_eq {n : Int64} {w : Value} (h : (Value.int n).Alike w) : w = .int n := by
  cases h
  rfl

theorem Alike.string_eq {s : String} {w : Value} (h : (Value.string s).Alike w) :
    w = .string s := by
  cases h
  rfl

end Value

namespace Formula

inductive SameOutcome : Except Error Value → Except Error Value → Prop
  | value {v w : Value} (alike : v.Alike w) : SameOutcome (.ok v) (.ok w)
  | error (e : Error) : SameOutcome (.error e) (.error e)

namespace SameOutcome

theorem refl (r : Except Error Value) : SameOutcome r r := by
  cases r with
  | ok v => exact .value (.same v)
  | error e => exact .error e

theorem of_eq {r r' : Except Error Value} (h : r = r') : SameOutcome r r' := h ▸ refl r

theorem bind {r r' : Except Error Value} {f g : Value → Except Error Value}
    (h : SameOutcome r r') (hf : ∀ v w, v.Alike w → SameOutcome (f v) (g w)) :
    SameOutcome (r >>= f) (r' >>= g) := by
  cases h with
  | value alike => exact hf _ _ alike
  | error e => exact .error e

end SameOutcome

section Operators

variable {v v' w w' : Value} {x x' y y' : Binary64}

theorem sameOutcome_ofFinite (h : x.Alike y) : SameOutcome (ofFinite x) (ofFinite y) := by
  rw [ofFinite, ofFinite, h.isFinite_eq]
  split
  · rcases h with rfl | ⟨hx, hy⟩
    · exact .refl _
    · exact .value (.zeros hx hy)
  · exact .error _

theorem UnaryOp.sameOutcome_apply (op : UnaryOp) (h : v.Alike w) :
    SameOutcome (op.apply v) (op.apply w) := by
  cases op with
  | not => exact .of_eq (by rw [apply, apply, h.isTruthy_eq])
  | neg =>
    cases h with
    | zeros left right => exact sameOutcome_ofFinite (Binary64.Alike.neg (.inr ⟨left, right⟩))
    | _ => exact .refl _

theorem Arithmetic.sameOutcome_applyBinary64 (op : Arithmetic) (h : x.Alike x')
    (h' : y.Alike y') : SameOutcome (op.applyBinary64 x y) (op.applyBinary64 x' y') := by
  cases op with
  | add => exact sameOutcome_ofFinite (h.add h')
  | sub => exact sameOutcome_ofFinite (h.sub h')
  | mul => exact sameOutcome_ofFinite (h.mul h')
  | div =>
    rw [applyBinary64, applyBinary64, ← h'.isZero_eq]
    split
    · exact .error _
    · next hzero =>
      rw [← h'.eq_of_isZero_eq_false (by simpa using hzero)]
      exact sameOutcome_ofFinite (h.div y)
  | rem =>
    rw [applyBinary64, applyBinary64, ← h'.isZero_eq]
    split
    · exact .error _
    · next hzero =>
      rw [← h'.eq_of_isZero_eq_false (by simpa using hzero)]
      exact sameOutcome_ofFinite (h.rem y)

theorem Arithmetic.apply_eq (op : Arithmetic) (h : ∀ a b, v = .int a → w ≠ .int b) :
    op.apply v w = match v.toBinary64?, w.toBinary64? with
      | some x, some y => op.applyBinary64 x y
      | _, _ => .error (.operands (.arithmetic op) v.kind w.kind) := by
  unfold apply
  split
  · exact absurd rfl (h _ _ rfl)
  · rfl

theorem Arithmetic.sameOutcome_apply (op : Arithmetic) (h : v.Alike v') (h' : w.Alike w') :
    SameOutcome (op.apply v w) (op.apply v' w') := by
  by_cases hwhole : ∃ a b, v = .int a ∧ w = .int b
  · obtain ⟨a, b, rfl, rfl⟩ := hwhole
    rw [h.int_eq, h'.int_eq]
    exact .refl _
  · have hleft : ∀ a b, v = .int a → w ≠ .int b := fun a b hv hw => hwhole ⟨a, b, hv, hw⟩
    have hright : ∀ a b, v' = .int a → w' ≠ .int b := by
      rintro a b rfl rfl
      exact hwhole ⟨a, b, h.symm.int_eq, h'.symm.int_eq⟩
    rw [op.apply_eq hleft, op.apply_eq hright, h.kind_eq, h'.kind_eq]
    rcases h.toBinary64? with ⟨hv, hv'⟩ | ⟨x, x', hv, hv', hx⟩
    · rw [hv, hv']
      exact .error _
    · rcases h'.toBinary64? with ⟨hw, hw'⟩ | ⟨y, y', hw, hw', hy⟩
      · rw [hv, hv', hw, hw']
        exact .error _
      · rw [hv, hv', hw, hw']
        exact op.sameOutcome_applyBinary64 hx hy

theorem OrderTest.apply_eq (test : OrderTest) (h : ∀ a b, v = .string a → w ≠ .string b) :
    test.apply v w = if v.isNumber && w.isNumber then
        .ok (.bool ((v.compareNumbers? w).any test.holds))
      else .error (.operands (.order test) v.kind w.kind) := by
  unfold apply
  split
  · exact absurd rfl (h _ _ rfl)
  · rfl

theorem OrderTest.sameOutcome_apply (test : OrderTest) (h : v.Alike v') (h' : w.Alike w') :
    SameOutcome (test.apply v w) (test.apply v' w') := by
  by_cases hstrings : ∃ a b, v = .string a ∧ w = .string b
  · obtain ⟨a, b, rfl, rfl⟩ := hstrings
    rw [h.string_eq, h'.string_eq]
    exact .refl _
  · have hleft : ∀ a b, v = .string a → w ≠ .string b := fun a b hv hw =>
      hstrings ⟨a, b, hv, hw⟩
    have hright : ∀ a b, v' = .string a → w' ≠ .string b := by
      rintro a b rfl rfl
      exact hstrings ⟨a, b, h.symm.string_eq, h'.symm.string_eq⟩
    rw [test.apply_eq hleft, test.apply_eq hright, Value.isNumber, Value.isNumber, Value.isNumber,
      Value.isNumber, h.kind_eq, h'.kind_eq, h.compareNumbers?_eq h']
    exact .refl _

theorem BinaryOp.sameOutcome_apply (op : BinaryOp) (h : v.Alike v') (h' : w.Alike w') :
    SameOutcome (op.apply v w) (op.apply v' w') := by
  cases op with
  | arithmetic op => exact op.sameOutcome_apply h h'
  | order test => exact test.sameOutcome_apply h h'
  | equal => exact .of_eq (by rw [apply, apply, h.agrees_eq h'])
  | notEqual => exact .of_eq (by rw [apply, apply, h.agrees_eq h'])
  | and => exact .of_eq (by rw [apply, apply, h.isTruthy_eq, h'.isTruthy_eq])
  | or => exact .of_eq (by rw [apply, apply, h.isTruthy_eq, h'.isTruthy_eq])

theorem Function.applyFinite_zero (f : Function) (s t : Bool) :
    f.applyFinite s ⟨0, by decide⟩ = f.applyFinite t ⟨0, by decide⟩ := by
  cases f with
  | round => rw [applyFinite, applyFinite, Binary64.round_zero, Binary64.round_zero]; rfl
  | floor => rw [applyFinite, applyFinite, Binary64.floor_zero, Binary64.floor_zero]; rfl
  | ceil => rw [applyFinite, applyFinite, Binary64.ceil_zero, Binary64.ceil_zero]; rfl
  | abs => rfl

theorem Function.sameOutcome_apply (f : Function) (h : v.Alike w) :
    SameOutcome (f.apply v) (f.apply w) := by
  cases h with
  | zeros left right =>
    obtain ⟨s, rfl⟩ := Binary64.eq_zero_of_isZero left
    obtain ⟨t, rfl⟩ := Binary64.eq_zero_of_isZero right
    exact .of_eq (congrArg Except.ok (f.applyFinite_zero s t))
  | _ => exact .refl _

end Operators

theorem Expr.sameOutcome_eval {names : List String} {s t : Snapshot}
    (h : ∀ path ∈ names, ((s.get? path).getD .null).Alike ((t.get? path).getD .null)) {e : Expr}
    (he : e.Over names) : SameOutcome (e.eval s) (e.eval t) := by
  induction e with
  | literal v => exact .refl _
  | field path => exact .value (h path he)
  | unary op operand ih =>
    rw [eval, eval]
    exact (ih he).bind fun v w => op.sameOutcome_apply
  | binary op left right ihl ihr =>
    have hleft := ihl he.1
    have hright := ihr he.2
    cases op with
    | and =>
      rw [eval, eval]
      refine hleft.bind fun v w hv => ?_
      rw [hv.isTruthy_eq]
      split
      · exact hright.bind fun v w hv => .of_eq (by rw [hv.isTruthy_eq])
      · exact .refl _
    | or =>
      rw [eval, eval]
      refine hleft.bind fun v w hv => ?_
      rw [hv.isTruthy_eq]
      split
      · exact .refl _
      · exact hright.bind fun v w hv => .of_eq (by rw [hv.isTruthy_eq])
    | _ =>
      rw [eval, eval]
      · refine hleft.bind fun v v' hv => hright.bind fun w w' hw => ?_
        exact BinaryOp.sameOutcome_apply _ hv hw
      all_goals exact nofun
  | conditional condition yes no ihc ihy ihn =>
    rw [eval, eval]
    refine (ihc he.1).bind fun v w hv => ?_
    rw [hv.isTruthy_eq]
    split
    · exact ihy he.2.1
    · exact ihn he.2.2
  | call f argument ih =>
    rw [eval, eval]
    exact (ih he).bind fun v w => f.sameOutcome_apply

theorem sameOutcome_eval {source : String} {declared : List String} {formula : Formula}
    (hread : read source declared = .ok formula) {s t : Snapshot}
    (h : ∀ path ∈ formula.fields, ((s.get? path).getD .null).Alike ((t.get? path).getD .null)) :
    SameOutcome (formula.eval s) (formula.eval t) := by
  have hexpr := Expr.sameOutcome_eval h (over_of_read hread).1
  rw [eval, eval]
  generalize formula.expr.eval s = r at hexpr
  generalize formula.expr.eval t = r' at hexpr
  cases hexpr with
  | error e => exact .error e
  | value alike =>
    cases alike with
    | zeros left right => exact sameOutcome_ofFinite (.inr ⟨left, right⟩)
    | same v => exact .refl _
    | arrays items => exact .value (.arrays items)
    | objects entries => exact .value (.objects entries)

end Formula

theorem Calculation.sameOutcome_eval_compile (c : Calculation) {s t : Snapshot}
    (h : ∀ path ∈ c.dependsOn, ((s.get? path).getD .null).Alike ((t.get? path).getD .null)) :
    Formula.SameOutcome (c.compile.eval s) (c.compile.eval t) := by
  show Formula.SameOutcome (Formula.evalText c.formula c.dependsOn s)
    (Formula.evalText c.formula c.dependsOn t)
  rw [Formula.evalText, Formula.evalText]
  cases hread : Formula.read c.formula c.dependsOn with
  | error e => exact .error e
  | ok formula =>
    have hdeclared := (Formula.over_of_read hread).2.1
    exact Formula.sameOutcome_eval hread fun path hpath => h path (hdeclared hpath)

end FormLogic
