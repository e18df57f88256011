import FormLogic.Form.Pass
import FormLogic.Proofs.Formula.Names
import FormLogic.Proofs.Value.NaN

/-! What the value of a formula depends on: only the fields it lists. A formula makes no NaN of its
own either, neither at the top nor inside an array or object. -/

namespace FormLogic

namespace Formula

theorem Expr.eval_congr {names : List String} {s t : Snapshot}
    (h : ∀ path ∈ names, s.get? path = t.get? path) {e : Expr} (he : e.Over names) :
    e.eval s = e.eval t := by
  induction e with
  | literal v => rfl
  | field path => simp only [eval, h path he]
  | unary op operand ih => simp only [eval, ih he]
  | binary op left right ihl ihr => cases op <;> simp only [eval, ihl he.1, ihr he.2]
  | conditional condition yes no ihc ihy ihn =>
    simp only [eval, ihc he.1, ihy he.2.1, ihn he.2.2]
  | call f argument ih => simp only [eval, ih he]

theorem eval_congr {source : String} {declared : List String} {formula : Formula}
    (hread : read source declared = .ok formula) {s t : Snapshot}
    (h : ∀ path ∈ formula.fields, s.get? path = t.get? path) : formula.eval s = formula.eval t := by
  rw [Formula.eval, Formula.eval, Expr.eval_congr h (over_of_read hread).1]

section Results

variable {v w result : Value}

theorem isSingle_of_ofWhole {op : Operation} {n : Int} (h : ofWhole op n = .ok result) :
    result.isSingle = true := by
  unfold ofWhole at h
  split at h
  · exact Except.ok.inj h ▸ rfl
  · exact absurd h nofun

theorem eq_float_of_ofFinite {x : Binary64} (h : ofFinite x = .ok result) :
    x.isFinite = true ∧ result = .float x := by
  unfold ofFinite at h
  split at h
  · next hx => exact ⟨hx, (Except.ok.inj h).symm⟩
  · exact absurd h nofun

theorem isSingle_of_ofFinite {x : Binary64} (h : ofFinite x = .ok result) :
    result.isSingle = true := (eq_float_of_ofFinite h).2 ▸ rfl

theorem UnaryOp.isSingle_of_apply {op : UnaryOp} (h : op.apply v = .ok result) :
    result.isSingle = true := by
  unfold apply at h
  split at h
  · exact Except.ok.inj h ▸ rfl
  · exact isSingle_of_ofWhole h
  · exact isSingle_of_ofFinite h
  · exact absurd h nofun

theorem Arithmetic.isSingle_of_applyWhole {op : Arithmetic} {a b : Int}
    (h : op.applyWhole a b = .ok result) : result.isSingle = true := by
  unfold applyWhole at h
  split at h <;> (try split at h) <;> (try split at h) <;>
    first | exact isSingle_of_ofWhole h | exact isSingle_of_ofFinite h | exact absurd h nofun

theorem Arithmetic.isSingle_of_applyBinary64 {op : Arithmetic} {x y : Binary64}
    (h : op.applyBinary64 x y = .ok result) : result.isSingle = true := by
  unfold applyBinary64 at h
  split at h <;> (try split at h) <;>
    first | exact isSingle_of_ofFinite h | exact absurd h nofun

theorem Arithmetic.isSingle_of_apply {op : Arithmetic} (h : op.apply v w = .ok result) :
    result.isSingle = true := by
  unfold apply at h
  split at h
  · exact isSingle_of_applyWhole h
  · split at h
    · exact isSingle_of_applyBinary64 h
    · exact absurd h nofun

theorem OrderTest.isSingle_of_apply {test : OrderTest} (h : test.apply v w = .ok result) :
    result.isSingle = true := by
  unfold apply at h
  split at h
  · exact Except.ok.inj h ▸ rfl
  · split at h
    · exact Except.ok.inj h ▸ rfl
    · exact absurd h nofun

theorem BinaryOp.isSingle_of_apply {op : BinaryOp} (h : op.apply v w = .ok result) :
    result.isSingle = true := by
  cases op with
  | arithmetic op => exact Arithmetic.isSingle_of_apply h
  | order test => exact OrderTest.isSingle_of_apply h
  | equal | notEqual | and | or => exact Except.ok.inj h ▸ rfl

theorem Function.isSingle_applyFinite (f : Function) (negative : Bool)
    (rank : Fin Binary64.ranks) : (f.applyFinite negative rank).isSingle = true := by
  unfold applyFinite
  split
  case h_4 => rfl
  all_goals
    unfold wholeOr
    split <;> rfl

theorem Function.isSingle_of_apply {f : Function} (h : f.apply v = .ok result) :
    result.isSingle = true := by
  unfold apply at h
  split at h
  · split at h
    · exact isSingle_of_ofWhole h
    · exact Except.ok.inj h ▸ rfl
  · exact Except.ok.inj h ▸ f.isSingle_applyFinite _ _
  · exact absurd h nofun
  · exact absurd h nofun

end Results

/-- The field whose value an expression passes on as it is: of a conditional, the one that its branch
passes on. -/
def Expr.passed? (s : Snapshot) : Expr → Option String
  | .field path => some path
  | .conditional condition yes no =>
    match condition.eval s with
    | .ok v => if v.isTruthy then yes.passed? s else no.passed? s
    | .error _ => none
  | _ => none

theorem Expr.eval_of_passed? {names : List String} {s : Snapshot} {e : Expr} (he : e.Over names)
    {path : String} (h : e.passed? s = some path) :
    path ∈ names ∧ e.eval s = .ok ((s.get? path).getD .null) := by
  induction e with
  | field other =>
    obtain rfl := Option.some.inj h
    exact ⟨he, rfl⟩
  | conditional condition yes no ihc ihy ihn =>
    rw [passed?] at h
    split at h
    · next v hv =>
      rw [eval, hv]
      change path ∈ names ∧ (if v.isTruthy then yes.eval s else no.eval s) = _
      split at h
      · next htruthy => simpa only [if_pos htruthy] using ihy he.2.1 h
      · next hfalsy => simpa only [if_neg hfalsy] using ihn he.2.2 h
    · exact absurd h nofun
  | _ => exact absurd h nofun

theorem Expr.isSingle_of_passed?_eq_none {names : List String} {s : Snapshot} {e : Expr}
    (he : e.Over names) (hpassed : e.passed? s = none) {result : Value}
    (h : e.eval s = .ok result) : result.isSingle = true := by
  induction e with
  | literal v => exact Except.ok.inj h ▸ he
  | field path => exact absurd hpassed nofun
  | unary op operand ih =>
    simp only [eval, bind, Except.bind] at h
    split at h
    · exact absurd h nofun
    · exact UnaryOp.isSingle_of_apply h
  | binary op left right ihl ihr =>
    cases op with
    | and | or =>
      -- the right side is evaluated in one of two branches only
      simp only [eval, bind, Except.bind, pure, Except.pure] at h
      repeat' split at h
      all_goals first | exact Except.ok.inj h ▸ rfl | exact absurd h nofun
    | _ =>
      simp only [eval, bind, Except.bind] at h
      split at h
      · exact absurd h nofun
      · split at h
        · exact absurd h nofun
        · exact BinaryOp.isSingle_of_apply h
  | conditional condition yes no ihc ihy ihn =>
    simp only [eval, bind, Except.bind] at h
    rw [passed?] at hpassed
    split at h
    · exact absurd h nofun
    · next v hv =>
      rw [hv] at hpassed
      change (if v.isTruthy then yes.passed? s else no.passed? s) = none at hpassed
      split at h
      · next htruthy => exact ihy he.2.1 (by rwa [if_pos htruthy] at hpassed) h
      · next hfalsy => exact ihn he.2.2 (by rwa [if_neg hfalsy] at hpassed) h
  | call f argument ih =>
    simp only [eval, bind, Except.bind] at h
    split at h
    · exact absurd h nofun
    · exact Function.isSingle_of_apply h

section Results

variable {source : String} {declared : List String} {formula : Formula} {s : Snapshot}
  {result : Value}

theorem passed_of_isSingle_eq_false (hread : read source declared = .ok formula)
    (h : formula.eval s = .ok result) (hmany : result.isSingle = false) :
    ∃ path ∈ formula.fields, formula.expr.passed? s = some path ∧ s.get? path = some result := by
  have hexpr := (over_of_read hread).1
  unfold Formula.eval at h
  split at h
  · exact absurd ((isSingle_of_ofFinite h).symm.trans hmany) nofun
  · cases hpassed : formula.expr.passed? s with
    | none =>
      have hsingle := Expr.isSingle_of_passed?_eq_none hexpr hpassed h
      exact absurd (hsingle.symm.trans hmany) nofun
    | some path =>
      obtain ⟨hpath, heval⟩ := Expr.eval_of_passed? hexpr hpassed
      obtain rfl := Except.ok.inj (heval.symm.trans h)
      refine ⟨path, hpath, rfl, ?_⟩
      cases hget : s.get? path with
      | none =>
        rw [hget] at hmany
        exact absurd hmany nofun
      | some v => rfl

theorem passed_of_hasNaN (hread : read source declared = .ok formula)
    (h : formula.eval s = .ok result) (hnan : result.hasNaN = true) :
    result.isSingle = false ∧ ∃ path ∈ formula.fields,
      formula.expr.passed? s = some path ∧ s.get? path = some result := by
  have hmany : result.isSingle = false := by
    unfold Formula.eval at h
    split at h
    · obtain ⟨hx, rfl⟩ := eq_float_of_ofFinite h
      rw [Value.hasNaN] at hnan
      cases ‹Binary64› with
      | nan => exact absurd hx nofun
      | _ => exact absurd hnan nofun
    · next hfloat =>
      cases result with
      | array items => rfl
      | object entries => rfl
      | float x => exact absurd h (hfloat x)
      | _ => exact absurd hnan nofun
  exact ⟨hmany, passed_of_isSingle_eq_false hread h hmany⟩

theorem hasNaN_of_eval (hread : read source declared = .ok formula)
    (hs : ∀ path ∈ formula.fields, ∀ v, s.get? path = some v → v.hasNaN = false)
    (h : formula.eval s = .ok result) : result.hasNaN = false := by
  rw [← Bool.not_eq_true]
  intro hnan
  obtain ⟨-, path, hpath, -, hget⟩ := passed_of_hasNaN hread h hnan
  exact absurd ((hs path hpath result hget).symm.trans hnan) nofun

end Results

end Formula

/-! A calculated field depends on the fields it declares. -/

namespace Calculation

theorem eval_compile (c : Calculation) (s : Snapshot) :
    c.compile.eval s = Formula.evalText c.formula c.dependsOn s := rfl

theorem eval_compile_congr (c : Calculation) {s t : Snapshot}
    (h : ∀ path ∈ c.dependsOn, s.get? path = t.get? path) :
    c.compile.eval s = c.compile.eval t := by
  rw [eval_compile, eval_compile, Formula.evalText, Formula.evalText]
  cases hread : Formula.read c.formula c.dependsOn with
  | error e => rfl
  | ok formula =>
    have hdeclared := (Formula.over_of_read hread).2.1
    exact Formula.eval_congr hread fun path hpath => h path (hdeclared hpath)

theorem hasNaN_of_eval_compile (c : Calculation) {s : Snapshot} (hs : s.hasNaN = false)
    {v : Value} (h : c.compile.eval s = .ok v) : v.hasNaN = false := by
  rw [eval_compile, Formula.evalText] at h
  split at h
  · next hread => exact Formula.hasNaN_of_eval hread (fun _ _ _ => Snapshot.hasNaN_of_get? hs) h
  · exact absurd h nofun

end Calculation

end FormLogic
