import FormLogic.Proofs.Formula.Alike
import FormLogic.Proofs.Formula.Course

/-! Evaluation with whole numbers of any size, beside evaluation with 64-bit ones. Both perform the
same operations at the same places, up to the first whole result without a 64-bit form; there the
64-bit evaluation stops with an overflow. So its whole numbers never wrap. -/

namespace FormLogic.Formula

/-- A whole number of any size, or a value that is none. -/
inductive Exact
  | whole (n : Int)
  | other (v : Value)

namespace Exact

def ofValue : Value → Exact
  | .int n => .whole n.toInt
  | v => .other v

def kind : Exact → Kind
  | .whole _ => .number
  | .other v => v.kind

def isTruthy : Exact → Bool
  | .whole n => n != 0
  | .other v => v.isTruthy

def toBinary64? : Exact → Option Binary64
  | .whole n => some (.ofInt n)
  | .other v => v.toBinary64?

def compareNumbers? : Exact → Exact → Option Ordering
  | .whole a, .whole b => some (compare a b)
  | .whole a, .other (.float y) => y.compareInt? a
  | .other (.float x), .whole b => (x.compareInt? b).map Ordering.swap
  | .other v, .other w => v.compareNumbers? w
  | _, _ => none

def agrees : Exact → Exact → Bool
  | .other v, .other w => v.agrees w
  | x, y => x.compareNumbers? y == some .eq

end Exact

/-! The operations, with the whole result whatever its size. -/

def UnaryOp.applyExact : UnaryOp → Exact → Except Error Exact
  | .not, x => .ok (.other (.bool !x.isTruthy))
  | .neg, .whole n => .ok (.whole (-n))
  | .neg, .other v => (UnaryOp.neg.apply v).map .ofValue

def Arithmetic.applyExactWhole (op : Arithmetic) (a b : Int) : Except Error Exact :=
  match op with
  | .add => .ok (.whole (a + b))
  | .sub => .ok (.whole (a - b))
  | .mul => .ok (.whole (a * b))
  | .div =>
    if b = 0 then .error .divisionByZero
    else if a.tmod b = 0 then .ok (.whole (a.tdiv b))
    else (ofFinite ((Binary64.ofInt a).div (.ofInt b))).map .ofValue
  | .rem => if b = 0 then .error .divisionByZero else .ok (.whole (a.tmod b))

def Arithmetic.applyExact (op : Arithmetic) : Exact → Exact → Except Error Exact
  | .whole a, .whole b => op.applyExactWhole a b
  | x, y =>
    match x.toBinary64?, y.toBinary64? with
    | some a, some b => (op.applyBinary64 a b).map .ofValue
    | _, _ => .error (.operands (.arithmetic op) x.kind y.kind)

def OrderTest.applyExact (test : OrderTest) : Exact → Exact → Except Error Exact
  | .other (.string a), .other (.string b) => .ok (.other (.bool (test.holds (compare a b))))
  | x, y =>
    if x.kind == .number && y.kind == .number then
      .ok (.other (.bool ((x.compareNumbers? y).any test.holds)))
    else .error (.operands (.order test) x.kind y.kind)

def BinaryOp.applyExact (op : BinaryOp) (x y : Exact) : Except Error Exact :=
  match op with
  | .arithmetic op => op.applyExact x y
  | .order test => test.applyExact x y
  | .equal => .ok (.other (.bool (x.agrees y)))
  | .notEqual => .ok (.other (.bool !x.agrees y))
  | .and => .ok (.other (.bool (x.isTruthy && y.isTruthy)))
  | .or => .ok (.other (.bool (x.isTruthy || y.isTruthy)))

def Function.applyExact (f : Function) : Exact → Except Error Exact
  | .whole n =>
    match f with
    | .abs => .ok (.whole n.natAbs)
    | _ => .ok (.whole n)
  | .other v => (f.apply v).map .ofValue

namespace Application

def applyExact : Application Exact → Except Error Exact
  | .unary op x => op.applyExact x
  | .binary op x y => op.applyExact x y
  | .call f x => f.applyExact x

def toExact : Application Value → Application Exact
  | .unary op v => .unary op (.ofValue v)
  | .binary op v w => .binary op (.ofValue v) (.ofValue w)
  | .call f v => .call f (.ofValue v)

/-- The whole result is outside the 64-bit range, or it is the remainder of the least 64-bit number
by -1, whose quotient is outside. -/
def Exceeds (a : Application Exact) : Prop :=
  (∃ n, a.applyExact = .ok (.whole n) ∧
    ¬ (-9223372036854775808 ≤ n ∧ n < 9223372036854775808)) ∨
  a = .binary (.arithmetic .rem) (.whole (-9223372036854775808)) (.whole (-1))

end Application

def Performed.toExact (p : Performed Value) : Performed Exact := ⟨p.place, p.application.toExact⟩

def Domain.unbounded : Domain Exact := ⟨.ofValue, Exact.isTruthy, Application.applyExact⟩

def evalUnbounded (formula : Formula) (s : Snapshot) : Except Error Exact :=
  match (formula.expr.course .unbounded s).outcome with
  | .ok (.other (.float x)) => (ofFinite x).map .ofValue
  | outcome => outcome

namespace Exact

variable (v w : Value)

theorem kind_ofValue : (ofValue v).kind = v.kind := by cases v <;> rfl

theorem isTruthy_ofValue : (ofValue v).isTruthy = v.isTruthy := by
  cases v with
  | int n =>
    change (n.toInt != 0) = (n != 0)
    rw [Bool.eq_iff_iff, bne_iff_ne, bne_iff_ne, ne_eq, ne_eq, ← Int64.toInt_inj]
    rfl
  | _ => rfl

theorem toBinary64?_ofValue : (ofValue v).toBinary64? = v.toBinary64? := by cases v <;> rfl

theorem agrees_ofValue : (ofValue v).agrees (ofValue w) = v.agrees w := by
  cases v <;> cases w <;> rfl

end Exact

def Error.isOverflow : Error → Bool
  | .overflow _ => true
  | _ => false

/-- The 64-bit outcome `r` of an operation and the outcome `x` of the same operation `a` without
bound: the same, or an overflow of a result that is too large. -/
inductive Keeps (a : Application Exact) : Except Error Value → Except Error Exact → Prop
  | value (v : Value) : Keeps a (.ok v) (.ok (.ofValue v))
  | error {e : Error} (other : e.isOverflow = false) : Keeps a (.error e) (.error e)
  | overflow (op : Operation) (x : Except Error Exact) (exceeds : a.Exceeds) :
    Keeps a (.error (.overflow op)) x

section Operations

variable {a : Application Exact} {r : Except Error Value}

theorem keeps_map (h : ∀ e, r = .error e → e.isOverflow = false) : Keeps a r (r.map .ofValue) := by
  cases r with
  | ok v => exact .value v
  | error e => exact .error (h e rfl)

theorem keeps_ofWhole (op : Operation) {n : Int} (ha : a.applyExact = .ok (.whole n)) :
    Keeps a (ofWhole op n) (.ok (.whole n)) := by
  unfold ofWhole
  split
  · next i hi =>
    rw [← Value.toInt_of_int64? hi]
    exact .value (.int i)
  · next hnone =>
    refine .overflow op _ (.inl ⟨n, ha, fun hrange => ?_⟩)
    rw [Value.int64?, if_pos hrange] at hnone
    cases hnone

theorem isOverflow_of_ofFinite {x : Binary64} {e : Error} (h : ofFinite x = .error e) :
    e.isOverflow = false := by
  unfold ofFinite at h
  split at h
  · cases h
  · cases h
    rfl

theorem Arithmetic.isOverflow_of_applyBinary64 {op : Arithmetic} {x y : Binary64} {e : Error}
    (h : op.applyBinary64 x y = .error e) : e.isOverflow = false := by
  cases op with
  | add | sub | mul => exact isOverflow_of_ofFinite h
  | div | rem =>
    rw [applyBinary64] at h
    split at h
    · cases h
      rfl
    · exact isOverflow_of_ofFinite h

theorem UnaryOp.keeps_apply (op : UnaryOp) (v : Value) :
    Keeps (.unary op (.ofValue v)) (op.apply v) (op.applyExact (.ofValue v)) := by
  cases op with
  | not =>
    rw [apply, applyExact, Exact.isTruthy_ofValue]
    exact .value (.bool _)
  | neg =>
    cases v with
    | int n => exact keeps_ofWhole .negation rfl
    | float x => exact keeps_map fun _ => isOverflow_of_ofFinite
    | _ => exact .error rfl

theorem eq_of_int64?_tdiv {m n : Int64} (hn : n.toInt ≠ 0)
    (h : Value.int64? (m.toInt.tdiv n.toInt) = none) :
    m.toInt = -9223372036854775808 ∧ n.toInt = -1 := by
  have hm := m.le_toInt
  have hm' := m.toInt_lt
  have hrange : ¬ (-9223372036854775808 ≤ m.toInt.tdiv n.toInt ∧
      m.toInt.tdiv n.toInt < 9223372036854775808) := by
    intro hrange
    rw [Value.int64?, if_pos hrange] at h
    cases h
  have hsize : (m.toInt.tdiv n.toInt).natAbs = m.toInt.natAbs / n.toInt.natAbs :=
    Int.natAbs_tdiv ..
  by_cases hone : n.toInt.natAbs = 1
  · obtain hpos | hneg : n.toInt = 1 ∨ n.toInt = -1 := by omega
    · rw [hpos, Int.tdiv_one] at hrange
      omega
    · rw [hneg, Int.tdiv_neg, Int.tdiv_one] at hrange
      omega
  · have hhalf : m.toInt.natAbs / n.toInt.natAbs ≤ m.toInt.natAbs / 2 :=
      Nat.div_le_div_left (by omega) (by decide)
    omega

theorem Arithmetic.keeps_applyWhole (op : Arithmetic) (m n : Int64) :
    Keeps (.binary (.arithmetic op) (.whole m.toInt) (.whole n.toInt))
      (op.applyWhole m.toInt n.toInt) (op.applyExactWhole m.toInt n.toInt) := by
  cases op with
  | add | sub | mul => exact keeps_ofWhole _ rfl
  | div =>
    rw [applyWhole, applyExactWhole]
    split
    · exact .error rfl
    · next hn =>
      split
      · next hexact =>
        refine keeps_ofWhole _ ?_
        change (if n.toInt = 0 then _ else _) = _
        rw [if_neg hn, if_pos hexact]
      · exact keeps_map fun _ => isOverflow_of_ofFinite
  | rem =>
    rw [applyWhole, applyExactWhole]
    split
    · exact .error rfl
    · next hn =>
      split
      · refine keeps_ofWhole _ ?_
        change (if n.toInt = 0 then _ else _) = _
        rw [if_neg hn]
      · next hquotient =>
        obtain ⟨hm, hn⟩ := eq_of_int64?_tdiv hn hquotient
        exact .overflow _ _ (.inr (by rw [hm, hn]))

theorem Exact.exists_of_ofValue_eq_whole {v : Value} {a : Int} (h : ofValue v = .whole a) :
    ∃ m, v = .int m := by
  cases v with
  | int m => exact ⟨m, rfl⟩
  | _ => cases h

theorem Arithmetic.applyExact_eq (op : Arithmetic) {x y : Exact}
    (h : ∀ a b, x = .whole a → y ≠ .whole b) :
    op.applyExact x y = match x.toBinary64?, y.toBinary64? with
      | some a, some b => (op.applyBinary64 a b).map .ofValue
      | _, _ => .error (.operands (.arithmetic op) x.kind y.kind) := by
  unfold applyExact
  split
  · exact absurd rfl (h _ _ rfl)
  · rfl

theorem Arithmetic.keeps_apply (op : Arithmetic) (v w : Value) :
    Keeps (.binary (.arithmetic op) (.ofValue v) (.ofValue w)) (op.apply v w)
      (op.applyExact (.ofValue v) (.ofValue w)) := by
  by_cases hwhole : ∃ m n, v = .int m ∧ w = .int n
  · obtain ⟨m, n, rfl, rfl⟩ := hwhole
    exact op.keeps_applyWhole m n
  · have hbounded : ∀ m n, v = .int m → w ≠ .int n := fun m n hv hw => hwhole ⟨m, n, hv, hw⟩
    have hexact : ∀ a b, Exact.ofValue v = .whole a → Exact.ofValue w ≠ .whole b := by
      intro a b hv hw
      obtain ⟨m, rfl⟩ := Exact.exists_of_ofValue_eq_whole hv
      obtain ⟨n, rfl⟩ := Exact.exists_of_ofValue_eq_whole hw
      exact hbounded m n rfl rfl
    rw [op.apply_eq hbounded, op.applyExact_eq hexact, Exact.toBinary64?_ofValue,
      Exact.toBinary64?_ofValue, Exact.kind_ofValue, Exact.kind_ofValue]
    cases v.toBinary64? with
    | none => exact .error rfl
    | some a =>
      cases w.toBinary64? with
      | none => exact .error rfl
      | some b => exact keeps_map fun _ => isOverflow_of_applyBinary64

theorem OrderTest.applyExact_ofValue (test : OrderTest) (v w : Value) :
    test.applyExact (.ofValue v) (.ofValue w) = (test.apply v w).map .ofValue := by
  cases v <;> cases w <;> rfl

theorem OrderTest.isOverflow_of_apply {test : OrderTest} {v w : Value} {e : Error}
    (h : test.apply v w = .error e) : e.isOverflow = false := by
  unfold apply at h
  split at h
  · cases h
  · split at h
    · cases h
    · cases h
      rfl

theorem OrderTest.keeps_apply (test : OrderTest) (v w : Value) :
    Keeps a (test.apply v w) (test.applyExact (.ofValue v) (.ofValue w)) := by
  rw [applyExact_ofValue]
  exact keeps_map fun _ => isOverflow_of_apply

theorem BinaryOp.keeps_apply (op : BinaryOp) (v w : Value) :
    Keeps (.binary op (.ofValue v) (.ofValue w)) (op.apply v w)
      (op.applyExact (.ofValue v) (.ofValue w)) := by
  cases op with
  | arithmetic op => exact op.keeps_apply v w
  | order test => exact test.keeps_apply v w
  | equal | notEqual =>
    rw [apply, applyExact, Exact.agrees_ofValue]
    exact .value (.bool _)
  | and | or =>
    rw [apply, applyExact, Exact.isTruthy_ofValue, Exact.isTruthy_ofValue]
    exact .value (.bool _)

theorem Function.isOverflow_of_apply {f : Function} {v : Value} {e : Error}
    (h : f.apply v = .error e) (hv : Exact.ofValue v = .other v) : e.isOverflow = false := by
  unfold apply at h
  split at h
  · cases hv
  · cases h
  · cases h
    rfl
  · cases h
    rfl

theorem Function.keeps_apply (f : Function) (v : Value) :
    Keeps (.call f (.ofValue v)) (f.apply v) (f.applyExact (.ofValue v)) := by
  cases v with
  | int n =>
    cases f with
    | abs =>
      rw [apply]
      exact keeps_ofWhole (.function .abs) rfl
    | round | floor | ceil => exact .value (.int n)
  | _ => exact keeps_map fun e h => isOverflow_of_apply h rfl

theorem Application.keeps_apply (a : Application Value) :
    Keeps a.toExact a.apply a.toExact.applyExact := by
  cases a with
  | unary op v => exact op.keeps_apply v
  | binary op v w => exact op.keeps_apply v w
  | call f v => exact f.keeps_apply v

end Operations

/-- The 64-bit course and the one without bound: the same operations and outcome, or an overflow at
the last operation of the first course, which the other course performs as well. -/
inductive Follows : Course Value → Course Exact → Prop
  | value (steps : List (Performed Value)) (v : Value) :
    Follows ⟨steps, .ok v⟩ ⟨steps.map .toExact, .ok (.ofValue v)⟩
  | error (steps : List (Performed Value)) {e : Error} (other : e.isOverflow = false) :
    Follows ⟨steps, .error e⟩ ⟨steps.map .toExact, .error e⟩
  | overflow (done : List (Performed Value)) {last : Performed Value} {op : Operation}
    {c : Course Exact} (fails : last.application.apply = .error (.overflow op))
    (exceeds : last.application.toExact.Exceeds)
    (same : (done ++ [last]).map .toExact <+: c.performed) :
    Follows ⟨done ++ [last], .error (.overflow op)⟩ c

namespace Follows

variable {c : Course Value} {x : Course Exact}

theorem after (done : List (Performed Value)) (h : Follows c x) :
    Follows (c.after done) (x.after (done.map .toExact)) := by
  cases h with
  | value steps v =>
    rw [Course.after, Course.after, ← List.map_append]
    exact .value _ v
  | error steps other =>
    rw [Course.after, Course.after, ← List.map_append]
    exact .error _ other
  | overflow steps fails exceeds same =>
    rw [Course.after, ← List.append_assoc]
    refine .overflow _ fails exceeds ?_
    rw [List.append_assoc, List.map_append]
    exact (List.prefix_append_right_inj _).2 same

theorem performed_isPrefix_andThen (x : Course Exact) (next : Exact → Course Exact) :
    x.performed <+: (x.andThen next).performed := by
  unfold Course.andThen
  split
  · exact List.prefix_append _ _
  · exact List.prefix_rfl

theorem andThen {next : Value → Course Value} {nextExact : Exact → Course Exact}
    (h : Follows c x) (hnext : ∀ v, Follows (next v) (nextExact (.ofValue v))) :
    Follows (c.andThen next) (x.andThen nextExact) := by
  cases h with
  | value steps v => exact (hnext v).after steps
  | error steps other => exact .error steps other
  | overflow done fails exceeds same =>
    exact .overflow done fails exceeds (same.trans (performed_isPrefix_andThen x nextExact))

theorem ofOperand (number : Nat) (h : Follows c x) :
    Follows (c.ofOperand number) (x.ofOperand number) := by
  have hplace : ∀ steps : List (Performed Value),
      (steps.map .toExact).map (Performed.ofOperand number) =
        (steps.map (Performed.ofOperand number)).map .toExact := by
    intro steps
    rw [List.map_map, List.map_map]
    rfl
  cases h with
  | value steps v =>
    rw [Course.ofOperand, Course.ofOperand, hplace]
    exact .value _ v
  | error steps other =>
    rw [Course.ofOperand, Course.ofOperand, hplace]
    exact .error _ other
  | overflow done fails exceeds same =>
    rw [Course.ofOperand, List.map_append]
    refine .overflow _ fails exceeds ?_
    have hmap := same.map (Performed.ofOperand number)
    rwa [hplace, List.map_append] at hmap

theorem perform (a : Application Value) :
    Follows (Domain.bounded.perform a) (Domain.unbounded.perform a.toExact) := by
  have hkeeps := a.keeps_apply
  change Follows ⟨[⟨[], a⟩], a.apply⟩ ⟨[⟨[], a.toExact⟩], a.toExact.applyExact⟩
  generalize hr : a.apply = r at hkeeps
  generalize hx : a.toExact.applyExact = x at hkeeps
  cases hkeeps with
  | value v => exact .value [⟨[], a⟩] v
  | error other => exact .error [⟨[], a⟩] other
  | overflow op x exceeds => exact .overflow [] hr exceeds List.prefix_rfl

variable {op : Operation} {e : Error}

theorem outcome_of_ok {v : Value} (h : Follows c x) (hc : c.outcome = .ok v) :
    x.outcome = .ok (.ofValue v) := by
  cases h with
  | value steps w =>
    obtain rfl := Except.ok.inj hc
    rfl
  | error steps other => cases hc
  | overflow done fails exceeds same => cases hc

theorem outcome_of_error (h : Follows c x) (hc : c.outcome = .error e)
    (he : e.isOverflow = false) : x.outcome = .error e := by
  cases h with
  | value steps w => cases hc
  | error steps other =>
    obtain rfl := Except.error.inj hc
    rfl
  | overflow done fails exceeds same =>
    obtain rfl := Except.error.inj hc
    cases he

theorem exists_of_overflow (h : Follows c x) (hc : c.outcome = .error (.overflow op)) :
    ∃ done last, c.performed = done ++ [last] ∧
      last.application.apply = .error (.overflow op) ∧ last.application.toExact.Exceeds ∧
      (done ++ [last]).map .toExact <+: x.performed := by
  cases h with
  | value steps w => cases hc
  | error steps other =>
    obtain rfl := Except.error.inj hc
    cases other
  | @overflow done last other x fails exceeds same =>
    obtain rfl := Error.overflow.inj (Except.error.inj hc)
    exact ⟨done, last, rfl, fails, exceeds, same⟩

end Follows

theorem Expr.follows_course (s : Snapshot) (e : Expr) :
    Follows (e.course .bounded s) (e.course .unbounded s) := by
  induction e with
  | literal v => exact .value [] v
  | field path => exact .value [] _
  | unary op operand ih => exact (ih.ofOperand 0).andThen fun v => .perform (.unary op v)
  | binary op left right ihl ihr =>
    have htruth : ∀ v, Follows (.value (Domain.bounded.ofBool v.isTruthy))
        (.value (Domain.unbounded.ofBool (Exact.ofValue v).isTruthy)) := by
      intro v
      rw [Exact.isTruthy_ofValue]
      exact .value [] (.bool v.isTruthy)
    by_cases hand : op = .and
    · subst hand
      refine (ihl.ofOperand 0).andThen fun v => ?_
      change Follows (if v.isTruthy then _ else _) (if (Exact.ofValue v).isTruthy then _ else _)
      rw [Exact.isTruthy_ofValue]
      split
      · exact (ihr.ofOperand 1).andThen htruth
      · exact .value [] (.bool false)
    by_cases hor : op = .or
    · subst hor
      refine (ihl.ofOperand 0).andThen fun v => ?_
      change Follows (if v.isTruthy then _ else _) (if (Exact.ofValue v).isTruthy then _ else _)
      rw [Exact.isTruthy_ofValue]
      split
      · exact .value [] (.bool true)
      · exact (ihr.ofOperand 1).andThen htruth
    rw [course_binary hand hor, course_binary hand hor]
    exact (ihl.ofOperand 0).andThen fun v => (ihr.ofOperand 1).andThen fun w =>
      .perform (.binary op v w)
  | conditional condition yes no ihc ihy ihn =>
    refine (ihc.ofOperand 0).andThen fun v => ?_
    change Follows (if v.isTruthy then _ else _) (if (Exact.ofValue v).isTruthy then _ else _)
    rw [Exact.isTruthy_ofValue]
    split
    · exact ihy.ofOperand 1
    · exact ihn.ofOperand 2
  | call f argument ih => exact (ih.ofOperand 0).andThen fun v => .perform (.call f v)

/-- The 64-bit evaluation of `e` stops with an overflow at the operation `last`. The evaluation
without bound performs the same operations at the same places up to there, and this one, too; its
whole result is the first that is too large. -/
structure OverflowsAt (e : Expr) (s : Snapshot) (op : Operation) (last : Performed Value) :
    Prop where
  part : ∃ part, e.at? last.place = some part ∧ part.eval s = .error (.overflow op)
  fails : last.application.apply = .error (.overflow op)
  exceeds : last.application.toExact.Exceeds
  same : ∃ done, (e.course .bounded s).performed = done ++ [last] ∧
    (done ++ [last]).map .toExact <+: (e.course .unbounded s).performed

theorem exists_overflowsAt {e : Expr} {s : Snapshot} {op : Operation}
    (h : e.eval s = .error (.overflow op)) : ∃ last, OverflowsAt e s op last := by
  obtain ⟨done, last, hdone, hfails, hexceeds, hsame⟩ :=
    (e.follows_course s).exists_of_overflow ((e.outcome_course_bounded s).trans h)
  have hlast : last ∈ (e.course .bounded s).performed := by simp [hdone]
  obtain ⟨part, hpart, happlies⟩ := e.places_course last hlast
  have heval : part.eval s = .error (.overflow op) := by
    rw [← Expr.outcome_course_bounded, Expr.outcome_of_applies happlies]
    exact hfails
  exact ⟨last, ⟨part, hpart, heval⟩, hfails, hexceeds, done, hdone, hsame⟩

theorem evalUnbounded_of_ok {formula : Formula} {s : Snapshot} {v : Value}
    (h : formula.expr.eval s = .ok v) :
    formula.evalUnbounded s = (formula.eval s).map .ofValue := by
  have hbounded := (formula.expr.outcome_course_bounded s).trans h
  rw [evalUnbounded, eval, h, (formula.expr.follows_course s).outcome_of_ok hbounded]
  cases v <;> rfl

theorem evalUnbounded_of_error {formula : Formula} {s : Snapshot} {e : Error}
    (h : formula.expr.eval s = .error e) (he : e.isOverflow = false) :
    formula.evalUnbounded s = .error e := by
  have hbounded := (formula.expr.outcome_course_bounded s).trans h
  rw [evalUnbounded, (formula.expr.follows_course s).outcome_of_error hbounded he]

/-- The value of a formula is the one over whole numbers of any size, and so is every error but an
overflow. An overflow stands where a whole result is too large. -/
theorem eval_never_wraps (formula : Formula) (s : Snapshot) :
    (∀ v, formula.eval s = .ok v → formula.evalUnbounded s = .ok (.ofValue v)) ∧
    (∀ op, formula.eval s = .error (.overflow op) → ∃ last, OverflowsAt formula.expr s op last) ∧
    (∀ e, formula.eval s = .error e → e.isOverflow = false →
      formula.evalUnbounded s = .error e) := by
  cases hr : formula.expr.eval s with
  | ok v =>
    have hmap := evalUnbounded_of_ok hr
    refine ⟨fun w hw => ?_, fun op hop => ?_, fun e he _ => ?_⟩
    · rw [hmap, hw]
      rfl
    · rw [eval, hr] at hop
      split at hop
      · exact absurd (isOverflow_of_ofFinite hop) Bool.noConfusion
      · cases hop
    · rw [hmap, he]
      rfl
  | error e =>
    have heval : formula.eval s = .error e := by rw [eval, hr]
    rw [heval]
    refine ⟨fun v hv => ?_, fun op hop => ?_, fun other hother ho => ?_⟩
    · cases hv
    · obtain rfl := Except.error.inj hop
      exact exists_overflowsAt hr
    · obtain rfl := Except.error.inj hother
      exact evalUnbounded_of_error hr ho

def spanFormula : Formula :=
  ⟨"last - first", .binary (.arithmetic .sub) (.field "last") (.field "first"), ["last", "first"]⟩

theorem eval_span :
    let s : Snapshot := ⟨[("first", .int (-5)), ("last", .int 7)]⟩
    let t : Snapshot := ⟨[("first", .int (-9223372036854775807)), ("last", .int 1)]⟩
    spanFormula.evalUnbounded s = .ok (.whole 12) ∧
      spanFormula.eval t = .error (.overflow (.arithmetic .sub)) ∧
      (∃ last, OverflowsAt spanFormula.expr t (.arithmetic .sub) last) ∧
      spanFormula.evalUnbounded t = .ok (.whole 9223372036854775808) := by
  intro s t
  exact ⟨(eval_never_wraps spanFormula s).1 (.int 12) rfl, rfl,
    (eval_never_wraps spanFormula t).2.1 (.arithmetic .sub) rfl, rfl⟩

end FormLogic.Formula
