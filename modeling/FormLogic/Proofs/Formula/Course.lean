import FormLogic.Formula

/-! The course of an evaluation: the operations that are performed, one after the other, and how it
ends. It is defined for values of any kind; over the values of fields it ends as evaluation does. -/

namespace FormLogic.Formula

variable {α : Type}

inductive Application (α : Type)
  | unary (op : UnaryOp) (v : α)
  | binary (op : BinaryOp) (v w : α)
  | call (f : Function) (v : α)

/-- An operation at a place in an expression: from the whole expression the numbers lead, each to
one of the operands, to the part that performs it. -/
structure Performed (α : Type) where
  place : List Nat
  application : Application α

def Performed.ofOperand (number : Nat) (p : Performed α) : Performed α :=
  ⟨number :: p.place, p.application⟩

structure Course (α : Type) where
  performed : List (Performed α)
  outcome : Except Error α

namespace Course

def value (v : α) : Course α := ⟨[], .ok v⟩

def ofOperand (number : Nat) (c : Course α) : Course α :=
  ⟨c.performed.map (.ofOperand number), c.outcome⟩

def after (done : List (Performed α)) (c : Course α) : Course α :=
  ⟨done ++ c.performed, c.outcome⟩

def andThen (c : Course α) (next : α → Course α) : Course α :=
  match c.outcome with
  | .ok v => (next v).after c.performed
  | .error e => ⟨c.performed, .error e⟩

end Course

/-- What an expression computes with: its values, which of them count as true, and what becomes of
an operation. -/
structure Domain (α : Type) where
  ofValue : Value → α
  isTruthy : α → Bool
  apply : Application α → Except Error α

namespace Domain

def ofBool (d : Domain α) (b : Bool) : α := d.ofValue (.bool b)

def perform (d : Domain α) (a : Application α) : Course α := ⟨[⟨[], a⟩], d.apply a⟩

end Domain

def Expr.course (d : Domain α) (s : Snapshot) : Expr → Course α
  | .literal v => .value (d.ofValue v)
  | .field path => .value (d.ofValue ((s.get? path).getD .null))
  | .unary op operand =>
    ((operand.course d s).ofOperand 0).andThen fun v => d.perform (.unary op v)
  | .binary .and left right =>
    ((left.course d s).ofOperand 0).andThen fun v =>
      if d.isTruthy v then
        ((right.course d s).ofOperand 1).andThen fun w => .value (d.ofBool (d.isTruthy w))
      else .value (d.ofBool false)
  | .binary .or left right =>
    ((left.course d s).ofOperand 0).andThen fun v =>
      if d.isTruthy v then .value (d.ofBool true)
      else ((right.course d s).ofOperand 1).andThen fun w => .value (d.ofBool (d.isTruthy w))
  | .binary op left right =>
    ((left.course d s).ofOperand 0).andThen fun v =>
      ((right.course d s).ofOperand 1).andThen fun w => d.perform (.binary op v w)
  | .conditional condition yes no =>
    ((condition.course d s).ofOperand 0).andThen fun v =>
      if d.isTruthy v then (yes.course d s).ofOperand 1 else (no.course d s).ofOperand 2
  | .call f argument =>
    ((argument.course d s).ofOperand 0).andThen fun v => d.perform (.call f v)

def Expr.operands : Expr → List Expr
  | .literal _ | .field _ => []
  | .unary _ operand => [operand]
  | .binary _ left right => [left, right]
  | .conditional condition yes no => [condition, yes, no]
  | .call _ argument => [argument]

def Expr.at? : List Nat → Expr → Option Expr
  | [], e => some e
  | number :: place, e => e.operands[number]?.bind (at? place)

/-- The expression is an operator or function whose operands have these values. It is not `&&` or
`||`, which take no more of their operands than their truth. -/
inductive Expr.Applies (d : Domain α) (s : Snapshot) : Expr → Application α → Prop
  | unary (op : UnaryOp) {operand : Expr} {v : α} (value : (operand.course d s).outcome = .ok v) :
    Applies d s (.unary op operand) (.unary op v)
  | binary {op : BinaryOp} (notAnd : op ≠ .and) (notOr : op ≠ .or) {left right : Expr} {v w : α}
    (leftValue : (left.course d s).outcome = .ok v)
    (rightValue : (right.course d s).outcome = .ok w) :
    Applies d s (.binary op left right) (.binary op v w)
  | call (f : Function) {argument : Expr} {v : α} (value : (argument.course d s).outcome = .ok v) :
    Applies d s (.call f argument) (.call f v)

namespace Course

theorem outcome_ofOperand (number : Nat) (c : Course α) :
    (c.ofOperand number).outcome = c.outcome := rfl

theorem outcome_andThen (c : Course α) (next : α → Course α) :
    (c.andThen next).outcome = c.outcome >>= fun v => (next v).outcome := by
  unfold andThen
  cases c.outcome <;> rfl

end Course

namespace Expr

variable {d : Domain α} {s : Snapshot} {e operand : Expr} {number : Nat}

theorem course_binary {op : BinaryOp} (hand : op ≠ .and) (hor : op ≠ .or) (left right : Expr) :
    (binary op left right).course d s = ((left.course d s).ofOperand 0).andThen fun v =>
      ((right.course d s).ofOperand 1).andThen fun w => d.perform (.binary op v w) := by
  cases op with
  | and => exact absurd rfl hand
  | or => exact absurd rfl hor
  | _ => rfl

/-- Where the operations of the course are placed in `e`, there `e` has parts that apply them. -/
def Places (d : Domain α) (s : Snapshot) (e : Expr) (c : Course α) : Prop :=
  ∀ p ∈ c.performed, ∃ part, e.at? p.place = some part ∧ part.Applies d s p.application

theorem places_value (v : α) : e.Places d s (.value v) := List.forall_mem_nil _

theorem places_perform {a : Application α} (ha : e.Applies d s a) :
    e.Places d s (d.perform a) := by
  intro p hp
  obtain rfl := List.mem_singleton.1 hp
  exact ⟨e, rfl, ha⟩

theorem places_ofOperand {c : Course α} (hoperand : e.operands[number]? = some operand)
    (hc : operand.Places d s c) : e.Places d s (c.ofOperand number) := by
  intro p hp
  obtain ⟨q, hq, rfl⟩ := List.mem_map.1 hp
  obtain ⟨part, hpart, happlies⟩ := hc q hq
  refine ⟨part, ?_, happlies⟩
  change e.operands[number]?.bind (at? q.place) = some part
  rw [hoperand, Option.bind_some, hpart]

theorem Places.andThen {c : Course α} {next : α → Course α} (hc : e.Places d s c)
    (hnext : ∀ v, c.outcome = .ok v → e.Places d s (next v)) :
    e.Places d s (c.andThen next) := by
  unfold Course.andThen
  split
  · next v hv => exact List.forall_mem_append.2 ⟨hc, hnext v hv⟩
  · exact hc

theorem places_course (e : Expr) : e.Places d s (e.course d s) := by
  induction e with
  | literal v => exact places_value _
  | field path => exact places_value _
  | unary op operand ih =>
    exact (places_ofOperand rfl ih).andThen fun v hv => places_perform (.unary op hv)
  | binary op left right ihl ihr =>
    have hleft : (binary op left right).Places d s ((left.course d s).ofOperand 0) :=
      places_ofOperand rfl ihl
    have hright : (binary op left right).Places d s ((right.course d s).ofOperand 1) :=
      places_ofOperand rfl ihr
    by_cases hand : op = .and
    · subst hand
      refine hleft.andThen fun v _ => ?_
      split
      · exact hright.andThen fun w _ => places_value _
      · exact places_value _
    by_cases hor : op = .or
    · subst hor
      refine hleft.andThen fun v _ => ?_
      split
      · exact places_value _
      · exact hright.andThen fun w _ => places_value _
    rw [course_binary hand hor]
    exact hleft.andThen fun v hv => hright.andThen fun w hw =>
      places_perform (.binary hand hor hv hw)
  | conditional condition yes no ihc ihy ihn =>
    refine (places_ofOperand rfl ihc).andThen fun v _ => ?_
    split
    · exact places_ofOperand rfl ihy
    · exact places_ofOperand rfl ihn
  | call f argument ih =>
    exact (places_ofOperand rfl ih).andThen fun v hv => places_perform (.call f hv)

theorem outcome_of_applies {a : Application α} (h : e.Applies d s a) :
    (e.course d s).outcome = d.apply a := by
  cases h with
  | unary op value =>
    rw [course, Course.outcome_andThen, Course.outcome_ofOperand, value]
    rfl
  | binary notAnd notOr leftValue rightValue =>
    rw [course_binary notAnd notOr, Course.outcome_andThen, Course.outcome_ofOperand, leftValue]
    change (Course.andThen _ _).outcome = _
    rw [Course.outcome_andThen, Course.outcome_ofOperand, rightValue]
    rfl
  | call f value =>
    rw [course, Course.outcome_andThen, Course.outcome_ofOperand, value]
    rfl

end Expr

/-! Over the values of fields. -/

def Application.apply : Application Value → Except Error Value
  | .unary op v => op.apply v
  | .binary op v w => op.apply v w
  | .call f v => f.apply v

def Domain.bounded : Domain Value := ⟨id, Value.isTruthy, Application.apply⟩

theorem Expr.eval_binary {op : BinaryOp} (hand : op ≠ .and) (hor : op ≠ .or) (s : Snapshot)
    (left right : Expr) : (binary op left right).eval s =
      left.eval s >>= fun v => right.eval s >>= fun w => op.apply v w := by
  cases op with
  | and => exact absurd rfl hand
  | or => exact absurd rfl hor
  | _ => rfl

theorem Expr.outcome_course_bounded (s : Snapshot) (e : Expr) :
    (e.course .bounded s).outcome = e.eval s := by
  induction e with
  | literal v => rfl
  | field path => rfl
  | unary op operand ih =>
    rw [course, Course.outcome_andThen, Course.outcome_ofOperand, ih, eval]
    rfl
  | binary op left right ihl ihr =>
    by_cases hand : op = .and
    · subst hand
      rw [course, Course.outcome_andThen, Course.outcome_ofOperand, ihl, eval]
      congr 1
      funext v
      change (if v.isTruthy then _ else _ : Course Value).outcome = _
      split
      · rw [Course.outcome_andThen, Course.outcome_ofOperand, ihr]
        rfl
      · rfl
    by_cases hor : op = .or
    · subst hor
      rw [course, Course.outcome_andThen, Course.outcome_ofOperand, ihl, eval]
      congr 1
      funext v
      change (if v.isTruthy then _ else _ : Course Value).outcome = _
      split
      · rfl
      · rw [Course.outcome_andThen, Course.outcome_ofOperand, ihr]
        rfl
    rw [course_binary hand hor, Course.outcome_andThen, Course.outcome_ofOperand, ihl,
      eval_binary hand hor]
    congr 1
    funext v
    rw [Course.outcome_andThen, Course.outcome_ofOperand, ihr]
    rfl
  | conditional condition yes no ihc ihy ihn =>
    rw [course, Course.outcome_andThen, Course.outcome_ofOperand, ihc, eval]
    congr 1
    funext v
    change (if v.isTruthy then _ else _ : Course Value).outcome = _
    split
    · exact ihy
    · exact ihn
  | call f argument ih =>
    rw [course, Course.outcome_andThen, Course.outcome_ofOperand, ih, eval]
    rfl

end FormLogic.Formula
