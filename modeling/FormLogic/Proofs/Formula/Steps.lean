import FormLogic.Proofs.Formula.Grammar

/-! The steps with which the reader goes on, one by one, and the runs that they make up. What holds
of every text that is accepted is proved along these runs, without the functions behind them. -/

namespace FormLogic.Formula

def noteName (names : List String) (name : String) : List String :=
  if names.contains name then names else names ++ [name]

namespace State

inductive OperandStep (frames : List Frame) (fields : List String) : Token → State → Prop
  | int (n : Int64) :
    OperandStep frames fields (.int n) ⟨.operator (.literal (.int n)), frames, fields⟩
  | float (x : Binary64) :
    OperandStep frames fields (.float x) ⟨.operator (.literal (.float x)), frames, fields⟩
  | string (v : String) :
    OperandStep frames fields (.string v) ⟨.operator (.literal (.string v)), frames, fields⟩
  | bool (b : Bool) :
    OperandStep frames fields (.bool b) ⟨.operator (.literal (.bool b)), frames, fields⟩
  | null : OperandStep frames fields .null ⟨.operator (.literal .null), frames, fields⟩
  | name (path : String) : OperandStep frames fields (.name path) ⟨.name path, frames, fields⟩
  | openParen : OperandStep frames fields .openParen ⟨.operand, .paren :: frames, fields⟩
  | unary (op : UnaryOp) (room : depth frames < maxDepth) :
    OperandStep frames fields op.token ⟨.operand, .unary op :: frames, fields⟩

inductive OperatorStep (e : Expr) (frames : List Frame) (fields : List String) :
    Token → State → Prop
  | binary {op : BinaryOp} {left : Expr} {count : Nat} {outer : List Frame}
    (chain : chainBefore op e frames = (left, count, outer))
    (room : depth outer + count < maxDepth) :
    OperatorStep e frames fields op.token ⟨.operand, .binary left op (count + 1) :: outer, fields⟩
  | question {condition : Expr} {outer : List Frame}
    (whole : complete 0 e frames = (condition, outer)) :
    OperatorStep e frames fields .question ⟨.operand, .yesBranch condition :: outer, fields⟩
  | colon {condition yes : Expr} {outer : List Frame}
    (whole : completeAll e frames = (yes, .yesBranch condition :: outer)) :
    OperatorStep e frames fields .colon ⟨.operand, .noBranch condition yes :: outer, fields⟩
  | comma {f : Function} {earlier : List Expr} {argument : Expr} {outer : List Frame}
    (whole : completeAll e frames = (argument, .call f earlier :: outer)) :
    OperatorStep e frames fields .comma
      ⟨.operand, .call f (earlier ++ [argument]) :: outer, fields⟩
  | closeParen {inner : Expr} {outer : List Frame}
    (whole : completeAll e frames = (inner, .paren :: outer)) :
    OperatorStep e frames fields .closeParen ⟨.operator inner, outer, fields⟩
  | endOfCall {f : Function} {argument : Expr} {outer : List Frame}
    (whole : completeAll e frames = (argument, .call f [] :: outer)) :
    OperatorStep e frames fields .closeParen ⟨.operator (.call f argument), outer, fields⟩

inductive Step (declared : List String) : State → Token → State → Prop
  | operand {frames : List Frame} {fields : List String} {token : Token} {t : State}
    (room : depth frames ≤ maxDepth) (step : OperandStep frames fields token t) :
    Step declared ⟨.operand, frames, fields⟩ token t
  | operator {e : Expr} {frames : List Frame} {fields : List String} {token : Token} {t : State}
    (step : OperatorStep e frames fields token t) :
    Step declared ⟨.operator e, frames, fields⟩ token t
  | function (f : Function) (frames : List Frame) (fields : List String) :
    Step declared ⟨.name f.name, frames, fields⟩ .openParen ⟨.called f, frames, fields⟩
  | field {path : String} {frames : List Frame} {fields : List String} {token : Token} {t : State}
    (known : path ∈ declared) (other : token ≠ .openParen)
    (step : OperatorStep (.field path) frames (noteName fields path) token t) :
    Step declared ⟨.name path, frames, fields⟩ token t
  | argument {f : Function} {frames : List Frame} {fields : List String} {token : Token} {t : State}
    (other : token ≠ .closeParen) (room : depth (.call f [] :: frames) ≤ maxDepth)
    (step : OperandStep (.call f [] :: frames) fields token t) :
    Step declared ⟨.called f, frames, fields⟩ token t

inductive Finish (declared : List String) : State → Expr → List String → Prop
  | operator {e result : Expr} {frames : List Frame} {fields : List String}
    (whole : completeAll e frames = (result, [])) :
    Finish declared ⟨.operator e, frames, fields⟩ result fields
  | field {path : String} {result : Expr} {frames : List Frame} {fields : List String}
    (known : path ∈ declared) (whole : completeAll (.field path) frames = (result, [])) :
    Finish declared ⟨.name path, frames, fields⟩ result (noteName fields path)

inductive Run (declared : List String) (e : Expr) (fields : List String) :
    State → List Token → Prop
  | finish {s : State} (ends : Finish declared s e fields) : Run declared e fields s []
  | step {s t : State} {token : Token} {rest : List Token} (first : Step declared s token t)
    (more : Run declared e fields t rest) : Run declared e fields s (token :: rest)

variable {declared fields : List String} {s t : State} {token : Located Token} {e : Expr}
  {path : String}

theorem stepUnary_eq_ok_iff {op : UnaryOp} {offset : Nat} :
    s.stepUnary op offset = .ok t ↔
      depth s.frames < maxDepth ∧ t = ⟨.operand, .unary op :: s.frames, s.fields⟩ := by
  unfold stepUnary
  split
  · next hfull => exact ⟨nofun, fun h => absurd h.1 (Nat.not_lt_of_le hfull)⟩
  · next hroom =>
    exact ⟨fun h => ⟨Nat.lt_of_not_le hroom, (Except.ok.inj h).symm⟩, fun h => h.2 ▸ rfl⟩

theorem OperandStep.of_eq_ok (h : s.stepOperand token = .ok t) :
    depth s.frames ≤ maxDepth ∧ OperandStep s.frames s.fields token.item t := by
  obtain ⟨item, offset⟩ := token
  unfold stepOperand at h
  split at h
  · cases h
  · next hroom =>
    refine ⟨Nat.le_of_not_lt hroom, ?_⟩
    cases item with
    | bang =>
      obtain ⟨hlt, rfl⟩ := stepUnary_eq_ok_iff.1 h
      exact .unary .not hlt
    | minus =>
      obtain ⟨hlt, rfl⟩ := stepUnary_eq_ok_iff.1 h
      exact .unary .neg hlt
    | int _ | float _ | string _ | bool _ | null | name _ | openParen =>
      cases h
      constructor
    | _ => cases h

theorem OperandStep.eq_ok {item : Token} {offset : Nat} (room : depth s.frames ≤ maxDepth)
    (h : OperandStep s.frames s.fields item t) : s.stepOperand ⟨item, offset⟩ = .ok t := by
  have hroom : ¬ maxDepth < depth s.frames := Nat.not_lt_of_le room
  cases h with
  | unary op hlt =>
    have hunary : s.stepUnary op offset = .ok _ := stepUnary_eq_ok_iff.2 ⟨hlt, rfl⟩
    cases op <;> exact (if_neg hroom).trans hunary
  | _ => exact if_neg hroom

theorem OperatorStep.of_eq_ok (h : s.stepOperator e token = .ok t) :
    OperatorStep e s.frames s.fields token.item t := by
  unfold stepOperator at h
  split at h
  · next op hop =>
    rw [eq_token_of_binaryOp? hop]
    unfold stepBinary at h
    dsimp only at h
    split at h
    · cases h
    · next hroom =>
      cases h
      exact .binary rfl (Nat.lt_of_not_le hroom)
  · split at h
    case h_1 hitem =>
      cases h
      rw [hitem]
      exact .question rfl
    case h_2 hitem whole =>
      cases h
      rw [hitem]
      exact .colon whole
    case h_3 hitem whole =>
      cases h
      rw [hitem]
      exact .comma whole
    case h_4 hitem whole =>
      cases h
      rw [hitem]
      exact .closeParen whole
    case h_5 hitem whole =>
      cases h
      rw [hitem]
      exact .endOfCall whole
    all_goals cases h

theorem OperatorStep.eq_ok {item : Token} {offset : Nat}
    (h : OperatorStep e s.frames s.fields item t) : s.stepOperator e ⟨item, offset⟩ = .ok t := by
  unfold stepOperator
  cases h with
  | binary chain room =>
    simp only [binaryOp?_token, stepBinary, chain, if_neg (Nat.not_le_of_lt room)]
  | question whole => simp only [binaryOp?, whole]
  | colon whole | comma whole | closeParen whole | endOfCall whole => simp only [binaryOp?, whole]

theorem resolve_eq_ok_iff :
    s.resolve declared path = .ok t ↔
      path ∈ declared ∧ t = ⟨.operator (.field path), s.frames, noteName s.fields path⟩ := by
  unfold resolve
  split
  · next hknown =>
    have hmem : path ∈ declared := List.contains_iff_mem.1 hknown
    exact ⟨fun h => ⟨hmem, (Except.ok.inj h).symm⟩, fun h => h.2 ▸ rfl⟩
  · next hunknown =>
    exact ⟨nofun, fun h => absurd (List.contains_iff_mem.2 h.1) hunknown⟩

theorem Step.of_eq_ok (h : s.step declared token = .ok t) : Step declared s token.item t := by
  obtain ⟨stage, frames, fields⟩ := s
  cases stage with
  | operand =>
    obtain ⟨room, hstep⟩ := OperandStep.of_eq_ok h
    exact .operand room hstep
  | operator e => exact .operator (OperatorStep.of_eq_ok h)
  | name path =>
    simp only [State.step] at h
    split at h
    · next hitem =>
      split at h
      · next f hf =>
        cases h
        rw [hitem, Function.eq_name_of_ofName? hf]
        exact .function f frames fields
      · cases h
    · next hother =>
      split at h
      · next resolved hresolve =>
        obtain ⟨known, rfl⟩ := resolve_eq_ok_iff.1 hresolve
        exact .field known hother (OperatorStep.of_eq_ok h)
      · cases h
  | called f =>
    simp only [State.step] at h
    split at h
    · cases h
    · next hother =>
      obtain ⟨room, hstep⟩ := OperandStep.of_eq_ok h
      exact .argument hother room hstep

theorem Step.eq_ok {item : Token} {offset : Nat} (h : Step declared s item t) :
    s.step declared ⟨item, offset⟩ = .ok t := by
  cases h with
  | operand room step => exact step.eq_ok room
  | operator step => exact step.eq_ok
  | function f frames fields => simp only [State.step, Function.ofName?_name]
  | @field path frames fields _ _ known other step =>
    have hresolve : State.resolve declared ⟨.name path, frames, fields⟩ path =
        .ok ⟨.operator (.field path), frames, noteName fields path⟩ :=
      resolve_eq_ok_iff.2 ⟨known, rfl⟩
    simp only [State.step, hresolve]
    exact step.eq_ok
  | @argument f frames fields _ _ other room step =>
    simp only [State.step]
    exact OperandStep.eq_ok (s := ⟨.operand, .call f [] :: frames, fields⟩) room step

theorem finishOperator_eq_ok_iff {operand : Expr} {stop : Nat} :
    s.finishOperator operand stop = .ok (e, fields) ↔
      completeAll operand s.frames = (e, []) ∧ s.fields = fields := by
  unfold finishOperator
  split
  · next whole =>
    rw [whole]
    simp
  · next hopen whole =>
    refine ⟨nofun, fun h => ?_⟩
    have hnone := congrArg Prod.snd (whole.symm.trans h.1)
    exact absurd hnone hopen

theorem Finish.of_eq_ok {stop : Nat} (h : s.finish declared stop = .ok (e, fields)) :
    Finish declared s e fields := by
  obtain ⟨stage, frames, listed⟩ := s
  cases stage with
  | operand => cases h
  | called f => cases h
  | operator operand =>
    obtain ⟨whole, rfl⟩ := finishOperator_eq_ok_iff.1 h
    exact .operator whole
  | name path =>
    simp only [State.finish] at h
    split at h
    · next resolved hresolve =>
      obtain ⟨known, rfl⟩ := resolve_eq_ok_iff.1 hresolve
      obtain ⟨whole, rfl⟩ := finishOperator_eq_ok_iff.1 h
      exact .field known whole
    · cases h

theorem Finish.eq_ok {stop : Nat} (h : Finish declared s e fields) :
    s.finish declared stop = .ok (e, fields) := by
  cases h with
  | operator whole => exact finishOperator_eq_ok_iff.2 ⟨whole, rfl⟩
  | @field path _ frames listed known whole =>
    have hresolve : State.resolve declared ⟨.name path, frames, listed⟩ path =
        .ok ⟨.operator (.field path), frames, noteName listed path⟩ :=
      resolve_eq_ok_iff.2 ⟨known, rfl⟩
    simp only [State.finish, hresolve]
    exact finishOperator_eq_ok_iff.2 ⟨whole, rfl⟩

theorem Run.of_eq_ok {stop : Nat} {tokens : List (Located Token)}
    (h : State.run declared stop s tokens = .ok (e, fields)) :
    Run declared e fields s (tokens.map (·.item)) := by
  induction tokens generalizing s with
  | nil => exact .finish (Finish.of_eq_ok h)
  | cons token rest ih =>
    rw [State.run] at h
    split at h
    · next t hstep => exact .step (Step.of_eq_ok hstep) (ih h)
    · cases h

theorem Run.eq_ok {stop : Nat} {tokens : List (Located Token)}
    (h : Run declared e fields s (tokens.map (·.item))) :
    State.run declared stop s tokens = .ok (e, fields) := by
  induction tokens generalizing s with
  | nil =>
    cases h with
    | finish ends => exact ends.eq_ok
  | cons token rest ih =>
    cases h with
    | step first more =>
      have hstep : s.step declared token = .ok _ := first.eq_ok
      rw [State.run, hstep]
      exact ih more

end State

end FormLogic.Formula
