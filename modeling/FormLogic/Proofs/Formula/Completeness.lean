import FormLogic.Proofs.Formula.Soundness

/-! The reader takes every text that the grammar derives, to the expression of the derivation,
unless it runs out of levels on the way; and it runs out of levels exactly where the derivation
nests deeper than it may. -/

namespace FormLogic.Formula

variable {declared : List String} {e : Expr} {frames : List Frame} {text rest : List Token}
  {level count : Nat}

theorem looser_of_wanted_le {bound : Nat} (h : wanted frames ≤ bound) (hbound : bound ≤ 6) :
    Looser bound frames := by
  rcases frames with _ | ⟨frame, frames⟩
  · trivial
  · cases frame with
    | unary op =>
      simp only [wanted] at h
      omega
    | binary left op count => exact Nat.le_of_succ_le h
    | _ => trivial

theorem complete_of_looser {bound : Nat} (h : Looser bound frames) (e : Expr) :
    complete bound e frames = (e, frames) := by
  rcases frames with _ | ⟨frame, frames⟩
  · rfl
  · cases frame with
    | unary op => exact h.elim
    | binary left op count => rw [complete, if_neg (Nat.not_lt_of_le h)]
    | _ => rfl

theorem completeAll_eq (h : wanted frames = 0) (e : Expr) :
    completeAll e frames = completeBranches e frames := by
  have hlooser : Looser 0 frames := looser_of_wanted_le (Nat.le_of_eq h) (by decide)
  rw [completeAll, complete_of_looser hlooser]

/-- Whatever comes next, the operand `last` inside `inner` is as good as a whole phrase of this
level, with so many operators, inside `frames`. -/
structure Settles (level count : Nat) (e : Expr) (frames : List Frame) (last : Expr)
    (inner : List Frame) : Prop where
  complete_eq : ∀ bound < level, complete bound last inner = complete bound e frames
  chainBefore_eq : ∀ op : BinaryOp, op.level = level →
    State.chainBefore op last inner = (e, count, frames)
  completeAll_eq : completeAll last inner = completeAll e frames

theorem Settles.of_complete_eq {last : Expr} {inner : List Frame}
    (h : ∀ bound < level, complete bound last inner = complete bound e frames)
    (hpos : 0 < level) (hchain : ∀ op : BinaryOp, op.level = level →
      State.chainBefore op last inner = (e, count, frames)) :
    Settles level count e frames last inner :=
  ⟨h, hchain, by rw [completeAll, completeAll, h 0 hpos]⟩

theorem settles_refl (h : 7 ≤ level) (e : Expr) (frames : List Frame) :
    Settles level count e frames e frames :=
  ⟨fun _ _ => rfl, fun op hop => absurd op.level_le (by omega), rfl⟩

theorem Settles.tighter {last : Expr} {inner : List Frame}
    (h : Settles (level + 1) count e frames last inner) (hwanted : wanted frames ≤ level) :
    Settles level 0 e frames last inner := by
  refine ⟨fun bound hbound => h.complete_eq bound (Nat.lt_succ_of_lt hbound), ?_, h.completeAll_eq⟩
  rintro op rfl
  have hlooser := looser_of_wanted_le hwanted op.level_le
  unfold State.chainBefore
  rw [h.complete_eq _ (Nat.lt_succ_self _), complete_of_looser hlooser]
  rcases frames with _ | ⟨frame, frames⟩
  · rfl
  · cases frame with
    | binary left before count =>
      have hne : before.level ≠ op.level := Nat.ne_of_lt hwanted
      simp only [if_neg hne]
    | _ => rfl

theorem Settles.unary {op : UnaryOp} {last : Expr} {inner : List Frame}
    (h : Settles 7 count e (.unary op :: frames) last inner) :
    Settles 7 0 (.unary op e) frames last inner := by
  refine .of_complete_eq (fun bound hbound => ?_) (by decide)
    fun op hop => absurd op.level_le (by omega)
  rw [h.complete_eq bound hbound, complete]

theorem Settles.binary {op : BinaryOp} {left right last : Expr} {before : Nat} {inner : List Frame}
    (h : Settles (op.level + 1) count right (.binary left op before :: frames) last inner) :
    Settles op.level before (.binary op left right) frames last inner := by
  refine .of_complete_eq (fun bound hbound => ?_) op.one_le_level fun next hnext => ?_
  · rw [h.complete_eq bound (Nat.lt_succ_of_lt hbound), complete, if_pos hbound]
  · unfold State.chainBefore
    rw [hnext, h.complete_eq _ (Nat.lt_succ_self _), complete, if_neg (Nat.lt_irrefl _)]
    simp only [if_true]

theorem Settles.noBranch {condition yes no last : Expr} {inner : List Frame}
    (h : Settles 0 count no (.noBranch condition yes :: frames) last inner)
    (hwanted : wanted frames = 0) :
    Settles 0 0 (.conditional condition yes no) frames last inner := by
  refine ⟨nofun, fun op hop => absurd op.one_le_level (by omega), ?_⟩
  rw [h.completeAll_eq, Formula.completeAll_eq rfl, Formula.completeAll_eq hwanted,
    completeBranches]

namespace State

variable {s t : State} {token : Token} {fields : List String} {goal : State → Prop} {deep : Prop}

/-- Over this text the reader gets to a state of this kind, or finds some token too deep if it may
be. -/
inductive Reaches (declared : List String) (deep : Prop) (goal : State → Prop) :
    State → List Token → Prop
  | done {s : State} (h : goal s) : Reaches declared deep goal s []
  | tooDeep {s : State} {token : Token} {rest : List Token} (hdeep : deep)
    (h : ∀ offset, s.step declared ⟨token, offset⟩ = .error (.malformed offset .tooDeep)) :
    Reaches declared deep goal s (token :: rest)
  | step {s t : State} {token : Token} {rest : List Token}
    (h : ∀ offset, s.step declared ⟨token, offset⟩ = .ok t)
    (more : Reaches declared deep goal t rest) : Reaches declared deep goal s (token :: rest)

theorem Reaches.append {next : State → Prop} (h : Reaches declared deep goal s text)
    (hnext : ∀ t, goal t → Reaches declared deep next t rest) :
    Reaches declared deep next s (text ++ rest) := by
  induction h with
  | done h => exact hnext _ h
  | tooDeep hdeep h => exact .tooDeep hdeep h
  | step h more ih => exact .step h ih

theorem Reaches.mono {next : State → Prop} (h : Reaches declared deep goal s text)
    (hnext : ∀ t, goal t → next t) : Reaches declared deep next s text := by
  rw [← List.append_nil text]
  exact h.append fun t ht => .done (hnext t ht)

theorem run_of_reaches {tokens : List (Located Token)}
    (h : Reaches declared deep goal s (tokens.map (·.item))) (stop : Nat) :
    (∃ t, goal t ∧ run declared stop s tokens = t.finish declared stop) ∨
      deep ∧ ∃ offset, run declared stop s tokens = .error (.malformed offset .tooDeep) := by
  generalize htext : tokens.map (·.item) = text at h
  induction h generalizing tokens with
  | @done s h =>
    obtain rfl := List.map_eq_nil_iff.1 htext
    exact .inl ⟨s, h, rfl⟩
  | tooDeep hdeep h =>
    obtain ⟨token, rest, rfl, rfl, rfl⟩ := List.map_eq_cons_iff.1 htext
    exact .inr ⟨hdeep, token.offset, by rw [run, h token.offset]⟩
  | step h more ih =>
    obtain ⟨token, rest, rfl, rfl, rfl⟩ := List.map_eq_cons_iff.1 htext
    rw [run, h token.offset]
    exact ih rfl

/-- The tokens after an operand, and the end of the text, find `e` inside these frames. Only an
open parenthesis may still turn a name into a call. -/
def Holds (declared : List String) (e : Expr) (frames : List Frame) (s : State) : Prop :=
  ∃ fields, (∀ token offset, token ≠ .openParen → s.step declared ⟨token, offset⟩ =
      stepOperator ⟨.operator e, frames, fields⟩ e ⟨token, offset⟩) ∧
    ∀ stop, s.finish declared stop = finishOperator ⟨.operator e, frames, fields⟩ e stop

theorem holds_operator (e : Expr) (frames : List Frame) (fields : List String) :
    Holds declared e frames ⟨.operator e, frames, fields⟩ := ⟨fields, fun _ _ _ => rfl, fun _ => rfl⟩

theorem holds_name {path : String} (h : path ∈ declared) (frames : List Frame)
    (fields : List String) : Holds declared (.field path) frames ⟨.name path, frames, fields⟩ := by
  have hresolve := (resolve_eq_ok_iff (s := ⟨.name path, frames, fields⟩)).2 ⟨h, rfl⟩
  refine ⟨noteName fields path, fun token offset htoken => ?_, fun stop => ?_⟩
  · simp only [State.step, hresolve]
  · simp only [finish, hresolve]

def After (declared : List String) (level count : Nat) (e : Expr) (frames : List Frame)
    (s : State) : Prop :=
  ∃ last inner, Settles level count e frames last inner ∧ Holds declared last inner s

theorem Holds.after (h : Holds declared e frames s) : After declared 8 0 e frames s :=
  ⟨e, frames, settles_refl (by decide) e frames, h⟩

theorem After.tighter (h : After declared (level + 1) count e frames s)
    (hwanted : wanted frames ≤ level) : After declared level 0 e frames s := by
  obtain ⟨last, inner, hsettles, hholds⟩ := h
  exact ⟨last, inner, hsettles.tighter hwanted, hholds⟩

theorem reaches_operand (h : OperandStep frames fields token t)
    (hdeep : maxDepth < depth frames → deep)
    (more : depth frames ≤ maxDepth → Reaches declared deep goal t rest) :
    Reaches declared deep goal ⟨.operand, frames, fields⟩ (token :: rest) := by
  by_cases hdepth : maxDepth < depth frames
  · exact .tooDeep (hdeep hdepth) fun offset => if_pos hdepth
  · have hroom : depth frames ≤ maxDepth := Nat.le_of_not_lt hdepth
    exact .step (fun offset => h.eq_ok (s := ⟨.operand, frames, fields⟩) hroom) (more hroom)

theorem reaches_unary (op : UnaryOp) (hdeep : maxDepth < depth frames + 1 → deep)
    (more : Reaches declared deep goal ⟨.operand, .unary op :: frames, fields⟩ rest) :
    Reaches declared deep goal ⟨.operand, frames, fields⟩ (op.token :: rest) := by
  -- the operator needs one more level than an operand in its place
  by_cases hroom : depth frames < maxDepth
  · exact reaches_operand (.unary op hroom) (fun h => absurd h (Nat.not_lt_of_lt hroom))
      fun _ => more
  · refine .tooDeep (hdeep (Nat.lt_succ_of_le (Nat.le_of_not_lt hroom))) fun offset => ?_
    by_cases hdepth : maxDepth < depth frames
    · exact if_pos hdepth
    · cases op <;> exact (if_neg hdepth).trans (if_pos (Nat.le_of_not_lt hroom))

theorem reaches_operator {last : Expr} {inner : List Frame} (hholds : Holds declared last inner s)
    (hother : token ≠ .openParen) {next : List String → State}
    (h : ∀ fields, OperatorStep last inner fields token (next fields))
    (more : ∀ fields, Reaches declared deep goal (next fields) rest) :
    Reaches declared deep goal s (token :: rest) := by
  obtain ⟨fields, hstep, -⟩ := hholds
  refine .step (fun offset => ?_) (more fields)
  rw [hstep token offset hother]
  exact (h fields).eq_ok

theorem reaches_binary {op : BinaryOp} {left : Expr}
    (h : After declared op.level count left frames s)
    (hdeep : maxDepth < depth frames + (count + 1) → deep)
    (more : ∀ fields,
      Reaches declared deep goal ⟨.operand, .binary left op (count + 1) :: frames, fields⟩ rest) :
    Reaches declared deep goal s (op.token :: rest) := by
  obtain ⟨last, inner, hsettles, hholds⟩ := h
  have hchain := hsettles.chainBefore_eq op rfl
  have hother : op.token ≠ .openParen := by
    rcases op with (_ | _ | _ | _ | _) | (_ | _ | _ | _) | _ | _ | _ | _ <;> exact nofun
  by_cases hroom : depth frames + count < maxDepth
  · exact reaches_operator hholds hother (fun fields => .binary hchain hroom) more
  · have hfull : maxDepth ≤ depth frames + count := Nat.le_of_not_lt hroom
    obtain ⟨fields, hstep, -⟩ := hholds
    refine .tooDeep (hdeep (Nat.lt_succ_of_le hfull)) fun offset => ?_
    rw [hstep _ offset hother]
    simp only [stepOperator, binaryOp?_token, stepBinary, hchain, if_pos hfull]

theorem reaches_question {condition : Expr} (h : After declared 1 count condition frames s)
    (hwanted : wanted frames = 0)
    (more : ∀ fields,
      Reaches declared deep goal ⟨.operand, .yesBranch condition :: frames, fields⟩ rest) :
    Reaches declared deep goal s (.question :: rest) := by
  obtain ⟨last, inner, hsettles, hholds⟩ := h
  have hlooser : Looser 0 frames := looser_of_wanted_le (Nat.le_of_eq hwanted) (by decide)
  have hwhole : complete 0 last inner = (condition, frames) :=
    (hsettles.complete_eq 0 Nat.one_pos).trans (complete_of_looser hlooser condition)
  exact reaches_operator hholds nofun (fun fields => .question hwhole) more

theorem reaches_colon {condition yes : Expr}
    (h : After declared 0 count yes (.yesBranch condition :: frames) s)
    (more : ∀ fields,
      Reaches declared deep goal ⟨.operand, .noBranch condition yes :: frames, fields⟩ rest) :
    Reaches declared deep goal s (.colon :: rest) := by
  obtain ⟨last, inner, hsettles, hholds⟩ := h
  exact reaches_operator hholds nofun (fun fields => .colon hsettles.completeAll_eq) more

theorem reaches_closeParen (h : After declared 0 count e (.paren :: frames) s) :
    Reaches declared deep (After declared 8 0 e frames) s [.closeParen] := by
  obtain ⟨last, inner, hsettles, hholds⟩ := h
  exact reaches_operator hholds nofun (fun fields => .closeParen hsettles.completeAll_eq)
    fun fields => .done (holds_operator e frames fields).after

theorem reaches_endOfCall {f : Function} (h : After declared 0 count e (.call f [] :: frames) s) :
    Reaches declared deep (After declared 8 0 (.call f e) frames) s [.closeParen] := by
  obtain ⟨last, inner, hsettles, hholds⟩ := h
  exact reaches_operator hholds nofun (fun fields => .endOfCall hsettles.completeAll_eq)
    fun fields => .done (holds_operator (.call f e) frames fields).after

theorem reaches_called {f : Function} (htoken : token ≠ .closeParen)
    (h : Reaches declared deep goal ⟨.operand, .call f [] :: frames, fields⟩ (token :: rest)) :
    Reaches declared deep goal ⟨.called f, frames, fields⟩ (token :: rest) := by
  have hsame : ∀ offset, State.step declared ⟨.called f, frames, fields⟩ ⟨token, offset⟩ =
      State.step declared ⟨.operand, .call f [] :: frames, fields⟩ ⟨token, offset⟩ := by
    intro offset
    simp only [State.step]
    rfl
  cases h with
  | tooDeep hdeep h => exact .tooDeep hdeep fun offset => (hsame offset).trans (h offset)
  | step h more => exact .step (fun offset => (hsame offset).trans (h offset)) more

def Nested (declared : List String) (level count : Nat) (e : Expr) (text : List Token)
    (frames : List Frame) (s : State) : Prop :=
  Nests declared maxDepth (depth frames) level count e text ∧ After declared level count e frames s

/-- Wherever a phrase of this level may stand, inside so many levels, the reader gets over this text
and has read the phrase, or the limit is more than there is. -/
def Crosses (declared : List String) (limit levels level count : Nat) (e : Expr)
    (text : List Token) : Prop :=
  ∀ frames fields, depth frames = levels → wanted frames ≤ level →
    Reaches declared (maxDepth < limit) (Nested declared level count e text frames)
      ⟨.operand, frames, fields⟩ text

theorem depth_cons (frame : Frame) (frames : List Frame) :
    depth (frame :: frames) = depth frames + frame.weight := Nat.add_comm ..

section

variable {limit levels : Nat}

theorem Crosses.tighter (h : Crosses declared limit levels (level + 1) count e text) :
    Crosses declared limit levels level 0 e text := by
  intro frames fields hlevels hwanted
  refine (h frames fields hlevels (Nat.le_succ_of_le hwanted)).mono ?_
  rintro t ⟨hnests, hafter⟩
  exact ⟨.tighter hnests, hafter.tighter hwanted⟩

theorem Crosses.conditional {condition yes no : Expr} {question first second : List Token}
    {asking choosing refusing : Nat}
    (hask : Crosses declared limit levels 1 asking condition question)
    (hyes : Crosses declared limit (levels + 1) 0 choosing yes first)
    (hno : Crosses declared limit (levels + 1) 0 refusing no second) :
    Crosses declared limit levels 0 0 (.conditional condition yes no)
      (question ++ .question :: (first ++ .colon :: second)) := by
  rintro frames fields rfl hwanted
  have hzero : wanted frames = 0 := Nat.le_zero.1 hwanted
  refine (hask _ _ rfl (Nat.le_succ_of_le hwanted)).append fun t ht =>
    reaches_question ht.2 hzero fun fields => ?_
  refine (hyes (.yesBranch condition :: frames) fields (depth_cons ..) (Nat.le_refl 0)).append
    fun u hu => reaches_colon hu.2 fun fields => ?_
  refine (hno (.noBranch condition yes :: frames) fields (depth_cons ..) (Nat.le_refl 0)).mono ?_
  rintro v ⟨hsecond, last, inner, hsettles, hholds⟩
  have hfirst := hu.1
  rw [depth_cons] at hfirst hsecond
  exact ⟨.conditional ht.1 hfirst hsecond, last, inner, hsettles.noBranch hzero, hholds⟩

theorem Crosses.binary {op : BinaryOp} {left right : Expr} {before : List Token} {own : Nat}
    (hchain : Crosses declared limit levels op.level count left before)
    (hoperand : Crosses declared limit (levels + (count + 1)) (op.level + 1) own right text)
    (hlimit : levels + (count + 1) ≤ limit) :
    Crosses declared limit levels op.level (count + 1) (.binary op left right)
      (before ++ op.token :: text) := by
  rintro frames fields rfl hwanted
  have hdeep : maxDepth < depth frames + (count + 1) → maxDepth < limit :=
    fun h => Nat.lt_of_lt_of_le h hlimit
  refine (hchain _ _ rfl hwanted).append fun t ht => reaches_binary ht.2 hdeep fun fields => ?_
  refine (hoperand (.binary left op (count + 1) :: frames) fields (depth_cons ..)
    (Nat.le_refl _)).mono ?_
  rintro u ⟨hnests, last, inner, hsettles, hholds⟩
  rw [depth_cons] at hnests
  exact ⟨.binary op ht.1 hnests, last, inner, hsettles.binary, hholds⟩

theorem Crosses.unary {op : UnaryOp} (h : Crosses declared limit (levels + 1) 7 count e text)
    (hlimit : levels + 1 ≤ limit) :
    Crosses declared limit levels 7 0 (.unary op e) (op.token :: text) := by
  rintro frames fields rfl -
  have hdeep : maxDepth < depth frames + 1 → maxDepth < limit :=
    fun h => Nat.lt_of_lt_of_le h hlimit
  refine reaches_unary op hdeep
    ((h (.unary op :: frames) fields (depth_cons ..) (Nat.le_refl 7)).mono ?_)
  rintro u ⟨hoperand, last, inner, hsettles, hholds⟩
  rw [depth_cons] at hoperand
  exact ⟨.unary op hoperand, last, inner, hsettles.unary, hholds⟩

theorem crosses_leaf (hlimit : levels ≤ limit)
    (h : ∀ frames fields, ∃ t, OperandStep frames fields token t ∧ Holds declared e frames t)
    (hnests : levels ≤ maxDepth → Nests declared maxDepth levels 8 0 e [token]) :
    Crosses declared limit levels 8 0 e [token] := by
  rintro frames fields rfl -
  obtain ⟨t, hstep, hholds⟩ := h frames fields
  exact reaches_operand hstep (fun hdeep => Nat.lt_of_lt_of_le hdeep hlimit)
    fun hroom => .done ⟨hnests hroom, hholds.after⟩

theorem crosses_literal {v : Value} (hlimit : levels ≤ limit)
    (h : ∀ frames fields,
      OperandStep frames fields token ⟨.operator (.literal v), frames, fields⟩)
    (hnests : levels ≤ maxDepth → Nests declared maxDepth levels 8 0 (.literal v) [token]) :
    Crosses declared limit levels 8 0 (.literal v) [token] :=
  crosses_leaf hlimit (fun frames fields => ⟨_, h frames fields, holds_operator ..⟩) hnests

theorem Crosses.call {f : Function} (hinside : Derives declared 0 e text)
    (h : Crosses declared limit (levels + 1) 0 count e text) (hlimit : levels ≤ limit) :
    Crosses declared limit levels 8 0 (.call f e)
      (.name f.name :: .openParen :: (text ++ [.closeParen])) := by
  rintro frames fields rfl -
  obtain ⟨token, rest, htext, htoken⟩ := hinside.exists_cons
  have hargument : Reaches declared (maxDepth < limit)
      (Nested declared 8 0 (.call f e)
        (.name f.name :: .openParen :: (text ++ [.closeParen])) frames)
      ⟨.operand, .call f [] :: frames, fields⟩ (text ++ [.closeParen]) := by
    refine (h (.call f [] :: frames) fields (depth_cons ..) (Nat.le_refl 0)).append fun t ht =>
      (reaches_endOfCall ht.2).mono fun u hu => ?_
    have hnests := ht.1
    rw [depth_cons] at hnests
    exact ⟨.call f hnests, hu⟩
  have hopen : ∀ offset, State.step declared ⟨.name f.name, frames, fields⟩ ⟨.openParen, offset⟩ =
      .ok ⟨.called f, frames, fields⟩ := by
    intro offset
    simp only [State.step, Function.ofName?_name]
  rw [htext, List.cons_append] at hargument ⊢
  exact reaches_operand (.name f.name) (fun hdeep => Nat.lt_of_lt_of_le hdeep hlimit)
    fun _ => .step hopen (reaches_called htoken hargument)

theorem Crosses.parentheses (h : Crosses declared limit (levels + 1) 0 count e text)
    (hlimit : levels ≤ limit) :
    Crosses declared limit levels 8 0 e (.openParen :: (text ++ [.closeParen])) := by
  rintro frames fields rfl -
  refine reaches_operand .openParen (fun hdeep => Nat.lt_of_lt_of_le hdeep hlimit) fun _ =>
    (h (.paren :: frames) fields (depth_cons ..) (Nat.le_refl 0)).append fun t ht =>
      (reaches_closeParen ht.2).mono fun u hu => ?_
  have hnests := ht.1
  rw [depth_cons] at hnests
  exact ⟨.parentheses hnests, hu⟩

theorem crosses_of_nests (h : Nests declared limit levels level count e text) :
    Crosses declared limit levels level count e text := by
  induction h with
  | tighter _ ih => exact ih.tighter
  | conditional _ _ _ ihAsk ihYes ihNo => exact ihAsk.conditional ihYes ihNo
  | binary op chain operand ihChain ihOperand => exact ihChain.binary ihOperand operand.depth_le
  | unary op operand ih => exact ih.unary operand.depth_le
  | int room n => exact crosses_literal room (fun _ _ => .int n) fun room => .int room n
  | float room x => exact crosses_literal room (fun _ _ => .float x) fun room => .float room x
  | string room s => exact crosses_literal room (fun _ _ => .string s) fun room => .string room s
  | bool room b => exact crosses_literal room (fun _ _ => .bool b) fun room => .bool room b
  | null room => exact crosses_literal room (fun _ _ => .null) fun room => .null room
  | field room known =>
    exact crosses_leaf room (fun _ _ => ⟨_, .name _, holds_name known ..⟩)
      fun room => .field room known
  | call f inside ih => exact ih.call inside.derives (Nat.le_of_succ_le inside.depth_le)
  | parentheses inside ih => exact ih.parentheses (Nat.le_of_succ_le inside.depth_le)

end

end State

variable {scan : Scan Token}

theorem readTokens_of_nests {limit : Nat}
    (h : Nests declared limit 1 0 count e (scan.lexemes.map (·.item))) :
    (Nests declared maxDepth 1 0 count e (scan.lexemes.map (·.item)) ∧
        ∃ fields, readTokens declared scan = .ok (e, fields)) ∨
      maxDepth < limit ∧ ∃ offset, readTokens declared scan = .error (.malformed offset .tooDeep) := by
  have hreaches : State.Reaches declared _ (State.Nested declared 0 count e _ []) .start _ :=
    State.crosses_of_nests h [] [] rfl (Nat.le_refl 0)
  rcases State.run_of_reaches hreaches scan.stop with ⟨t, ⟨hnests, ht⟩, hrun⟩ | hdeep
  · obtain ⟨last, inner, hsettles, fields, -, hfinish⟩ := ht
    refine .inl ⟨hnests, fields, ?_⟩
    rw [readTokens, hrun, hfinish]
    exact State.finishOperator_eq_ok_iff.2 ⟨hsettles.completeAll_eq, rfl⟩
  · exact .inr hdeep

theorem readTokens_of_writes (h : Writes declared (scan.lexemes.map (·.item)) e) :
    (∃ fields, readTokens declared scan = .ok (e, fields)) ∨
      ∃ offset, readTokens declared scan = .error (.malformed offset .tooDeep) := by
  obtain ⟨limit, count, hnests⟩ := h.exists_nests 1
  exact (readTokens_of_nests hnests).imp And.right And.right

theorem readTokens_eq_ok_iff_nests :
    (∃ fields, readTokens declared scan = .ok (e, fields)) ↔
      ∃ count, Nests declared maxDepth 1 0 count e (scan.lexemes.map (·.item)) := by
  constructor
  · rintro ⟨fields, hread⟩
    obtain ⟨limit, count, hnests⟩ := (writes_of_readTokens hread).exists_nests 1
    rcases readTokens_of_nests hnests with ⟨hwithin, -⟩ | ⟨-, offset, hdeep⟩
    · exact ⟨count, hwithin⟩
    · exact nomatch hread.symm.trans hdeep
  · rintro ⟨count, hnests⟩
    rcases readTokens_of_nests hnests with ⟨-, hread⟩ | ⟨hdeep, -⟩
    · exact hread
    · exact absurd hdeep (Nat.lt_irrefl _)

end FormLogic.Formula
