import FormLogic.Proofs.Formula.Steps

/-! The reader accepts no text but those that the grammar derives. At every token, what has been
read is accounted for by the frames that are open and by the operand at hand. -/

namespace FormLogic.Formula

/-- How tightly an operand inside these frames has to bind. -/
def wanted : List Frame → Nat
  | .unary _ :: _ => 7
  | .binary _ op _ :: _ => op.level + 1
  | _ => 0

variable {declared : List String} {e : Expr} {frames : List Frame} {before own text : List Token}
  {level : Nat}

theorem wanted_le (frames : List Frame) : wanted frames ≤ 7 := by
  rcases frames with _ | ⟨frame, frames⟩
  · exact Nat.zero_le _
  · cases frame with
    | binary left op count => exact Nat.succ_le_succ op.level_le
    | _ => simp [wanted]

def Looser (bound : Nat) : List Frame → Prop
  | .unary _ :: _ => False
  | .binary _ op _ :: _ => op.level ≤ bound
  | _ => True

/-- What has been read before the operand inside the frames. -/
inductive Enclosed (declared : List String) : List Frame → List Token → Prop
  | nothing : Enclosed declared [] []
  | unary {frames : List Frame} {before : List Token} (op : UnaryOp)
    (around : Enclosed declared frames before) :
    Enclosed declared (.unary op :: frames) (before ++ [op.token])
  | binary {frames : List Frame} {before text : List Token} {left : Expr} {count : Nat}
    (op : BinaryOp) (around : Enclosed declared frames before)
    (chain : Derives declared op.level left text) (hwanted : wanted frames ≤ op.level) :
    Enclosed declared (.binary left op count :: frames) (before ++ (text ++ [op.token]))
  | paren {frames : List Frame} {before : List Token} (around : Enclosed declared frames before) :
    Enclosed declared (.paren :: frames) (before ++ [.openParen])
  | call {frames : List Frame} {before : List Token} (f : Function)
    (around : Enclosed declared frames before) :
    Enclosed declared (.call f [] :: frames) (before ++ [.name f.name, .openParen])
  /-- A call of more than one argument is never completed. -/
  | calls {frames : List Frame} {text : List Token} {f : Function} {earlier : List Expr}
    (h : earlier ≠ []) : Enclosed declared (.call f earlier :: frames) text
  | yesBranch {frames : List Frame} {before text : List Token} {condition : Expr}
    (around : Enclosed declared frames before) (ask : Derives declared 1 condition text)
    (hwanted : wanted frames = 0) :
    Enclosed declared (.yesBranch condition :: frames) (before ++ (text ++ [.question]))
  | noBranch {frames : List Frame} {before text first : List Token} {condition yes : Expr}
    (around : Enclosed declared frames before) (ask : Derives declared 1 condition text)
    (ifYes : Derives declared 0 yes first) (hwanted : wanted frames = 0) :
    Enclosed declared (.noBranch condition yes :: frames)
      (before ++ (text ++ .question :: (first ++ [.colon])))

inductive Operand (declared : List String) (level : Nat) (e : Expr) (frames : List Frame) :
    List Token → Prop
  | intro {before own : List Token} (around : Enclosed declared frames before)
    (operand : Derives declared level e own) : Operand declared level e frames (before ++ own)

theorem Operand.weaken {other : Nat} (h : Operand declared level e frames text)
    (hle : other ≤ level) : Operand declared other e frames text := by
  obtain ⟨around, operand⟩ := h
  exact .intro around (operand.weaken hle)

theorem operand_complete {bound : Nat} (hbound : bound ≤ 6)
    (h : Operand declared (max (bound + 1) (wanted frames)) e frames text) :
    Operand declared (max (bound + 1) (wanted (complete bound e frames).2))
      (complete bound e frames).1 (complete bound e frames).2 text := by
  induction frames generalizing e text with
  | nil => exact h
  | cons frame frames ih =>
    cases frame with
    | unary op =>
      obtain ⟨around, operand⟩ := h
      cases around with
      | unary op around =>
        rw [List.append_assoc]
        have hlevel : max (bound + 1) (wanted frames) ≤ 7 :=
          Nat.max_le.2 ⟨Nat.succ_le_succ hbound, wanted_le _⟩
        have hunary := Derives.unary op (operand.weaken (Nat.le_max_right ..))
        exact ih (.intro around (hunary.weaken hlevel))
    | binary left op count =>
      rw [complete]
      split
      · next hlevel =>
        obtain ⟨around, operand⟩ := h
        cases around with
        | binary op around chain hwanted =>
          have hmax : max (bound + 1) (wanted frames) ≤ op.level := Nat.max_le.2 ⟨hlevel, hwanted⟩
          have hbinary := Derives.binary op chain (operand.weaken (Nat.le_max_right ..))
          have hall := Operand.intro around (hbinary.weaken hmax)
          refine ih ?_
          simpa only [List.append_assoc, List.cons_append, List.nil_append] using hall
      · exact h
    | _ => exact h

theorem looser_complete (bound : Nat) (e : Expr) (frames : List Frame) :
    Looser bound (complete bound e frames).2 := by
  induction frames generalizing e with
  | nil => trivial
  | cons frame frames ih =>
    cases frame with
    | unary op => exact ih _
    | binary left op count =>
      rw [complete]
      split
      · exact ih _
      · next hlevel => exact Nat.le_of_not_lt hlevel
    | _ => trivial

theorem Looser.wanted_eq_zero (h : Looser 0 frames) : wanted frames = 0 := by
  rcases frames with _ | ⟨frame, frames⟩
  · rfl
  · cases frame with
    | unary op => exact h.elim
    | binary left op count => exact absurd h (Nat.not_le_of_lt op.one_le_level)
    | _ => rfl

theorem operand_completeBranches (h : Operand declared 0 e frames text)
    (hwanted : wanted frames = 0) :
    Operand declared 0 (completeBranches e frames).1 (completeBranches e frames).2 text := by
  induction frames generalizing e text with
  | nil => exact h
  | cons frame frames ih =>
    cases frame with
    | noBranch condition yes =>
      obtain ⟨around, operand⟩ := h
      cases around with
      | noBranch around ask ifYes houter =>
        have hall := Operand.intro around (.conditional ask ifYes operand)
        refine ih ?_ houter
        simpa only [List.append_assoc, List.cons_append, List.nil_append] using hall
    | _ => exact h

theorem operand_complete_zero (h : Operand declared 8 e frames text) :
    Operand declared 1 (complete 0 e frames).1 (complete 0 e frames).2 text := by
  have hlevel : max (0 + 1) (wanted frames) ≤ 8 :=
    Nat.max_le.2 ⟨by decide, Nat.le_succ_of_le (wanted_le _)⟩
  exact (operand_complete (by decide) (h.weaken hlevel)).weaken (Nat.le_max_left ..)

theorem operand_completeAll (h : Operand declared 8 e frames text) :
    Operand declared 0 (completeAll e frames).1 (completeAll e frames).2 text :=
  operand_completeBranches ((operand_complete_zero h).weaken (Nat.zero_le _))
    (looser_complete 0 e frames).wanted_eq_zero

namespace State

inductive Reads (declared : List String) : State → List Token → Prop
  | operand {frames : List Frame} {fields : List String} {before : List Token}
    (around : Enclosed declared frames before) : Reads declared ⟨.operand, frames, fields⟩ before
  | name {frames : List Frame} {fields : List String} {before : List Token} (path : String)
    (around : Enclosed declared frames before) :
    Reads declared ⟨.name path, frames, fields⟩ (before ++ [.name path])
  | called {frames : List Frame} {fields : List String} {before : List Token} (f : Function)
    (around : Enclosed declared frames before) :
    Reads declared ⟨.called f, frames, fields⟩ (before ++ [.name f.name, .openParen])
  | operator {frames : List Frame} {fields : List String} {text : List Token} {e : Expr}
    (operand : Operand declared 8 e frames text) :
    Reads declared ⟨.operator e, frames, fields⟩ text

variable {s t : State} {token : Token} {fields : List String}

theorem reads_operandStep (around : Enclosed declared frames text)
    (h : OperandStep frames fields token t) : Reads declared t (text ++ [token]) := by
  cases h with
  | int n => exact .operator (.intro around (.int n))
  | float x => exact .operator (.intro around (.float x))
  | string v => exact .operator (.intro around (.string v))
  | bool b => exact .operator (.intro around (.bool b))
  | null => exact .operator (.intro around .null)
  | name path => exact .name path around
  | openParen => exact .operand (.paren around)
  | unary op room => exact .operand (.unary op around)

theorem enclosed_chainBefore (h : Operand declared 8 e frames text) (op : BinaryOp) (count : Nat) :
    Enclosed declared (.binary (chainBefore op e frames).1 op count :: (chainBefore op e frames).2.2)
      (text ++ [op.token]) := by
  have hlevel : max (op.level + 1) (wanted frames) ≤ 8 :=
    Nat.max_le.2 ⟨Nat.le_succ_of_le (Nat.succ_le_succ op.level_le), Nat.le_succ_of_le (wanted_le _)⟩
  have hcomplete := operand_complete op.level_le (h.weaken hlevel)
  have hlooser := looser_complete op.level e frames
  unfold chainBefore
  generalize complete op.level e frames = completed at hcomplete hlooser
  obtain ⟨e, frames⟩ := completed
  obtain ⟨around, operand⟩ := hcomplete
  have hoperand := operand.weaken (Nat.le_max_left ..)
  rw [List.append_assoc]
  rcases frames with _ | ⟨frame, frames⟩
  · exact .binary op around hoperand.tighter (Nat.zero_le _)
  · cases frame with
    | unary op => exact hlooser.elim
    | binary left earlier before =>
      -- after an operator of the same level, its right side is now complete
      by_cases heq : earlier.level = op.level
      · simp only [if_pos heq]
        cases around with
        | binary _ around chain houter =>
          rw [← heq] at hoperand
          have hchain := Derives.binary earlier chain hoperand
          rw [heq] at hchain houter
          have hall : Enclosed declared (.binary (.binary earlier left e) op count :: frames) _ :=
            .binary op around hchain houter
          simpa only [List.append_assoc, List.cons_append, List.nil_append] using hall
      · simp only [if_neg heq]
        exact .binary op around hoperand.tighter (Nat.lt_of_le_of_ne hlooser heq)
    | _ => exact .binary op around hoperand.tighter (Nat.zero_le _)

theorem enclosed_noBranch {condition : Expr}
    (h : Operand declared 0 e (.yesBranch condition :: frames) text) :
    Enclosed declared (.noBranch condition e :: frames) (text ++ [.colon]) := by
  obtain ⟨around, operand⟩ := h
  cases around with
  | yesBranch around ask houter =>
    have hno := Enclosed.noBranch around ask operand houter
    simpa only [List.append_assoc, List.cons_append, List.nil_append] using hno

theorem operand_parentheses (h : Operand declared 0 e (.paren :: frames) text) :
    Operand declared 8 e frames (text ++ [.closeParen]) := by
  obtain ⟨around, operand⟩ := h
  cases around with
  | paren around =>
    have hwhole := Operand.intro around (.parentheses operand)
    simpa only [List.append_assoc, List.cons_append, List.nil_append] using hwhole

theorem operand_call {f : Function} (h : Operand declared 0 e (.call f [] :: frames) text) :
    Operand declared 8 (.call f e) frames (text ++ [.closeParen]) := by
  obtain ⟨around, operand⟩ := h
  cases around with
  | call f around =>
    have hwhole := Operand.intro around (.call f operand)
    simpa only [List.append_assoc, List.cons_append, List.nil_append] using hwhole
  | calls h => exact absurd rfl h

theorem reads_operatorStep (h : Operand declared 8 e frames text)
    (hstep : OperatorStep e frames fields token t) : Reads declared t (text ++ [token]) := by
  have hall := operand_completeAll h
  cases hstep with
  | @binary op left count outer chain room =>
    have houter := enclosed_chainBefore h op (count + 1)
    rw [chain] at houter
    exact .operand houter
  | question whole =>
    have hcondition := operand_complete_zero h
    have hlooser := looser_complete 0 e frames
    rw [whole] at hcondition hlooser
    obtain ⟨around, condition⟩ := hcondition
    rw [List.append_assoc]
    exact .operand (.yesBranch around condition hlooser.wanted_eq_zero)
  | colon whole =>
    rw [whole] at hall
    exact .operand (enclosed_noBranch hall)
  | comma whole =>
    exact .operand (.calls (List.append_ne_nil_of_right_ne_nil _ (List.cons_ne_nil _ _)))
  | closeParen whole =>
    rw [whole] at hall
    exact .operator (operand_parentheses hall)
  | endOfCall whole =>
    rw [whole] at hall
    exact .operator (operand_call hall)

theorem operand_field {path : String} (around : Enclosed declared frames text)
    (known : path ∈ declared) : Operand declared 8 (.field path) frames (text ++ [.name path]) :=
  .intro around (.field known)

theorem reads_step (hs : Reads declared s text) (h : Step declared s token t) :
    Reads declared t (text ++ [token]) := by
  cases h with
  | operand room step =>
    cases hs with
    | operand around => exact reads_operandStep around step
  | operator step =>
    cases hs with
    | operator operand => exact reads_operatorStep operand step
  | function f frames fields =>
    cases hs with
    | name path around =>
      rw [List.append_assoc]
      exact .called f around
  | field known other step =>
    cases hs with
    | name path around => exact reads_operatorStep (operand_field around known) step
  | argument other room step =>
    cases hs with
    | called _ around => exact reads_operandStep (.call _ around) step

theorem writes_of_completeAll {result : Expr} (h : Operand declared 8 e frames text)
    (whole : completeAll e frames = (result, [])) : Writes declared text result := by
  have hall := operand_completeAll h
  rw [whole] at hall
  obtain ⟨around, operand⟩ := hall
  cases around with
  | nothing => exact operand

theorem writes_of_finish (hs : Reads declared s text) (h : Finish declared s e fields) :
    Writes declared text e := by
  cases h with
  | operator whole =>
    cases hs with
    | operator operand => exact writes_of_completeAll operand whole
  | field known whole =>
    cases hs with
    | name path around => exact writes_of_completeAll (operand_field around known) whole

theorem writes_of_run {rest : List Token} (hs : Reads declared s text)
    (h : Run declared e fields s rest) : Writes declared (text ++ rest) e := by
  induction h generalizing text with
  | finish ends =>
    rw [List.append_nil]
    exact writes_of_finish hs ends
  | step first more ih =>
    have hrest := ih (reads_step hs first)
    rwa [List.append_assoc] at hrest

end State

theorem writes_of_readTokens {scan : Scan Token} {fields : List String}
    (h : readTokens declared scan = .ok (e, fields)) :
    Writes declared (scan.lexemes.map (·.item)) e :=
  State.writes_of_run (.operand .nothing) (State.Run.of_eq_ok h)

end FormLogic.Formula
