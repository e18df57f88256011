import FormLogic.Formula
import FormLogic.Proofs.Formula.Steps

/-! What a formula that has been read is made of: its literals are single values, and it mentions
only the names it lists, which are declared and listed once. -/

namespace FormLogic

def Value.isSingle : Value → Bool
  | .array _ | .object _ => false
  | _ => true

namespace Formula

/-- Literals are single values, and only `names` are read. -/
def Expr.Over (names : List String) : Expr → Prop
  | .literal v => v.isSingle = true
  | .field path => path ∈ names
  | .unary _ operand => operand.Over names
  | .binary _ left right => left.Over names ∧ right.Over names
  | .conditional condition yes no => condition.Over names ∧ yes.Over names ∧ no.Over names
  | .call _ argument => argument.Over names

theorem Expr.Over.mono {names others : List String} (hsub : names ⊆ others) {e : Expr}
    (h : e.Over names) : e.Over others := by
  induction e with
  | literal v => exact h
  | field path => exact hsub h
  | unary op operand ih => exact ih h
  | binary op left right ihl ihr => exact ⟨ihl h.1, ihr h.2⟩
  | conditional condition yes no ihc ihy ihn => exact ⟨ihc h.1, ihy h.2.1, ihn h.2.2⟩
  | call f argument ih => exact ih h

def Frame.Over (names : List String) : Frame → Prop
  | .unary _ | .paren => True
  | .binary left _ _ => left.Over names
  | .call _ earlier => ∀ e ∈ earlier, e.Over names
  | .yesBranch condition => condition.Over names
  | .noBranch condition yes => condition.Over names ∧ yes.Over names

theorem Frame.Over.mono {names others : List String} (hsub : names ⊆ others) {frame : Frame}
    (h : frame.Over names) : frame.Over others := by
  cases frame with
  | unary op => trivial
  | paren => trivial
  | binary left op count => exact Expr.Over.mono hsub h
  | call f earlier => exact fun e he => (h e he).mono hsub
  | yesBranch condition => exact Expr.Over.mono hsub h
  | noBranch condition yes => exact ⟨h.1.mono hsub, h.2.mono hsub⟩

def OperandOver (names : List String) (e : Expr) (frames : List Frame) : Prop :=
  e.Over names ∧ ∀ frame ∈ frames, frame.Over names

section Completion

variable {names : List String} {e : Expr} {frames : List Frame}

theorem operandOver_complete (level : Nat) (h : OperandOver names e frames) :
    OperandOver names (complete level e frames).1 (complete level e frames).2 := by
  fun_induction complete level e frames with
  | case1 e op frames ih =>
    exact ih ⟨h.1, (List.forall_mem_cons.1 h.2).2⟩
  | case2 e left op count frames hlevel ih =>
    obtain ⟨hleft, hframes⟩ := List.forall_mem_cons.1 h.2
    exact ih ⟨⟨hleft, h.1⟩, hframes⟩
  | case3 => exact h
  | case4 => exact h

theorem operandOver_completeBranches (h : OperandOver names e frames) :
    OperandOver names (completeBranches e frames).1 (completeBranches e frames).2 := by
  fun_induction completeBranches e frames with
  | case1 e condition yes frames ih =>
    obtain ⟨⟨hcondition, hyes⟩, hframes⟩ := List.forall_mem_cons.1 h.2
    exact ih ⟨⟨hcondition, hyes, h.1⟩, hframes⟩
  | case2 => exact h

theorem operandOver_completeAll (h : OperandOver names e frames) :
    OperandOver names (completeAll e frames).1 (completeAll e frames).2 :=
  operandOver_completeBranches (operandOver_complete 0 h)

end Completion

namespace State

theorem operandOver_chainBefore {names : List String} (op : BinaryOp)
    {e : Expr} {frames : List Frame} (h : OperandOver names e frames) :
    OperandOver names (chainBefore op e frames).1 (chainBefore op e frames).2.2 := by
  have hcomplete := operandOver_complete op.level h
  unfold chainBefore
  split
  · next left before count frames heq =>
    rw [heq] at hcomplete
    obtain ⟨hleft, hframes⟩ := List.forall_mem_cons.1 hcomplete.2
    split
    · exact ⟨⟨hleft, hcomplete.1⟩, hframes⟩
    · exact hcomplete
  · next heq =>
    rw [heq] at hcomplete
    exact hcomplete

structure Sound (declared : List String) (s : State) : Prop where
  declared : s.fields ⊆ declared
  nodup : s.fields.Nodup
  frames : ∀ frame ∈ s.frames, frame.Over s.fields
  operand : ∀ e, s.stage = .operator e → e.Over s.fields

theorem sound_start (declared : List String) : Sound declared start := ⟨nofun, .nil, nofun, nofun⟩

variable {declared fields : List String} {frames : List Frame} {s t : State} {token : Token}
  {e : Expr}

theorem Sound.atOperand (hs : Sound declared s)
    (hframes : ∀ frame ∈ frames, frame.Over s.fields) :
    Sound declared ⟨.operand, frames, s.fields⟩ := ⟨hs.declared, hs.nodup, hframes, nofun⟩

theorem Sound.afterOperand (hs : Sound declared s) (h : OperandOver s.fields e frames) :
    Sound declared ⟨.operator e, frames, s.fields⟩ :=
  ⟨hs.declared, hs.nodup, h.2, fun _ heq => Stage.operator.inj heq ▸ h.1⟩

theorem Sound.opening (hs : Sound declared s) {frame : Frame} (hframe : frame.Over s.fields) :
    Sound declared ⟨.operand, frame :: s.frames, s.fields⟩ :=
  hs.atOperand (List.forall_mem_cons.2 ⟨hframe, hs.frames⟩)

theorem Sound.withLiteral (hs : Sound declared s) {v : Value} (hv : v.isSingle = true) :
    Sound declared ⟨.operator (.literal v), s.frames, s.fields⟩ := hs.afterOperand ⟨hv, hs.frames⟩

theorem sound_operandStep (hs : Sound declared s) (h : OperandStep s.frames s.fields token t) :
    Sound declared t := by
  cases h with
  | int _ | float _ | string _ | bool _ | null => exact hs.withLiteral rfl
  | name path => exact ⟨hs.declared, hs.nodup, hs.frames, nofun⟩
  | openParen | unary _ _ => exact hs.opening trivial

theorem sound_operatorStep (hs : Sound declared s) (he : e.Over s.fields)
    (h : OperatorStep e s.frames s.fields token t) : Sound declared t := by
  have hoperand : OperandOver s.fields e s.frames := ⟨he, hs.frames⟩
  have hall := operandOver_completeAll hoperand
  cases h with
  | @binary op left count outer chain room =>
    have hleft := operandOver_chainBefore op hoperand
    rw [chain] at hleft
    exact hs.atOperand (List.forall_mem_cons.2 hleft)
  | question whole =>
    have hcondition := operandOver_complete 0 hoperand
    rw [whole] at hcondition
    exact hs.atOperand (List.forall_mem_cons.2 hcondition)
  | @colon condition yes outer whole =>
    rw [whole] at hall
    obtain ⟨hcondition, houter⟩ := List.forall_mem_cons.1 hall.2
    have hbranches : (Frame.noBranch condition yes).Over s.fields := ⟨hcondition, hall.1⟩
    exact hs.atOperand (List.forall_mem_cons.2 ⟨hbranches, houter⟩)
  | @comma f earlier argument outer whole =>
    rw [whole] at hall
    obtain ⟨hearlier, houter⟩ := List.forall_mem_cons.1 hall.2
    have harguments : (Frame.call f (earlier ++ [argument])).Over s.fields :=
      List.forall_mem_append.2 ⟨hearlier, by simpa using hall.1⟩
    exact hs.atOperand (List.forall_mem_cons.2 ⟨harguments, houter⟩)
  | closeParen whole | endOfCall whole =>
    rw [whole] at hall
    exact hs.afterOperand ⟨hall.1, (List.forall_mem_cons.1 hall.2).2⟩

theorem sound_field (hs : Sound declared s) {path : String} (hpath : path ∈ declared) :
    Sound declared ⟨.operator (.field path), s.frames, noteName s.fields path⟩ := by
  by_cases hold : path ∈ s.fields
  · rw [noteName, if_pos (List.contains_iff_mem.2 hold)]
    exact hs.afterOperand ⟨hold, hs.frames⟩
  · rw [noteName, if_neg (mt List.contains_iff_mem.1 hold)]
    have hnew : path ∈ s.fields ++ [path] := by simp
    refine ⟨?_, ?_, ?_, ?_⟩
    · exact List.append_subset.2 ⟨hs.declared, by simpa using hpath⟩
    · exact List.nodup_append.2 ⟨hs.nodup, by simp, by grind⟩
    · exact fun frame hframe => (hs.frames frame hframe).mono (List.subset_append_left ..)
    · exact fun e he => Stage.operator.inj he ▸ hnew

theorem sound_step (hs : Sound declared s) (h : Step declared s token t) : Sound declared t := by
  cases h with
  | operand room step => exact sound_operandStep hs step
  | operator step => exact sound_operatorStep hs (hs.operand _ rfl) step
  | function f frames fields => exact ⟨hs.declared, hs.nodup, hs.frames, nofun⟩
  | field known other step =>
    have hfield := sound_field hs known
    exact sound_operatorStep hfield (hfield.operand _ rfl) step
  | @argument f frames fields token t other room step =>
    have hcall : (Frame.call f []).Over fields := List.forall_mem_nil _
    exact sound_operandStep (hs.opening hcall) step

theorem over_of_completeAll {result : Expr} (hs : Sound declared ⟨.operator e, frames, fields⟩)
    (h : completeAll e frames = (result, [])) :
    result.Over fields ∧ fields ⊆ declared ∧ fields.Nodup := by
  have hall := operandOver_completeAll (e := e) ⟨hs.operand e rfl, hs.frames⟩
  rw [h] at hall
  exact ⟨hall.1, hs.declared, hs.nodup⟩

theorem over_of_run (hs : Sound declared s) {tokens : List Token}
    (h : Run declared e fields s tokens) :
    e.Over fields ∧ fields ⊆ declared ∧ fields.Nodup := by
  induction h with
  | finish ends =>
    cases ends with
    | operator whole => exact over_of_completeAll hs whole
    | field known whole => exact over_of_completeAll (sound_field hs known) whole
  | step first more ih => exact ih (sound_step hs first)

end State

variable {source : String} {declared : List String} {formula : Formula}

theorem read_eq_ok_iff :
    read source declared = .ok formula ↔ ∃ scan, Token.scan source = .ok scan ∧
      formula.source = source ∧ readTokens declared scan = .ok (formula.expr, formula.fields) := by
  unfold read
  split
  · next hscan => simp [hscan]
  · next scan hscan =>
    split
    · next hread =>
      constructor
      · intro h
        obtain rfl := Except.ok.inj h
        exact ⟨scan, hscan, rfl, hread⟩
      · rintro ⟨other, hother, rfl, hagain⟩
        obtain rfl := Except.ok.inj (hscan.symm.trans hother)
        obtain ⟨rfl, rfl⟩ := Prod.mk.inj (Except.ok.inj (hread.symm.trans hagain))
        rfl
    · next hread =>
      constructor
      · intro h
        cases h
      · rintro ⟨other, hother, -, hagain⟩
        obtain rfl := Except.ok.inj (hscan.symm.trans hother)
        cases hread.symm.trans hagain

theorem exists_run_of_read (h : read source declared = .ok formula) :
    ∃ scan, Token.scan source = .ok scan ∧
      State.Run declared formula.expr formula.fields .start (scan.lexemes.map (·.item)) := by
  obtain ⟨scan, hscan, -, hread⟩ := read_eq_ok_iff.1 h
  exact ⟨scan, hscan, State.Run.of_eq_ok hread⟩

theorem over_of_read (h : read source declared = .ok formula) :
    formula.expr.Over formula.fields ∧ formula.fields ⊆ declared ∧ formula.fields.Nodup := by
  obtain ⟨scan, -, hrun⟩ := exists_run_of_read h
  exact State.over_of_run (State.sound_start declared) hrun

end Formula

end FormLogic
