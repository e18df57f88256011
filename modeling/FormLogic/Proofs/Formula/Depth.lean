import FormLogic.Proofs.Formula.Completeness

/-! The levels that the reader runs out of. Each token opens one level at most, and only some do. -/

namespace FormLogic.Formula

def Token.deepens : Token → Bool
  | .openParen | .question | .bang => true
  | token => (State.binaryOp? token).isSome

variable {declared : List String} {e : Expr} {frames : List Frame}

theorem depth_complete_le (bound : Nat) (e : Expr) (frames : List Frame) :
    depth (complete bound e frames).2 ≤ depth frames := by
  induction frames generalizing e with
  | nil => exact Nat.le_refl _
  | cons frame frames ih =>
    cases frame with
    | unary op => exact Nat.le_trans (ih _) (Nat.le_add_left ..)
    | binary left op count =>
      rw [complete]
      split
      · exact Nat.le_trans (ih _) (Nat.le_add_left ..)
      · exact Nat.le_refl _
    | _ => exact Nat.le_refl _

theorem depth_completeBranches_le (e : Expr) (frames : List Frame) :
    depth (completeBranches e frames).2 ≤ depth frames := by
  induction frames generalizing e with
  | nil => exact Nat.le_refl _
  | cons frame frames ih =>
    cases frame with
    | noBranch condition yes => exact Nat.le_trans (ih _) (Nat.le_add_left ..)
    | _ => exact Nat.le_refl _

theorem depth_completeAll_le (e : Expr) (frames : List Frame) :
    depth (completeAll e frames).2 ≤ depth frames :=
  Nat.le_trans (depth_completeBranches_le ..) (depth_complete_le ..)

namespace State

theorem depth_chainBefore_le (op : BinaryOp) (e : Expr) (frames : List Frame) :
    depth (chainBefore op e frames).2.2 + (chainBefore op e frames).2.1 ≤ depth frames := by
  have hcomplete := depth_complete_le op.level e frames
  unfold chainBefore
  generalize complete op.level e frames = completed at hcomplete
  obtain ⟨e, inner⟩ := completed
  refine Nat.le_trans ?_ hcomplete
  rcases inner with _ | ⟨frame, inner⟩
  · exact Nat.le_refl _
  · cases frame with
    | binary left before count =>
      by_cases hlevel : before.level = op.level
      · simp only [if_pos hlevel]
        exact Nat.le_of_eq (Nat.add_comm ..)
      · simp only [if_neg hlevel]
        exact Nat.le_refl _
    | _ => exact Nat.le_refl _

def nesting (s : State) : Nat :=
  match s.stage with
  | .called _ => depth s.frames + 1
  | _ => depth s.frames

/-- The reader goes on with at most so many levels, or runs out of levels with more. -/
def Within (levels : Nat) : Except Error State → Prop
  | .ok t => t.nesting ≤ levels
  | .error (.malformed _ .tooDeep) => maxDepth < levels
  | .error _ => True

variable {s : State} {levels : Nat}

theorem within_stepUnary (op : UnaryOp) (offset : Nat) :
    Within (depth s.frames + 1) (s.stepUnary op offset) := by
  unfold stepUnary
  split
  · next hfull => exact Nat.lt_succ_of_le hfull
  · exact Nat.le_of_eq (Nat.add_comm ..)

theorem within_stepOperand (s : State) (token : Located Token) :
    Within (depth s.frames + token.item.deepens.toNat) (s.stepOperand token) := by
  obtain ⟨item, offset⟩ := token
  unfold stepOperand
  split
  · next hdeep => exact Nat.lt_of_lt_of_le hdeep (Nat.le_add_right ..)
  · cases item with
    | bang => exact within_stepUnary .not offset
    | minus => exact within_stepUnary .neg offset
    | openParen => exact Nat.le_of_eq (Nat.add_comm ..)
    | int | float | string | bool | null | name => exact Nat.le_refl _
    | _ => trivial

theorem deepens_of_binaryOp? {token : Token} {op : BinaryOp} (h : binaryOp? token = some op) :
    token.deepens = true := by
  cases token <;> cases h <;> rfl

theorem within_stepBinary (s : State) (op : BinaryOp) (e : Expr) (offset : Nat) :
    Within (depth s.frames + 1) (s.stepBinary op e offset) := by
  have hchain := depth_chainBefore_le op e s.frames
  unfold stepBinary
  generalize chainBefore op e s.frames = chain at hchain
  obtain ⟨left, count, frames⟩ := chain
  simp only at hchain ⊢
  split
  · next hfull => exact Nat.lt_succ_of_le (Nat.le_trans hfull hchain)
  · simp only [Within, nesting, depth, Frame.weight]
    omega

theorem within_stepOperator (s : State) (e : Expr) (token : Located Token) :
    Within (depth s.frames + token.item.deepens.toNat) (s.stepOperator e token) := by
  unfold stepOperator
  split
  · next op hop =>
    rw [deepens_of_binaryOp? hop]
    exact within_stepBinary s op e token.offset
  · -- what is completed gives its levels back, so that only a question mark needs one
    have hall := depth_completeAll_le e s.frames
    have hroom : depth s.frames ≤ depth s.frames + token.item.deepens.toNat := Nat.le_add_right ..
    split
    · next hitem =>
      have hcondition := depth_complete_le 0 e s.frames
      rw [hitem]
      simp only [Within, nesting, depth, Frame.weight, Token.deepens, Bool.toNat_true]
      omega
    · next heq =>
      rw [heq] at hall
      exact Nat.le_trans hall hroom
    · next heq =>
      rw [heq] at hall
      exact Nat.le_trans hall hroom
    · next heq =>
      rw [heq] at hall
      exact Nat.le_trans (Nat.le_trans (Nat.le_add_left ..) hall) hroom
    · next heq =>
      rw [heq] at hall
      exact Nat.le_trans (Nat.le_trans (Nat.le_add_left ..) hall) hroom
    · trivial
    · trivial

theorem frames_of_resolve {path : String} {t : State} (h : s.resolve declared path = .ok t) :
    t.frames = s.frames := by
  unfold resolve at h
  split at h
  · cases h
    rfl
  · cases h

theorem within_of_resolve {path : String} {fault : Error} (h : s.resolve declared path = .error fault) :
    Within levels (.error fault) := by
  unfold resolve at h
  split at h
  · cases h
  · cases h
    trivial

theorem within_step (s : State) (token : Located Token) :
    Within (s.nesting + token.item.deepens.toNat) (s.step declared token) := by
  obtain ⟨stage, frames, fields⟩ := s
  cases stage with
  | operand => exact within_stepOperand _ token
  | operator e => exact within_stepOperator _ e token
  | name path =>
    simp only [step]
    split
    · next hitem =>
      split
      · rw [hitem]
        exact Nat.le_refl _
      · trivial
    · split
      · next resolved hresolve =>
        have hstep := within_stepOperator resolved (.field path) token
        rwa [frames_of_resolve hresolve] at hstep
      · next hresolve => exact within_of_resolve hresolve
  | called f =>
    simp only [step]
    split
    · trivial
    · have hopen : depth (.call f [] :: frames) = depth frames + 1 := Nat.add_comm ..
      have hstep : Within (depth (.call f [] :: frames) + _) _ :=
        within_stepOperand (opening ⟨.called f, frames, fields⟩ (.call f [])) token
      rwa [hopen] at hstep

theorem finishOperator_ne_tooDeep {stop offset : Nat} :
    s.finishOperator e stop ≠ .error (.malformed offset .tooDeep) := by
  unfold finishOperator
  split <;> exact nofun

theorem lt_of_endAtOperand {stop offset : Nat}
    (h : s.endAtOperand stop = .malformed offset .tooDeep) : maxDepth < depth s.frames := by
  unfold endAtOperand at h
  split at h
  · assumption
  · cases h

theorem lt_of_finish {stop offset : Nat}
    (h : s.finish declared stop = .error (.malformed offset .tooDeep)) : maxDepth < s.nesting := by
  obtain ⟨stage, frames, fields⟩ := s
  cases stage with
  | operand => exact lt_of_endAtOperand (Except.error.inj h)
  | operator e => exact absurd h finishOperator_ne_tooDeep
  | name path =>
    simp only [finish] at h
    split at h
    · exact absurd h finishOperator_ne_tooDeep
    · next hresolve =>
      cases h
      exact within_of_resolve hresolve
  | called f =>
    have hopen : depth (.call f [] :: frames) = depth frames + 1 := Nat.add_comm ..
    have hdeep : maxDepth < depth (.call f [] :: frames) := lt_of_endAtOperand (Except.error.inj h)
    rwa [hopen] at hdeep

theorem lt_of_run {stop offset : Nat} {tokens : List (Located Token)}
    (h : run declared stop s tokens = .error (.malformed offset .tooDeep)) :
    maxDepth < s.nesting + (tokens.map (·.item)).countP Token.deepens := by
  induction tokens generalizing s with
  | nil => exact lt_of_finish h
  | cons token rest ih =>
    have hwithin : Within (s.nesting + token.item.deepens.toNat) (s.step declared token) :=
      within_step s token
    have hcount : ((token :: rest).map (·.item)).countP Token.deepens =
        (rest.map (·.item)).countP Token.deepens + token.item.deepens.toNat := by
      rw [List.map_cons, List.countP_cons]
      cases token.item.deepens <;> rfl
    rw [run] at h
    rw [hcount]
    split at h
    · next t hstep =>
      rw [hstep] at hwithin
      have hrest := ih h
      simp only [Within] at hwithin
      omega
    · next hstep =>
      cases h
      rw [hstep] at hwithin
      simp only [Within] at hwithin
      omega

end State

/-- The reader accepts exactly what the grammar derives, as the only expression that it derives,
except for what nests too deep; and for that a text needs as many tokens that open a level as there
are levels. -/
theorem readTokens_spec (declared : List String) (scan : Scan Token) :
    (∀ e fields, readTokens declared scan = .ok (e, fields) →
      Writes declared (scan.lexemes.map (·.item)) e ∧
        ∀ other, Writes declared (scan.lexemes.map (·.item)) other → other = e) ∧
    (∀ e, Writes declared (scan.lexemes.map (·.item)) e →
      (∃ fields, readTokens declared scan = .ok (e, fields)) ∨
        ∃ offset, readTokens declared scan = .error (.malformed offset .tooDeep)) ∧
    ((scan.lexemes.map (·.item)).countP Token.deepens < maxDepth →
      ∀ offset, readTokens declared scan ≠ .error (.malformed offset .tooDeep)) := by
  refine ⟨fun e fields hread => ⟨writes_of_readTokens hread, fun other hother => ?_⟩,
    fun e => readTokens_of_writes, fun hcount offset hread => ?_⟩
  · rcases readTokens_of_writes hother with ⟨_, hagain⟩ | ⟨_, hdeep⟩
    · exact congrArg Prod.fst (Except.ok.inj (hagain.symm.trans hread))
    · exact nomatch hdeep.symm.trans hread
  · have hdeep := State.lt_of_run hread
    have hstart : State.start.nesting = 1 := rfl
    rw [hstart] at hdeep
    omega

end FormLogic.Formula
