import FormLogic.Proofs.Condition.Completeness

/-! Where a text is refused: at its first token, or its end, with which no condition begins as the
text does. From every state the reader can still be led to the end of a condition, so that whatever
it has taken in begins one. -/

namespace FormLogic.Condition

namespace State

variable {s t u : State} {token : Token} {text after : List Token} {fault : Fault}

theorem Steps.of_append (h : Steps s text t) (h' : Steps s (text ++ after) u) :
    Steps t after u := by
  induction h with
  | nil s => exact h'
  | cons first more ih =>
    cases h' with
    | cons first' more' =>
      obtain rfl := Except.ok.inj (first.symm.trans first')
      exact ih more'

def Completable (s : State) : Prop :=
  ∃ rest t rule, Steps s rest t ∧ t.finish = .ok rule

theorem Completable.of_step (h : s.step token = .ok t) (ht : t.Completable) : s.Completable := by
  obtain ⟨rest, u, rule, hsteps, hfinish⟩ := ht
  exact ⟨token :: rest, u, rule, .cons h hsteps, hfinish⟩

section

variable {group : Group} {outer : List Group} {name : String} {op : Operator}

theorem completable_done (group : Group) (outer : List Group) :
    Completable ⟨.done, group, outer⟩ := by
  induction outer generalizing group with
  | nil => exact ⟨[], _, group.rule, .nil _, rfl⟩
  | cons enclosing outer ih =>
    have hclose : step ⟨.done, group, enclosing :: outer⟩ .closeParen =
        .ok ⟨.done, enclosing.addMember group.rule, outer⟩ := rfl
    exact .of_step hclose (ih _)

theorem completable_withValue (s : State) (name : String) (op : Operator) (v : Value)
    (arrays : OpenArrays) : (s.withValue name op v arrays).Completable := by
  induction arrays generalizing s v with
  | nil => exact completable_done _ _
  | cons items arrays ih =>
    have hclose : step (s.withValue name op v (items :: arrays)) .closeBracket =
        .ok (withValue { s with stage := .item name op (v :: items) arrays } name op
          (.array (v :: items).reverse) arrays) := rfl
    exact .of_step hclose (ih _ _)

theorem completable_value (arrays : OpenArrays) :
    Completable ⟨.value name op arrays, group, outer⟩ := by
  have hvalue : step ⟨.value name op arrays, group, outer⟩ (.bool true) =
      .ok (withValue ⟨.value name op arrays, group, outer⟩ name op (.bool true) arrays) := rfl
  exact .of_step hvalue (completable_withValue _ _ _ _ _)

theorem completable_withOperator (s : State) (name : String) (op : Operator) :
    (s.withOperator name op).Completable := by
  unfold withOperator
  split
  · exact completable_value []
  · exact completable_done _ _

theorem completable_field : Completable ⟨.field name, group, outer⟩ := by
  have hoperator : step ⟨.field name, group, outer⟩ .equal =
      .ok (withOperator ⟨.field name, group, outer⟩ name .equals) := rfl
  exact .of_step hoperator (completable_withOperator _ _ _)

end

theorem completable (s : State) : s.Completable := by
  obtain ⟨stage, group, outer⟩ := s
  cases stage with
  | operand =>
    have hname : step ⟨.operand, group, outer⟩ (.name "x") = .ok ⟨.field "x", group, outer⟩ := rfl
    exact .of_step hname completable_field
  | field name => exact completable_field
  | fieldNot name =>
    have hempty : step ⟨.fieldNot name, group, outer⟩ .empty =
        .ok (withOperator ⟨.fieldNot name, group, outer⟩ name .isNotEmpty) := rfl
    exact .of_step hempty (completable_withOperator _ _ _)
  | fieldIs name =>
    have hempty : step ⟨.fieldIs name, group, outer⟩ .empty =
        .ok (withOperator ⟨.fieldIs name, group, outer⟩ name .isEmpty) := rfl
    exact .of_step hempty (completable_withOperator _ _ _)
  | fieldIsNot name =>
    have hempty : step ⟨.fieldIsNot name, group, outer⟩ .empty =
        .ok (withOperator ⟨.fieldIsNot name, group, outer⟩ name .isNotEmpty) := rfl
    exact .of_step hempty (completable_withOperator _ _ _)
  | value name op arrays => exact completable_value arrays
  | item name op items arrays =>
    have hclose : step ⟨.item name op items arrays, group, outer⟩ .closeBracket =
        .ok (withValue ⟨.item name op items arrays, group, outer⟩ name op
          (.array items.reverse) arrays) := rfl
    exact .of_step hclose (completable_withValue _ _ _ _ _)
  | done => exact completable_done group outer

inductive Stuck (s : State) (fault : Fault) : Option Token → Prop
  | token {token : Token} (refused : s.step token = .error fault) : Stuck s fault (some token)
  | stop (refused : s.finish = .error fault) : Stuck s fault none

variable {symbol : Option Token}

theorem Stuck.fault_eq (h : Stuck s fault symbol) : fault = .tooDeep ∨ fault = s.refuse symbol := by
  cases h with
  | token refused =>
    unfold step at refused
    split at refused
    all_goals grind
  | stop refused =>
    unfold finish at refused
    split at refused
    · cases refused
    · exact .inr (Except.error.inj refused).symm

end State

def symbol (token : Located Token) : Located (Option Token) := ⟨some token.item, token.offset⟩

/-- What the reader meets: the tokens of a text, and after them its end. -/
def symbols (scan : Scan Token) : List (Located (Option Token)) :=
  scan.lexemes.map symbol ++ [⟨none, scan.stop⟩]

def Accepts (text : List (Option Token)) : Prop :=
  ∃ scan rule, (symbols scan).map (·.item) = text ∧ readTokens scan = .ok rule

/-- Some text that the reader takes begins with these symbols. -/
def Viable (beginning : List (Option Token)) : Prop := ∃ rest, Accepts (beginning ++ rest)

section

variable {tokens others : List Token} {t : State} {fault : Fault}

theorem map_item_symbols (scan : Scan Token) :
    (symbols scan).map (·.item) = (scan.lexemes.map (·.item)).map some ++ [none] := by
  simp [symbols, symbol, Function.comp_def]

theorem accepts_iff {text : List (Option Token)} :
    Accepts text ↔ ∃ tokens t rule, text = tokens.map some ++ [none] ∧
      State.Steps .start tokens t ∧ t.finish = .ok rule := by
  constructor
  · rintro ⟨scan, rule, rfl, hread⟩
    obtain ⟨t, hsteps, hfinish⟩ := State.run_eq_ok_iff.1 hread
    exact ⟨scan.lexemes.map (·.item), t, rule, map_item_symbols scan, hsteps, hfinish⟩
  · rintro ⟨tokens, t, rule, rfl, hsteps, hfinish⟩
    let scan : Scan Token := ⟨tokens.map fun token => ⟨token, 0⟩, 0⟩
    have hitems : scan.lexemes.map (·.item) = tokens := by simp [scan, Function.comp_def]
    refine ⟨scan, rule, ?_, State.run_eq_ok_iff.2 ⟨t, ?_, hfinish⟩⟩
    · rw [map_item_symbols, hitems]
    · rw [hitems]
      exact hsteps

theorem viable_of_steps (h : State.Steps .start tokens t) : Viable (tokens.map some) := by
  obtain ⟨rest, u, rule, hsteps, hfinish⟩ := t.completable
  have haccepts : Accepts ((tokens ++ rest).map some ++ [none]) :=
    accepts_iff.2 ⟨tokens ++ rest, u, rule, rfl, h.append hsteps, hfinish⟩
  refine ⟨rest.map some ++ [none], ?_⟩
  rw [← List.append_assoc, ← List.map_append]
  exact haccepts

theorem eq_of_map_some_append {symbol : Option Token} {rest : List (Option Token)}
    (h : tokens.map some ++ symbol :: rest = others.map some ++ [none]) :
    (symbol = none ∧ others = tokens) ∨
      ∃ token more, symbol = some token ∧ others = tokens ++ token :: more := by
  induction tokens generalizing others with
  | nil =>
    cases others with
    | nil => exact .inl ⟨by simpa using (List.cons.inj h).1, rfl⟩
    | cons token more => exact .inr ⟨token, more, by simpa using (List.cons.inj h).1, rfl⟩
  | cons token tokens ih =>
    cases others with
    | nil => simp at h
    | cons other others =>
      obtain ⟨hhead, hrest⟩ := List.cons.inj h
      obtain rfl := Option.some.inj hhead
      rcases ih hrest with ⟨hend, rfl⟩ | ⟨next, more, hnext, rfl⟩
      · exact .inl ⟨hend, rfl⟩
      · exact .inr ⟨next, more, hnext, rfl⟩

theorem not_viable_of_stuck {symbol : Option Token} (hsteps : State.Steps .start tokens t)
    (hstuck : t.Stuck fault symbol) : ¬ Viable (tokens.map some ++ [symbol]) := by
  rintro ⟨rest, haccepts⟩
  obtain ⟨others, u, rule, htext, hothers, hfinish⟩ := accepts_iff.1 haccepts
  rw [List.append_assoc, List.singleton_append] at htext
  cases hstuck with
  | token refused =>
    obtain ⟨hend, -⟩ | ⟨token, more, htoken, rfl⟩ := eq_of_map_some_append htext
    · cases hend
    · cases htoken
      cases hsteps.of_append hothers with
      | cons first more => cases refused.symm.trans first
  | stop refused =>
    obtain ⟨-, rfl⟩ | ⟨token, more, htoken, -⟩ := eq_of_map_some_append htext
    · rw [← List.append_nil others] at hothers
      cases hsteps.of_append hothers
      cases refused.symm.trans hfinish
    · cases htoken

end

theorem exists_stuck_of_run {stop : Nat} {s : State} {lexemes : List (Located Token)}
    {fault : Located Fault} (h : State.run stop s lexemes = .error fault) :
    ∃ (before : List (Located Token)) (place : Located (Option Token))
      (after : List (Located (Option Token))) (t : State),
      symbols ⟨lexemes, stop⟩ = before.map symbol ++ place :: after ∧
      fault.offset = place.offset ∧ State.Steps s (before.map (·.item)) t ∧
      t.Stuck fault.item place.item := by
  induction lexemes generalizing s with
  | nil =>
    rw [State.run] at h
    cases hfinish : s.finish with
    | ok rule =>
      rw [hfinish] at h
      cases h
    | error e =>
      rw [hfinish] at h
      cases h
      exact ⟨[], ⟨none, stop⟩, [], s, rfl, rfl, .nil s, .stop hfinish⟩
  | cons token rest ih =>
    rw [State.run] at h
    cases hstep : s.step token.item with
    | ok next =>
      rw [hstep] at h
      obtain ⟨before, place, after, t, hsplit, hoffset, hsteps, hstuck⟩ := ih h
      refine ⟨token :: before, place, after, t, ?_, hoffset, .cons hstep hsteps, hstuck⟩
      exact congrArg (symbol token :: ·) hsplit
    | error e =>
      rw [hstep] at h
      cases h
      exact ⟨[], symbol token, symbols ⟨rest, stop⟩, s, rfl, rfl, .nil s, .token hstep⟩

/-- A text is refused at its first symbol with which no condition begins, its end included: neither
later nor at a symbol that a condition could have there. -/
theorem refused_at_first_unviable {scan : Scan Token} {fault : Located Fault}
    (h : readTokens scan = .error fault) :
    ∃ before place after, symbols scan = before ++ place :: after ∧
      fault.offset = place.offset ∧
      (fault.item = .tooDeep ∨
        ∃ expected, fault.item = .unexpectedToken expected place.item) ∧
      Viable (before.map (·.item)) ∧ ¬ Viable ((before ++ [place]).map (·.item)) := by
  obtain ⟨before, place, after, t, hsplit, hoffset, hsteps, hstuck⟩ := exists_stuck_of_run h
  have hitems : (before.map symbol).map (·.item) = (before.map (·.item)).map some := by
    simp [symbol, Function.comp_def]
  refine ⟨before.map symbol, place, after, hsplit, hoffset, ?_, ?_, ?_⟩
  · exact hstuck.fault_eq.imp_right fun hfault => ⟨t.expectation, hfault⟩
  · rw [hitems]
    exact viable_of_steps hsteps
  · rw [List.map_append, hitems]
    exact not_viable_of_stuck hsteps hstuck

def numberAfterNot : Scan Token := ⟨[⟨.name "a", 0⟩, ⟨.not, 2⟩, ⟨.int 3, 6⟩], 7⟩

theorem refused_numberAfterNot :
    readTokens numberAfterNot =
        .error ⟨.unexpectedToken .inOrEmptyAfterNot (some (.int 3)), 6⟩ ∧
      Viable [some (.name "a"), some .not] ∧
      ¬ Viable [some (.name "a"), some .not, some (.int 3)] := by
  have herror : readTokens numberAfterNot =
      .error ⟨.unexpectedToken .inOrEmptyAfterNot (some (.int 3)), 6⟩ := rfl
  obtain ⟨before, place, after, hsplit, hoffset, -, hviable, hnot⟩ :=
    refused_at_first_unviable herror
  have hbefore : before = [⟨some (.name "a"), 0⟩, ⟨some .not, 2⟩] ∧ place = ⟨some (.int 3), 6⟩ := by
    rcases before with _ | ⟨first, _ | ⟨second, _ | ⟨third, _ | ⟨fourth, before⟩⟩⟩⟩
    all_goals simp [symbols, numberAfterNot, symbol] at hsplit
    all_goals grind
  obtain ⟨rfl, rfl⟩ := hbefore
  exact ⟨herror, hviable, hnot⟩

end FormLogic.Condition
