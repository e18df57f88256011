import FormLogic.Proofs.Condition.Completeness

/-! The reader accepts no text but those that the grammar derives. At every token, what has been
read is accounted for by the groups that are open and by the comparison under way. -/

namespace FormLogic.Condition

/-- What has been read of a chain: nothing, or operands and the token that asks for one more. -/
inductive Begun (operands : List Rule → Phrase) (separator : Token) (depth : Nat) :
    List Rule → List Token → Prop
  | nothing : Begun operands separator depth [] []
  | more {rules : List Rule} {text : List Token} (read : Derives depth (operands rules) text) :
    Begun operands separator depth rules (text ++ [separator])

namespace Group

inductive Pending (depth : Nat) (g : Group) : List Token → Prop
  | intro {earlier current : List Token}
    (alternatives : Begun .disjunction .or depth g.alternatives.reverse earlier)
    (members : Begun .conjunction .and depth g.members.reverse current) :
    Pending depth g (earlier ++ current)

inductive Complete (depth : Nat) (g : Group) : List Token → Prop
  | intro {earlier current : List Token}
    (alternatives : Begun .disjunction .or depth g.alternatives.reverse earlier)
    (members : Derives depth (.conjunction g.members.reverse) current) :
    Complete depth g (earlier ++ current)

variable {depth : Nat} {g : Group} {text operand : List Token} {rule : Rule}

theorem pending_empty (depth : Nat) : Pending depth empty [] := by
  rw [← List.append_nil ([] : List Token)]
  exact .intro .nothing .nothing

theorem Pending.addMember (h : Pending depth g text)
    (hrule : Derives depth (.primary rule) operand) :
    Complete depth (g.addMember rule) (text ++ operand) := by
  obtain ⟨alternatives, members⟩ := h
  rw [List.append_assoc]
  refine .intro alternatives ?_
  rw [Group.addMember, List.reverse_cons]
  generalize g.members.reverse = rules at members
  cases members with
  | nothing => exact .firstMember hrule
  | more read =>
    rw [List.append_assoc]
    exact .nextMember read hrule

theorem Complete.nextMember (h : Complete depth g text) : Pending depth g (text ++ [.and]) := by
  obtain ⟨alternatives, members⟩ := h
  rw [List.append_assoc]
  exact .intro alternatives (.more members)

theorem Complete.derives (h : Complete depth g text) :
    Derives depth (.disjunction (chain .all g.members :: g.alternatives).reverse) text := by
  obtain ⟨alternatives, members⟩ := h
  rw [List.reverse_cons, chain_eq_joined]
  generalize g.alternatives.reverse = rules at alternatives
  cases alternatives with
  | nothing => exact .firstAlternative members
  | more read =>
    rw [List.append_assoc]
    exact .nextAlternative read members

theorem Complete.nextAlternative (h : Complete depth g text) :
    Pending depth g.nextAlternative (text ++ [.or]) := by
  rw [← List.append_nil (text ++ [Token.or])]
  exact .intro (.more h.derives) .nothing

theorem Complete.derives_rule (h : Complete depth g text) :
    ∃ rules, Derives depth (.disjunction rules) text ∧ g.rule = joined .any rules :=
  ⟨_, h.derives, chain_eq_joined .any _⟩

end Group

/-- What has been read before the innermost group, which may hold `depth` more open ones. -/
inductive Enclosed : Nat → List Group → List Token → Prop
  | outermost : Enclosed maxOpen [] []
  | inside {depth : Nat} {outer : List Group} {g : Group} {before text : List Token}
    (around : Enclosed (depth + 1) outer before) (pending : g.Pending (depth + 1) text) :
    Enclosed depth (g :: outer) (before ++ text ++ [.openParen])

theorem Enclosed.length_add {depth : Nat} {outer : List Group} {text : List Token}
    (h : Enclosed depth outer text) : outer.length + depth = maxOpen := by
  induction h with
  | outermost => exact Nat.zero_add maxOpen
  | inside around pending ih =>
    rw [List.length_cons]
    omega

inductive Opened : OpenArrays → List Token → Prop
  | whole : Opened [] []
  | firstItem {outer : OpenArrays} {before : List Token} (around : Opened outer before) :
    Opened ([] :: outer) (before ++ [.openBracket])
  | nextItem {items : List Value} {outer : OpenArrays} {before text : List Token}
    (around : Opened outer before) (read : DerivesValue (.items items.reverse) text) :
    Opened (items :: outer) (before ++ .openBracket :: (text ++ [.comma]))

inductive Partial : Stage → List Token → Prop
  | operand : Partial .operand []
  | field (name : String) : Partial (.field name) [.name name]
  | fieldNot (name : String) : Partial (.fieldNot name) [.name name, .not]
  | fieldIs (name : String) : Partial (.fieldIs name) [.name name, .is]
  | fieldIsNot (name : String) : Partial (.fieldIsNot name) [.name name, .is, .not]
  | value {op : Operator} {arrays : OpenArrays} {symbol text : List Token} (name : String)
    (operator : (symbol, op) ∈ operators) (takes : op.takesValue = true)
    (opened : Opened arrays text) :
    Partial (.value name op arrays) (.name name :: (symbol ++ text))
  | item {op : Operator} {items : List Value} {outer : OpenArrays}
    {symbol before text : List Token} (name : String) (operator : (symbol, op) ∈ operators)
    (takes : op.takesValue = true) (around : Opened outer before)
    (read : DerivesValue (.items items.reverse) text) :
    Partial (.item name op items outer)
      (.name name :: (symbol ++ (before ++ .openBracket :: text)))

namespace State

/-- What has been read when the reader is in a state. -/
inductive Reads : State → List Token → Prop
  | pending {depth : Nat} {stage : Stage} {group : Group} {outer : List Group}
    {before inside text : List Token} (around : Enclosed depth outer before)
    (pending : group.Pending depth inside) (comparison : Partial stage text) :
    Reads ⟨stage, group, outer⟩ (before ++ inside ++ text)
  | complete {depth : Nat} {group : Group} {outer : List Group} {before inside : List Token}
    (around : Enclosed depth outer before) (complete : group.Complete depth inside) :
    Reads ⟨.done, group, outer⟩ (before ++ inside)

theorem reads_start : Reads start [] := .pending .outermost (Group.pending_empty _) .operand

section

variable {depth : Nat} {stage : Stage} {group : Group} {outer : List Group} {name : String}
  {op : Operator} {arrays : OpenArrays} {v : Value} {before inside symbol text value : List Token}

theorem reads_complete {rule : Rule} (around : Enclosed depth outer before)
    (pending : group.Pending depth inside) (hrule : Derives depth (.primary rule) text) :
    Reads (complete ⟨stage, group, outer⟩ rule) (before ++ inside ++ text) := by
  rw [List.append_assoc]
  exact .complete around (pending.addMember hrule)

theorem reads_withOperator (around : Enclosed depth outer before)
    (pending : group.Pending depth inside) (operator : (symbol, op) ∈ operators) :
    Reads (withOperator ⟨stage, group, outer⟩ name op)
      (before ++ inside ++ .name name :: symbol) := by
  cases takes : op.takesValue with
  | false =>
    rw [withOperator, if_neg (by simp [takes])]
    exact reads_complete around pending (.emptiness name operator takes)
  | true =>
    rw [withOperator, if_pos takes, ← List.append_nil symbol]
    exact .pending around pending (.value name operator takes .whole)

theorem reads_withValue (around : Enclosed depth outer before)
    (pending : group.Pending depth inside) (operator : (symbol, op) ∈ operators)
    (takes : op.takesValue = true) (opened : Opened arrays text)
    (hvalue : DerivesValue (.value v) value) :
    Reads (withValue ⟨stage, group, outer⟩ name op v arrays)
      (before ++ inside ++ .name name :: (symbol ++ (text ++ value))) := by
  cases opened with
  | whole => exact reads_complete around pending (.comparison name operator takes hvalue)
  | @firstItem outer before enclosing =>
    have hitems : DerivesValue (.items [v].reverse) value := .firstItem hvalue
    have hreads := Reads.pending around pending (.item name operator takes enclosing hitems)
    simpa only [withValue, List.append_assoc, List.cons_append, List.nil_append] using hreads
  | @nextItem items outer before text enclosing read =>
    have hitems : DerivesValue (.items (v :: items).reverse) (text ++ .comma :: value) := by
      rw [List.reverse_cons]
      exact .nextItem read hvalue
    have hreads := Reads.pending around pending (.item name operator takes enclosing hitems)
    simpa only [withValue, List.append_assoc, List.cons_append, List.nil_append] using hreads

variable {t : State} {token : Token}

theorem reads_step_operand (around : Enclosed depth outer before)
    (pending : group.Pending depth inside) (h : step ⟨.operand, group, outer⟩ token = .ok t) :
    Reads t (before ++ inside ++ [token]) := by
  cases token with
  | name path =>
    cases h
    exact .pending around pending (.field path)
  | openParen =>
    have hlength := around.length_add
    simp only [step] at h
    split at h
    · cases h
    · cases h
      obtain ⟨inner, rfl⟩ : ∃ inner, depth = inner + 1 := ⟨depth - 1, by omega⟩
      have hreads := Reads.pending (.inside around pending) (Group.pending_empty inner) .operand
      simpa only [List.append_nil] using hreads
  | _ => cases h

theorem reads_step_field (around : Enclosed depth outer before)
    (pending : group.Pending depth inside)
    (h : step ⟨.field name, group, outer⟩ token = .ok t) :
    Reads t (before ++ inside ++ [.name name, token]) := by
  cases token with
  | not =>
    cases h
    exact .pending around pending (.fieldNot name)
  | is =>
    cases h
    exact .pending around pending (.fieldIs name)
  | equal | notEqual | greater | greaterOrEqual | less | lessOrEqual | isIn =>
    cases h
    exact reads_withOperator around pending (by simp [operators])
  | _ => cases h

theorem reads_step_value (around : Enclosed depth outer before)
    (pending : group.Pending depth inside) (operator : (symbol, op) ∈ operators)
    (takes : op.takesValue = true) (opened : Opened arrays text)
    (h : step ⟨.value name op arrays, group, outer⟩ token = .ok t) :
    Reads t (before ++ inside ++ .name name :: (symbol ++ (text ++ [token]))) := by
  cases token with
  | string s => cases h; exact reads_withValue around pending operator takes opened (.string s)
  | int n => cases h; exact reads_withValue around pending operator takes opened (.int n)
  | float x => cases h; exact reads_withValue around pending operator takes opened (.float x)
  | bool b => cases h; exact reads_withValue around pending operator takes opened (.bool b)
  | openBracket =>
    cases h
    exact .pending around pending (.value name operator takes (.firstItem opened))
  | closeBracket =>
    cases opened with
    | whole => cases h
    | firstItem enclosing =>
      cases h
      rw [List.append_assoc _ [Token.openBracket]]
      exact reads_withValue around pending operator takes enclosing .emptyArray
    | @nextItem items outer before text enclosing read =>
      cases items with
      | nil => exact absurd rfl read.ne_items_nil
      | cons item rest => cases h
  | _ => cases h

theorem reads_step_item {items : List Value} {opening : List Token} {enclosing : OpenArrays}
    (around : Enclosed depth outer before) (pending : group.Pending depth inside)
    (operator : (symbol, op) ∈ operators) (takes : op.takesValue = true)
    (opened : Opened enclosing opening) (read : DerivesValue (.items items.reverse) text)
    (h : step ⟨.item name op items enclosing, group, outer⟩ token = .ok t) :
    Reads t (before ++ inside ++
      .name name :: (symbol ++ (opening ++ .openBracket :: (text ++ [token])))) := by
  cases token with
  | comma =>
    cases h
    exact .pending around pending (.value name operator takes (.nextItem opened read))
  | closeBracket =>
    cases h
    exact reads_withValue around pending operator takes opened (.array read)
  | _ => cases h

theorem reads_step_pending (around : Enclosed depth outer before)
    (pending : group.Pending depth inside) (comparison : Partial stage text)
    (h : step ⟨stage, group, outer⟩ token = .ok t) :
    Reads t (before ++ inside ++ (text ++ [token])) := by
  cases comparison with
  | operand => exact reads_step_operand around pending h
  | field name => exact reads_step_field around pending h
  | fieldNot name =>
    cases token with
    | isIn | empty =>
      cases h
      exact reads_withOperator around pending (by simp [operators])
    | _ => cases h
  | fieldIs name =>
    cases token with
    | not =>
      cases h
      exact .pending around pending (.fieldIsNot name)
    | empty =>
      cases h
      exact reads_withOperator around pending (by simp [operators])
    | _ => cases h
  | fieldIsNot name =>
    cases token with
    | empty =>
      cases h
      exact reads_withOperator around pending (by simp [operators])
    | _ => cases h
  | @value op arrays symbol text name operator takes opened =>
    have hreads := reads_step_value around pending operator takes opened h
    simpa only [List.append_assoc, List.cons_append] using hreads
  | @item op items enclosing symbol opening text name operator takes opened read =>
    have hreads := reads_step_item around pending operator takes opened read h
    simpa only [List.append_assoc, List.cons_append] using hreads

theorem reads_step_complete (around : Enclosed depth outer before)
    (complete : group.Complete depth inside) (h : step ⟨.done, group, outer⟩ token = .ok t) :
    Reads t (before ++ (inside ++ [token])) := by
  cases token with
  | and =>
    cases h
    have hreads := Reads.pending around complete.nextMember .operand
    simpa only [List.append_nil] using hreads
  | or =>
    cases h
    have hreads := Reads.pending around complete.nextAlternative .operand
    simpa only [List.append_nil] using hreads
  | closeParen =>
    cases around with
    | outermost => cases h
    | @inside depth outer enclosing before opening around pending =>
      cases h
      obtain ⟨rules, hderives, hrule⟩ := complete.derives_rule
      have hprimary := Derives.parentheses hderives
      rw [← hrule] at hprimary
      have hreads := Reads.complete around (pending.addMember hprimary)
      simpa only [List.append_assoc, List.cons_append, List.nil_append] using hreads
  | _ => cases h

theorem reads_step {s : State} (hs : Reads s text) (h : s.step token = .ok t) :
    Reads t (text ++ [token]) := by
  cases hs with
  | pending around pending comparison =>
    rw [List.append_assoc]
    exact reads_step_pending around pending comparison h
  | complete around complete =>
    rw [List.append_assoc]
    exact reads_step_complete around complete h

theorem reads_of_steps {s : State} {more : List Token} (hs : Reads s text) (h : Steps s more t) :
    Reads t (text ++ more) := by
  induction h generalizing text with
  | nil s =>
    rw [List.append_nil]
    exact hs
  | cons first more ih =>
    have hreads := ih (reads_step hs first)
    rw [List.append_assoc] at hreads
    exact hreads

theorem writes_of_finish {rule : Rule} (ht : Reads t text) (h : t.finish = .ok rule) :
    Writes text rule := by
  cases ht with
  | pending around pending comparison => cases comparison <;> cases h
  | complete around complete =>
    cases around with
    | inside around pending => cases h
    | outermost =>
      cases h
      exact complete.derives_rule

end

end State

theorem writes_of_readTokens {scan : Scan Token} {rule : Rule} (h : readTokens scan = .ok rule) :
    Writes (scan.lexemes.map (·.item)) rule := by
  obtain ⟨t, hsteps, hfinish⟩ := State.run_eq_ok_iff.1 h
  exact State.writes_of_finish (State.reads_of_steps State.reads_start hsteps) hfinish

/-- The reader accepts exactly what the grammar derives, and gives the rule of the derivation. -/
theorem readTokens_eq_ok_iff (scan : Scan Token) (rule : Rule) :
    readTokens scan = .ok rule ↔ Writes (scan.lexemes.map (·.item)) rule := by
  constructor
  · exact writes_of_readTokens
  · exact readTokens_of_writes

theorem tokens_eq_ok_iff {text : String} {scan : Scan Token} :
    tokens text = .ok scan ↔ Token.scan text = .ok scan := by
  unfold tokens
  split
  · next found hfound => rw [hfound, Except.ok.injEq, Except.ok.injEq]
  · next fault hfault =>
    rw [hfault]
    exact ⟨nofun, nofun⟩

theorem exists_tokens_of_read {text : String} {rule : Rule} (h : read text = .ok rule) :
    ∃ scan, tokens text = .ok scan ∧ readTokens scan = .ok rule := by
  unfold read at h
  split at h
  · cases h
  · next scan htokens =>
    split at h
    · next hread =>
      cases h
      exact ⟨scan, htokens, hread⟩
    · cases h

end FormLogic.Condition
