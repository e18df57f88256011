import FormLogic.Proofs.Condition.Grammar

/-! The reader takes every text that the grammar derives, to the rule of the derivation. -/

namespace FormLogic.Condition

theorem joined_of_two_le {join : List Rule → Rule} {rules : List Rule} (h : 2 ≤ rules.length) :
    joined join rules = join rules := by
  rcases rules with _ | ⟨rule, _ | ⟨next, rest⟩⟩
  · simp at h
  · simp at h
  · rfl

theorem apply_joined {α : Type} {f : Rule → α} {ofAll : List Rule → α} {join : List Rule → Rule}
    (hsingle : ∀ rule, ofAll [rule] = f rule) (hjoin : ∀ rules, f (join rules) = ofAll rules)
    (rules : List Rule) : f (joined join rules) = ofAll rules := by
  match rules with
  | [] => exact hjoin []
  | [only] => exact (hsingle only).symm
  | first :: second :: others => exact hjoin _

theorem Group.chain_eq_joined (join : List Rule → Rule) (latest : List Rule) :
    chain join latest = joined join latest.reverse := by
  rcases latest with _ | ⟨rule, _ | ⟨next, rest⟩⟩
  · rfl
  · rfl
  · have hlen : 2 ≤ (rule :: next :: rest).reverse.length := by simp
    rw [joined_of_two_le hlen, chain]
    exact nofun

theorem Group.rule_eq_joined {group : Group} {rules : List Rule}
    (h : chain .all group.members :: group.alternatives = rules.reverse) :
    group.rule = joined .any rules := by
  rw [rule, h, chain_eq_joined, List.reverse_reverse]

namespace State

inductive Steps : State → List Token → State → Prop
  | nil (s : State) : Steps s [] s
  | cons {s t u : State} {token : Token} {rest : List Token} (first : s.step token = .ok t)
    (more : Steps t rest u) : Steps s (token :: rest) u

variable {s t u : State} {token : Token} {text after : List Token}

theorem Steps.single (h : s.step token = .ok t) : Steps s [token] t := .cons h (.nil t)

theorem Steps.append (h : Steps s text t) (h' : Steps t after u) : Steps s (text ++ after) u := by
  induction h with
  | nil s => exact h'
  | cons first more ih => exact .cons first (ih h')

theorem run_eq_ok_iff {stop : Nat} {lexemes : List (Located Token)} {rule : Rule} :
    run stop s lexemes = .ok rule ↔
      ∃ t, Steps s (lexemes.map (·.item)) t ∧ t.finish = .ok rule := by
  induction lexemes generalizing s with
  | nil =>
    have hrun : run stop s [] = .ok rule ↔ s.finish = .ok rule := by
      rw [run]
      cases s.finish <;> simp
    constructor
    · intro h
      exact ⟨s, .nil s, hrun.1 h⟩
    · rintro ⟨t, hsteps, hfinish⟩
      cases hsteps
      exact hrun.2 hfinish
  | cons token rest ih =>
    rw [run]
    constructor
    · intro h
      cases hstep : s.step token.item with
      | error fault =>
        rw [hstep] at h
        cases h
      | ok next =>
        rw [hstep] at h
        obtain ⟨t, hsteps, hfinish⟩ := ih.1 h
        exact ⟨t, .cons hstep hsteps, hfinish⟩
    · rintro ⟨t, hsteps, hfinish⟩
      cases hsteps with
      | cons first more =>
        rw [first]
        exact ih.2 ⟨t, more, hfinish⟩

section

variable {name : String} {op : Operator} {symbol : List Token} {group : Group} {outer : List Group}

theorem steps_operator (h : (symbol, op) ∈ operators) :
    Steps ⟨.field name, group, outer⟩ symbol
      (withOperator ⟨.field name, group, outer⟩ name op) := by
  simp only [operators, List.mem_cons, Prod.mk.injEq, List.not_mem_nil, or_false] at h
  rcases h with ⟨rfl, rfl⟩ | ⟨rfl, rfl⟩ | ⟨rfl, rfl⟩ | ⟨rfl, rfl⟩ | ⟨rfl, rfl⟩ | ⟨rfl, rfl⟩ |
    ⟨rfl, rfl⟩ | ⟨rfl, rfl⟩ | ⟨rfl, rfl⟩ | ⟨rfl, rfl⟩ | ⟨rfl, rfl⟩
  iterate 7 exact .single rfl
  iterate 3 exact .cons rfl (.single rfl)
  exact .cons rfl (.cons rfl (.single rfl))

/-- Over this text the reader takes in the value, or all items of an innermost array. -/
def TakesValue (name : String) (op : Operator) (group : Group) (outer : List Group)
    (text : List Token) : ValuePhrase → Prop
  | .value v => ∀ arrays, Steps ⟨.value name op arrays, group, outer⟩ text
      (withValue ⟨.value name op arrays, group, outer⟩ name op v arrays)
  | .items vs => ∀ around, Steps ⟨.value name op ([] :: around), group, outer⟩ text
      ⟨.item name op vs.reverse around, group, outer⟩

theorem takesValue_of_derives {phrase : ValuePhrase} (h : DerivesValue phrase text) :
    TakesValue name op group outer text phrase := by
  induction h with
  | string s => exact fun arrays => .single rfl
  | int n => exact fun arrays => .single rfl
  | float x => exact fun arrays => .single rfl
  | bool b => exact fun arrays => .single rfl
  | emptyArray => exact fun arrays => .cons rfl (.single rfl)
  | @array vs text items ih =>
    intro arrays
    have hclose : step ⟨.item name op vs.reverse arrays, group, outer⟩ .closeBracket =
        .ok (withValue ⟨.value name op arrays, group, outer⟩ name op (.array vs) arrays) := by
      simp only [step, List.reverse_reverse]
      cases arrays <;> rfl
    exact .cons rfl ((ih arrays).append (.single hclose))
  | firstItem first ih => exact fun around => ih ([] :: around)
  | @nextItem vs v before text items next ihItems ihNext =>
    intro around
    have hnext := ihNext (vs.reverse :: around)
    rw [List.reverse_append]
    exact (ihItems around).append (.cons rfl hnext)

end

/-- Over this text, at most `depth` more parentheses deep, the reader takes in the rule, or all
operands of a chain. -/
def Takes (depth : Nat) (text : List Token) : Phrase → Prop
  | .primary operand => ∀ group outer, outer.length + depth ≤ maxOpen →
      Steps ⟨.operand, group, outer⟩ text ⟨.done, group.addMember operand, outer⟩
  | .conjunction rules => ∀ alternatives outer, outer.length + depth ≤ maxOpen →
      Steps ⟨.operand, ⟨alternatives, []⟩, outer⟩ text ⟨.done, ⟨alternatives, rules.reverse⟩, outer⟩
  | .disjunction rules => ∀ outer, outer.length + depth ≤ maxOpen → ∃ group : Group,
      Group.chain .all group.members :: group.alternatives = rules.reverse ∧
      Steps ⟨.operand, .empty, outer⟩ text ⟨.done, group, outer⟩

theorem takes_of_derives {depth : Nat} {phrase : Phrase} (h : Derives depth phrase text) :
    Takes depth text phrase := by
  -- on the derivation; what is open around it is arbitrary, up to the bound
  induction h with
  | @comparison depth op v symbol text name operator takes value =>
    intro group outer hdepth
    have hoperator : Steps ⟨.field name, group, outer⟩ symbol _ := steps_operator operator
    rw [withOperator, if_pos takes] at hoperator
    exact .cons rfl (hoperator.append (takesValue_of_derives value []))
  | @emptiness depth op symbol name operator takes =>
    intro group outer hdepth
    have hoperator : Steps ⟨.field name, group, outer⟩ symbol _ := steps_operator operator
    rw [withOperator, if_neg (by simp [takes])] at hoperator
    exact .cons rfl hoperator
  | @parentheses depth rules text inside ih =>
    intro group outer hdepth
    have hroom : outer.length ≠ maxOpen := by omega
    have hopen : step ⟨.operand, group, outer⟩ .openParen =
        .ok ⟨.operand, .empty, group :: outer⟩ := if_neg hroom
    obtain ⟨inner, hinner, hsteps⟩ := ih (group :: outer) (by simp only [List.length_cons]; omega)
    rw [← Group.rule_eq_joined hinner]
    exact .cons hopen (hsteps.append (.single rfl))
  | firstMember first ih =>
    intro alternatives outer hdepth
    exact ih ⟨alternatives, []⟩ outer hdepth
  | @nextMember depth rules rule before text members next ihMembers ihNext =>
    intro alternatives outer hdepth
    have hnext := ihNext ⟨alternatives, rules.reverse⟩ outer hdepth
    rw [List.reverse_append]
    exact (ihMembers alternatives outer hdepth).append (.cons rfl hnext)
  | @firstAlternative depth members text first ih =>
    intro outer hdepth
    refine ⟨⟨[], members.reverse⟩, ?_, ih [] outer hdepth⟩
    rw [Group.chain_eq_joined, List.reverse_reverse]
    rfl
  | @nextAlternative depth rules members before text alternatives next ihAlternatives ihNext =>
    intro outer hdepth
    obtain ⟨group, hgroup, hsteps⟩ := ihAlternatives outer hdepth
    have hor : step ⟨.done, group, outer⟩ .or = .ok ⟨.operand, ⟨rules.reverse, []⟩, outer⟩ := by
      rw [← hgroup]
      rfl
    refine ⟨⟨rules.reverse, members.reverse⟩, ?_, ?_⟩
    · rw [Group.chain_eq_joined, List.reverse_reverse, List.reverse_append]
      rfl
    · exact hsteps.append (.cons hor (ihNext rules.reverse outer hdepth))

end State

theorem readTokens_of_writes {scan : Scan Token} {rule : Rule}
    (h : Writes (scan.lexemes.map (·.item)) rule) : readTokens scan = .ok rule := by
  obtain ⟨rules, hderives, rfl⟩ := h
  obtain ⟨group, hgroup, hsteps⟩ := State.takes_of_derives hderives [] (Nat.le_of_eq (by simp))
  rw [← Group.rule_eq_joined hgroup]
  exact State.run_eq_ok_iff.2 ⟨_, hsteps, rfl⟩

theorem Writes.unique {tokens : List Token} {rule other : Rule} (h : Writes tokens rule)
    (h' : Writes tokens other) : rule = other := by
  have hitems : (tokens.map fun token => (⟨token, 0⟩ : Located Token)).map (·.item) = tokens := by
    simp [Function.comp_def]
  rw [← hitems] at h h'
  have hread : readTokens ⟨tokens.map fun token => ⟨token, 0⟩, 0⟩ = .ok rule :=
    readTokens_of_writes h
  have hother : readTokens ⟨tokens.map fun token => ⟨token, 0⟩, 0⟩ = .ok other :=
    readTokens_of_writes h'
  exact Except.ok.inj (hread.symm.trans hother)

end FormLogic.Condition
