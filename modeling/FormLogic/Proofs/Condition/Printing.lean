import FormLogic.Proofs.Condition.Soundness
import FormLogic.Proofs.Condition.Spelling
import FormLogic.Proofs.Rule.Reduced

/-! Printing a rule and reading it back. The text of a rule derives its reduced form, as long as its
groups nest no deeper than parentheses may. -/

namespace FormLogic.Condition

section

variable {depth : Nat}

theorem derivesValue_moreValueTokens {before : List Value} {text : List Token}
    (h : DerivesValue (.items before) text) {rest : List Value}
    (hrest : ∀ v ∈ rest, DerivesValue (.value v) (valueTokens v)) :
    DerivesValue (.items (before ++ rest)) (text ++ moreValueTokens rest) := by
  induction rest generalizing before text with
  | nil => rwa [moreValueTokens, List.append_nil, List.append_nil]
  | cons v rest ih =>
    obtain ⟨hv, hmore⟩ := List.forall_mem_cons.1 hrest
    have hall := ih (.nextItem h hv) hmore
    rw [moreValueTokens]
    simpa only [List.append_assoc, List.cons_append, List.nil_append] using hall

theorem derivesValue_valueTokens {v : Value} (h : v.Expressible) :
    DerivesValue (.value v) (valueTokens v) := by
  induction h with
  | bool b => exact .bool b
  | int n => exact .int n
  | @float x hx => exact .float x
  | string s => exact .string s
  | @array items h ih =>
    cases items with
    | nil => exact .emptyArray
    | cons v rest =>
      obtain ⟨hv, hrest⟩ := List.forall_mem_cons.1 ih
      exact .array (derivesValue_moreValueTokens (.firstItem hv) hrest)

theorem mem_operators {op : Operator} (h : op ≠ .unknown) : (operatorTokens op, op) ∈ operators := by
  cases op with
  | unknown => exact absurd rfl h
  | _ => simp [operators, operatorTokens]

theorem derives_moreRules {chain : List Rule → Phrase} {connective : Token}
    (hnext : ∀ {before : List Rule} {rule : Rule} {text own : List Token},
      Derives depth (chain before) text → Derives depth (.primary rule) own →
        Derives depth (chain (before ++ [rule])) (text ++ connective :: own))
    {before : List Rule} {text : List Token} (h : Derives depth (chain before) text)
    {rules : List Rule}
    (hrules : ∀ rule ∈ rules, Derives depth (.primary rule.reduced) (ruleTokens rule)) :
    Derives depth (chain (before ++ Rule.reducedAll rules))
      (text ++ moreRuleTokens connective rules) := by
  induction rules generalizing before text with
  | nil => rwa [moreRuleTokens, Rule.reducedAll, List.append_nil, List.append_nil]
  | cons rule rules ih =>
    obtain ⟨hrule, hmore⟩ := List.forall_mem_cons.1 hrules
    have hall := ih (hnext h hrule) hmore
    rw [moreRuleTokens, Rule.reducedAll]
    simpa only [List.append_assoc, List.cons_append, List.nil_append] using hall

theorem derives_members {rules : List Rule}
    (h : ∀ rule ∈ rules, ∀ {depth : Nat}, rule.nesting ≤ depth →
      Derives depth (.primary rule.reduced) (ruleTokens rule))
    (hnesting : Rule.nestingOfAll rules + 1 ≤ depth) :
    ∃ inner, depth = inner + 1 ∧
      ∀ rule ∈ rules, Derives inner (.primary rule.reduced) (ruleTokens rule) := by
  refine ⟨depth - 1, by omega, fun rule hrule => h rule hrule ?_⟩
  have hmember := Rule.nesting_le_nestingOfAll hrule
  omega

theorem derives_ruleTokens {rule : Rule} (h : rule.Expressible) (hnesting : rule.nesting ≤ depth) :
    Derives depth (.primary rule.reduced) (ruleTokens rule) := by
  induction h generalizing depth with
  | @compare field op value hfield hop hvalue =>
    have hoperator := mem_operators hop
    cases htakes : op.takesValue with
    | false =>
      have hall : Derives depth _ _ := .emptiness field hoperator htakes
      cases value <;> simpa [Rule.reduced, ruleTokens, htakes] using hall
    | true =>
      obtain ⟨v, rfl, hv⟩ := hvalue htakes
      have hall : Derives depth _ _ :=
        .comparison field hoperator htakes (derivesValue_valueTokens hv)
      simpa [Rule.reduced, ruleTokens, htakes] using hall
  | @all rules hne h ih =>
    obtain ⟨rule, rules, rfl⟩ := List.exists_cons_of_ne_nil hne
    obtain ⟨inner, rfl, hmembers⟩ := derives_members ih hnesting
    obtain ⟨hrule, hrules⟩ := List.forall_mem_cons.1 hmembers
    exact .parentheses (.firstAlternative
      (derives_moreRules .nextMember (.firstMember hrule) hrules))
  | @any rules hne h ih =>
    obtain ⟨rule, rules, rfl⟩ := List.exists_cons_of_ne_nil hne
    obtain ⟨inner, rfl, hmembers⟩ := derives_members ih hnesting
    obtain ⟨hrule, hrules⟩ := List.forall_mem_cons.1 hmembers
    exact .parentheses (derives_moreRules (fun h hnext => .nextAlternative h (.firstMember hnext))
      (.firstAlternative (.firstMember hrule)) hrules)

end

theorem tokens_of_spells {text : List Char} {written : List Token} (h : Spells text written) :
    ∃ scan, tokens (String.ofList text) = .ok scan ∧ scan.lexemes.map (·.item) = written := by
  obtain ⟨scan, hrun, hitems⟩ := Scan.exists_run_of_cuts h.cuts 0
  refine ⟨scan, ?_, hitems⟩
  rw [tokens, Token.scan, Scan.ofString, String.toList_ofList, hrun]

theorem tokens_text {rule : Rule} (h : rule.Expressible) :
    ∃ scan, tokens rule.text = .ok scan ∧ scan.lexemes.map (·.item) = ruleTokens rule :=
  tokens_of_spells (spells_rule h)

theorem read_text_eq_reduced {rule : Rule} (h : rule.Expressible)
    (hnesting : rule.nesting ≤ maxOpen) : read rule.text = .ok rule.reduced := by
  obtain ⟨scan, htokens, hitems⟩ := tokens_text h
  have hwrites : Writes (scan.lexemes.map (·.item)) rule.reduced := by
    rw [hitems]
    exact ⟨[rule.reduced], .firstAlternative (.firstMember (derives_ruleTokens h hnesting)), rfl⟩
  simp only [read, htokens, readTokens_of_writes hwrites]

/-- A rule that conditions can express is read back from its text as its reduced form, which holds
of the same snapshots. -/
theorem read_text_of_expressible {rule : Rule} (h : rule.Expressible)
    (hnesting : rule.nesting ≤ maxOpen) :
    read rule.text = .ok rule.reduced ∧ ∀ s, rule.reduced.holds s = rule.holds s :=
  ⟨read_text_eq_reduced h hnesting, fun s => Rule.holds_reduced s rule⟩

def mixedRule : Rule :=
  .any [
    .all [.compare "order.total" .greaterOrEqual (some (.int (-5)))],
    .all [.compare "tags" .notIn (some (.array [.string "a\"b\n", .float (.finite true 1)])),
      .compare "_x1" .isEmpty (some .null)]]

theorem expressible_mixedRule : mixedRule.Expressible := by
  have htotal : IsFieldName "order.total" :=
    ⟨@Lexeme.IsName.dotted 'o' "rder".toList _ rfl (List.all_eq_true.1 (by decide))
      (Lexeme.isName_of_all rfl (by decide)), by decide⟩
  have htags : IsFieldName "tags" := ⟨Lexeme.isName_of_all rfl (by decide), by decide⟩
  have hx : IsFieldName "_x1" := ⟨Lexeme.isName_of_all rfl (by decide), by decide⟩
  have hitems : (Value.array [.string "a\"b\n", .float (.finite true 1)]).Expressible :=
    .array (List.forall_mem_cons.2
      ⟨.string _, List.forall_mem_cons.2 ⟨.float rfl, List.forall_mem_nil _⟩⟩)
  have htotalRule : (Rule.compare "order.total" .greaterOrEqual (some (.int (-5)))).Expressible :=
    .compare htotal (by decide) fun _ => ⟨_, rfl, .int _⟩
  have htagsRule : (Rule.compare "tags" .notIn
      (some (.array [.string "a\"b\n", .float (.finite true 1)]))).Expressible :=
    .compare htags (by decide) fun _ => ⟨_, rfl, hitems⟩
  have hxRule : (Rule.compare "_x1" .isEmpty (some .null)).Expressible :=
    .compare hx (by decide) fun h => absurd h (by decide)
  have hgroup : (Rule.all [.compare "order.total" .greaterOrEqual (some (.int (-5)))]).Expressible :=
    .all (List.cons_ne_nil _ _) (List.forall_mem_singleton.2 htotalRule)
  refine .any (List.cons_ne_nil _ _) (List.forall_mem_cons.2 ⟨hgroup, List.forall_mem_singleton.2 ?_⟩)
  exact .all (List.cons_ne_nil _ _)
    (List.forall_mem_cons.2 ⟨htagsRule, List.forall_mem_singleton.2 hxRule⟩)

theorem read_text_mixedRule :
    (mixedRule.Expressible ∧ mixedRule.nesting ≤ maxOpen) ∧
      read mixedRule.text = .ok (.any [
        .compare "order.total" .greaterOrEqual (some (.int (-5))),
        .all [.compare "tags" .notIn (some (.array [.string "a\"b\n", .float (.finite true 1)])),
          .compare "_x1" .isEmpty none]]) :=
  ⟨⟨expressible_mixedRule, by decide⟩,
    (read_text_of_expressible expressible_mixedRule (by decide)).1⟩

end FormLogic.Condition
