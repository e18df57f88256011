import FormLogic.Proofs.Condition.Printing

/-! Printing what has been read. Every rule that the reader gives is in reduced form and can be
written again, but each of its groups has a parenthesis of its own in its text, also where the text
it was read from had none: past the bound on open parentheses the new text is refused. -/

namespace FormLogic.Condition

namespace State

inductive Refuses (fault : Fault) : State → List Token → Prop
  | now {s : State} {token : Token} {rest : List Token} (h : s.step token = .error fault) :
    Refuses fault s (token :: rest)
  | later {s t : State} {token : Token} {rest : List Token} (first : s.step token = .ok t)
    (more : Refuses fault t rest) : Refuses fault s (token :: rest)

variable {fault : Fault} {s t : State} {text after : List Token}

theorem Refuses.append (h : Refuses fault s text) (after : List Token) :
    Refuses fault s (text ++ after) := by
  induction h with
  | now h => exact .now h
  | later first more ih => exact .later first ih

theorem Steps.refuses (h : Steps s text t) (h' : Refuses fault t after) :
    Refuses fault s (text ++ after) := by
  induction h with
  | nil s => exact h'
  | cons first more ih => exact .later first (ih h')

theorem exists_run_of_refuses {lexemes : List (Located Token)}
    (h : Refuses fault s (lexemes.map (·.item))) (stop : Nat) :
    ∃ offset, run stop s lexemes = .error ⟨fault, offset⟩ := by
  generalize htokens : lexemes.map (·.item) = tokens at h
  induction h generalizing lexemes with
  | now h =>
    obtain ⟨token, rest, rfl, rfl, rfl⟩ := List.map_eq_cons_iff.1 htokens
    exact ⟨token.offset, by rw [run, h]⟩
  | later first more ih =>
    obtain ⟨token, rest, rfl, rfl, rfl⟩ := List.map_eq_cons_iff.1 htokens
    obtain ⟨offset, hrun⟩ := ih rfl
    exact ⟨offset, by rw [run, first]; exact hrun⟩

theorem refuses_members {connective : Token} {outer : List Group}
    (hconnective : ∀ group, ∃ next, step ⟨.done, group, outer⟩ connective =
      .ok ⟨.operand, next, outer⟩) (houter : outer.length ≤ maxOpen) {first : Rule}
    {others : List Rule} (hexpressible : ∀ rule ∈ first :: others, rule.Expressible)
    (hmembers : ∀ rule ∈ first :: others, maxOpen < outer.length + rule.nesting →
      ∀ group, Refuses .tooDeep ⟨.operand, group, outer⟩ (ruleTokens rule))
    (hdeep : maxOpen < outer.length + Rule.nestingOfAll (first :: others)) (group : Group) :
    Refuses .tooDeep ⟨.operand, group, outer⟩
      (ruleTokens first ++ moreRuleTokens connective others) := by
  induction others generalizing first group with
  | nil =>
    rw [Rule.nestingOfAll, Rule.nestingOfAll, Nat.max_zero] at hdeep
    exact (hmembers first List.mem_cons_self hdeep group).append _
  | cons next others ih =>
    -- up to the first rule that nests too deep, all are read whole
    by_cases hfirst : maxOpen < outer.length + first.nesting
    · exact (hmembers first List.mem_cons_self hfirst group).append _
    · have htakes : Takes (maxOpen - outer.length) _ _ := takes_of_derives
        (derives_ruleTokens (hexpressible first List.mem_cons_self) (by omega))
      obtain ⟨after, hstep⟩ := hconnective (group.addMember first.reduced)
      have hmore : maxOpen < outer.length + Rule.nestingOfAll (next :: others) := by
        rw [Rule.nestingOfAll] at hdeep
        omega
      have hrest := ih (fun rule hrule => hexpressible rule (List.mem_cons_of_mem _ hrule))
        (fun rule hrule => hmembers rule (List.mem_cons_of_mem _ hrule)) hmore after
      exact (htakes group outer (by omega)).refuses (.later hstep hrest)

theorem refuses_group {connective : Token} {outer : List Group}
    (hconnective : ∀ group outer, ∃ next, step ⟨.done, group, outer⟩ connective =
      .ok ⟨.operand, next, outer⟩) {first : Rule} {others : List Rule}
    (hexpressible : ∀ rule ∈ first :: others, rule.Expressible)
    (hmembers : ∀ rule ∈ first :: others, ∀ {outer : List Group}, outer.length ≤ maxOpen →
      maxOpen < outer.length + rule.nesting →
      ∀ group, Refuses .tooDeep ⟨.operand, group, outer⟩ (ruleTokens rule))
    (houter : outer.length ≤ maxOpen)
    (hdeep : maxOpen < outer.length + (Rule.nestingOfAll (first :: others) + 1)) (group : Group) :
    Refuses .tooDeep ⟨.operand, group, outer⟩
      (.openParen :: (ruleTokens first ++ moreRuleTokens connective others ++ [.closeParen])) := by
  by_cases hfull : outer.length = maxOpen
  · exact .now (if_pos hfull)
  · have hlength : (group :: outer).length ≤ maxOpen := by
      rw [List.length_cons]
      omega
    refine .later (if_neg hfull) (Refuses.append ?_ _)
    refine refuses_members (fun g => hconnective g _) hlength hexpressible
      (fun rule hrule => hmembers rule hrule hlength) ?_ .empty
    rw [List.length_cons]
    omega

theorem refuses_ruleTokens {rule : Rule} (h : rule.Expressible) {outer : List Group}
    (houter : outer.length ≤ maxOpen) (hdeep : maxOpen < outer.length + rule.nesting)
    (group : Group) : Refuses .tooDeep ⟨.operand, group, outer⟩ (ruleTokens rule) := by
  induction h generalizing outer group with
  | @compare field op value hfield hop hvalue =>
    rw [Rule.nesting] at hdeep
    omega
  | @all rules hne h ih =>
    obtain ⟨first, others, rfl⟩ := List.exists_cons_of_ne_nil hne
    exact refuses_group (fun group outer => ⟨group, rfl⟩) h ih houter hdeep group
  | @any rules hne h ih =>
    obtain ⟨first, others, rfl⟩ := List.exists_cons_of_ne_nil hne
    exact refuses_group (fun group outer => ⟨group.nextAlternative, rfl⟩) h ih houter hdeep group

end State

theorem read_text_eq_tooDeep {rule : Rule} (h : rule.Expressible)
    (hnesting : maxOpen < rule.nesting) :
    ∃ offset, read rule.text = .error ⟨.tooDeep, offset, rule.text⟩ := by
  obtain ⟨scan, htokens, hitems⟩ := tokens_text h
  have hrefuses : State.Refuses .tooDeep .start (scan.lexemes.map (·.item)) := by
    rw [hitems]
    exact State.refuses_ruleTokens h (Nat.zero_le _) (by simpa using hnesting) .empty
  obtain ⟨offset, hrun⟩ := State.exists_run_of_refuses hrefuses scan.stop
  exact ⟨offset, by simp only [read, htokens, readTokens, hrun]⟩

def Token.IsWritable : Token → Prop
  | .name field => IsFieldName field
  | .float x => x.isFinite = true
  | _ => True

def ValuePhrase.Expressible : ValuePhrase → Prop
  | .value v => v.Expressible
  | .items vs => ∀ v ∈ vs, v.Expressible

theorem ne_unknown_of_mem_operators {op : Operator} {symbol : List Token}
    (h : (symbol, op) ∈ operators) : op ≠ .unknown := by
  rintro rfl
  simp [operators] at h

theorem expressible_of_derivesValue {phrase : ValuePhrase} {text : List Token}
    (h : DerivesValue phrase text) (htext : ∀ token ∈ text, token.IsWritable) :
    phrase.Expressible := by
  induction h with
  | string s => exact .string s
  | int n => exact .int n
  | float x => exact .float (htext _ List.mem_cons_self)
  | bool b => exact .bool b
  | emptyArray => exact .array (List.forall_mem_nil _)
  | array items ih =>
    exact .array (ih fun token h =>
      htext token (List.mem_cons_of_mem _ (List.mem_append_left _ h)))
  | firstItem first ih => exact List.forall_mem_singleton.2 (ih htext)
  | nextItem items next ihItems ihNext =>
    have hnext := ihNext fun token h =>
      htext token (List.mem_append_right _ (List.mem_cons_of_mem _ h))
    exact List.forall_mem_append.2
      ⟨ihItems fun token h => htext token (List.mem_append_left _ h),
        List.forall_mem_singleton.2 hnext⟩

/-- The rule can be written, and its text is read as the rule itself. -/
structure Canonical (rule : Rule) : Prop where
  expressible : rule.Expressible
  reduced_eq : rule.reduced = rule

theorem reducedAll_eq {rules : List Rule} (h : ∀ rule ∈ rules, Canonical rule) :
    Rule.reducedAll rules = rules := by
  rw [Rule.reducedAll_eq_map]
  exact (List.map_congr_left fun rule hrule => (h rule hrule).reduced_eq).trans (List.map_id rules)

theorem canonical_joined {join : List Rule → Rule}
    (hexpressible : ∀ {rules : List Rule}, rules ≠ [] → (∀ rule ∈ rules, rule.Expressible) →
      (join rules).Expressible)
    (hreduced : ∀ rules, (join rules).reduced = joined join (Rule.reducedAll rules))
    {rules : List Rule} (hne : rules ≠ []) (h : ∀ rule ∈ rules, Canonical rule) :
    Canonical (joined join rules) := by
  match rules, hne with
  | [only], hne => exact h only List.mem_cons_self
  | first :: second :: others, hne =>
    refine ⟨hexpressible hne fun rule hrule => (h rule hrule).expressible, ?_⟩
    rw [joined_of_two_le (by simp), hreduced, reducedAll_eq h, joined_of_two_le (by simp)]

def Phrase.Canonical : Phrase → Prop
  | .primary r => Condition.Canonical r
  | .conjunction rules | .disjunction rules =>
    rules ≠ [] ∧ ∀ rule ∈ rules, Condition.Canonical rule

theorem canonical_of_derives {depth : Nat} {phrase : Phrase} {text : List Token}
    (h : Derives depth phrase text) (htext : ∀ token ∈ text, token.IsWritable) :
    phrase.Canonical := by
  induction h with
  | @comparison depth op v symbol text name operator takes value =>
    have hfield : IsFieldName name := htext _ List.mem_cons_self
    have hv : v.Expressible := expressible_of_derivesValue value fun token h =>
      htext token (List.mem_cons_of_mem _ (List.mem_append_right _ h))
    have hop : op ≠ .unknown := ne_unknown_of_mem_operators operator
    refine ⟨.compare hfield hop fun _ => ⟨v, rfl, hv⟩, ?_⟩
    rw [Rule.reduced, if_pos takes]
  | @emptiness depth op symbol name operator takes =>
    have hfield : IsFieldName name := htext _ List.mem_cons_self
    have hop : op ≠ .unknown := ne_unknown_of_mem_operators operator
    refine ⟨.compare hfield hop fun h => absurd (takes.symm.trans h) Bool.false_ne_true, ?_⟩
    rw [Rule.reduced, ite_self]
  | parentheses inside ih =>
    obtain ⟨hne, hrules⟩ := ih fun token h =>
      htext token (List.mem_cons_of_mem _ (List.mem_append_left _ h))
    exact canonical_joined .any (fun _ => rfl) hne hrules
  | firstMember first ih => exact ⟨List.cons_ne_nil _ _, List.forall_mem_singleton.2 (ih htext)⟩
  | nextMember members next ihMembers ihNext =>
    obtain ⟨hne, hrules⟩ := ihMembers fun token h => htext token (List.mem_append_left _ h)
    have hnext := ihNext fun token h =>
      htext token (List.mem_append_right _ (List.mem_cons_of_mem _ h))
    exact ⟨List.append_ne_nil_of_left_ne_nil hne _,
      List.forall_mem_append.2 ⟨hrules, List.forall_mem_singleton.2 hnext⟩⟩
  | firstAlternative first ih =>
    obtain ⟨hne, hrules⟩ := ih htext
    exact ⟨List.cons_ne_nil _ _,
      List.forall_mem_singleton.2 (canonical_joined .all (fun _ => rfl) hne hrules)⟩
  | nextAlternative alternatives next ihAlternatives ihNext =>
    obtain ⟨hne, hrules⟩ := ihAlternatives fun token h => htext token (List.mem_append_left _ h)
    obtain ⟨hnextNe, hnext⟩ := ihNext fun token h =>
      htext token (List.mem_append_right _ (List.mem_cons_of_mem _ h))
    exact ⟨List.append_ne_nil_of_left_ne_nil hne _, List.forall_mem_append.2
      ⟨hrules, List.forall_mem_singleton.2 (canonical_joined .all (fun _ => rfl) hnextNe hnext)⟩⟩

def HasFiniteNumbers (text : String) : Prop :=
  ∀ scan, tokens text = .ok scan → ∀ found ∈ scan.lexemes, ∀ x, found.item = .float x →
    x.isFinite = true

theorem eq_of_ofWord_eq_name {word field : String} (h : Token.ofWord word = .name field) :
    field = word ∧ word ∉ reservedWords := by
  unfold Token.ofWord at h
  split at h
  iterate 6 cases h
  next =>
    cases h
    exact ⟨rfl, by simp_all [reservedWords]⟩

theorem ofLiteral_ne_name {negative : Bool} {literal : Lexeme.Literal} {owned n : Nat}
    {field : String} : Token.ofLiteral negative literal owned ≠ .ok (.name field, n) := by
  unfold Token.ofLiteral
  intro h
  split at h
  · next number hvalue => cases number <;> cases h
  · cases h

theorem ofSymbol?_ne_name {c : Char} {rest : List Char} {field : String} {n : Nat} :
    Token.ofSymbol? c rest ≠ some (.name field, n) := by
  unfold Token.ofSymbol?
  split <;> exact nofun

theorem isFieldName_of_read {c : Char} {rest : List Char} {field : String} {owned : Nat}
    (h : Token.read c rest = .ok (.name field, owned)) : IsFieldName field := by
  unfold Token.read at h
  split at h
  · split at h <;> cases h
  · split at h
    · exact absurd h ofLiteral_ne_name
    · split at h
      · next hstart =>
        obtain ⟨hword, -⟩ := Prod.mk.inj (Except.ok.inj h)
        obtain ⟨rfl, hreserved⟩ := eq_of_ofWord_eq_name hword
        refine ⟨?_, hreserved⟩
        rw [String.toList_ofList]
        exact Lexeme.isName_nameRest hstart rest
      · split at h
        · split at h
          · exact absurd h ofLiteral_ne_name
          · cases h
        · split at h
          · next found hfound =>
            cases h
            exact absurd hfound ofSymbol?_ne_name
          · cases h

theorem isWritable_of_tokens {text : String} (hfinite : HasFiniteNumbers text)
    {scan : Scan Token} (h : tokens text = .ok scan) :
    ∀ token ∈ scan.lexemes.map (·.item), token.IsWritable := by
  intro token htoken
  obtain ⟨found, hfound, rfl⟩ := List.mem_map.1 htoken
  have hscan := tokens_eq_ok_iff.1 h
  obtain ⟨-, c, rest, -, -, owned, hread⟩ := Scan.holdsAt_of_mem hscan hfound
  cases hitem : found.item with
  | name field =>
    rw [hitem] at hread
    exact isFieldName_of_read hread
  | float x => exact hfinite scan h found hfound x hitem
  | _ => trivial

theorem canonical_of_read {text : String} (hfinite : HasFiniteNumbers text) {rule : Rule}
    (h : read text = .ok rule) : Canonical rule := by
  obtain ⟨scan, htokens, hread⟩ := exists_tokens_of_read h
  obtain ⟨rules, hderives, rfl⟩ := writes_of_readTokens hread
  obtain ⟨hne, hrules⟩ := canonical_of_derives hderives (isWritable_of_tokens hfinite htokens)
  exact canonical_joined .any (fun _ => rfl) hne hrules

def alternatingChars (n : Nat) : List Char :=
  (List.replicate n "a is empty || a is empty && (".toList).flatten ++ "a is empty".toList ++
    List.replicate n ')'

def alternatingText (n : Nat) : String := String.ofList (alternatingChars n)

def alternating : Nat → Rule
  | 0 => .compare "a" .isEmpty none
  | n + 1 =>
    .any [.compare "a" .isEmpty none, .all [.compare "a" .isEmpty none, alternating n]]

def alternatingTokens : Nat → List Token
  | 0 => [.name "a", .is, .empty]
  | n + 1 => [.name "a", .is, .empty, .or, .name "a", .is, .empty, .and, .openParen] ++
    alternatingTokens n ++ [.closeParen]

theorem spells_alternatingChars (n : Nat) :
    Spells (alternatingChars n) (alternatingTokens n) := by
  have hspace : ' ' ∈ closing := by decide
  have hparen : ')' ∈ closing := by decide
  have hleaf : (Rule.compare "a" .isEmpty none).Expressible :=
    .compare ⟨Lexeme.isName_of_all rfl (by decide), by decide⟩ (by decide) fun h => absurd h (by decide)
  have hempty : Spells "a is empty".toList [.name "a", .is, .empty] := spells_rule hleaf
  have hand : Spells "&&".toList [.and] := spells_pair rfl fun _ => rfl
  have hor : Spells "||".toList [.or] := spells_pair rfl fun _ => rfl
  have hclose : Spells [')'] [.closeParen] := .cons rfl (fun _ => rfl) spells_nil
  induction n with
  | zero => exact hempty
  | succ n ih =>
    have hinner := ih.append_cons hparen hclose
    have hinside : Spells ('(' :: (alternatingChars n ++ [')'])) _ :=
      .cons rfl (fun _ => rfl) hinner
    have hall := hempty.append_cons hspace (hor.append_cons hspace (hempty.append_cons hspace
      (hand.append_cons hspace hinside.blank).blank).blank).blank
    have hnext : alternatingChars (n + 1) = "a is empty".toList ++ ' ' :: ("||".toList ++
        ' ' :: ("a is empty".toList ++ ' ' :: ("&&".toList ++
          ' ' :: '(' :: (alternatingChars n ++ [')'])))) := by
      have hstart : "a is empty || a is empty && (".toList = "a is empty".toList ++ ' ' ::
          ("||".toList ++ ' ' :: ("a is empty".toList ++ ' ' :: ("&&".toList ++ [' ', '(']))) := by
        decide
      simp only [alternatingChars, List.replicate_succ, List.flatten_cons]
      rw [← List.replicate_succ, List.replicate_succ', hstart]
      simp only [List.append_assoc, List.cons_append, List.nil_append]
    rw [hnext, alternatingTokens]
    simpa only [List.append_assoc, List.cons_append, List.nil_append] using hall

theorem derives_alternatingTokens (n depth : Nat) :
    ∃ rules, Derives (depth + n) (.disjunction rules) (alternatingTokens n) ∧
      joined .any rules = alternating n := by
  have hempty : ∀ depth, Derives depth (.primary (.compare "a" .isEmpty none))
      [.name "a", .is, .empty] := fun depth => .emptiness "a" (by simp [operators]) rfl
  induction n with
  | zero => exact ⟨_, .firstAlternative (.firstMember (hempty _)), rfl⟩
  | succ n ih =>
    obtain ⟨rules, hrules, hjoined⟩ := ih
    have hinside := Derives.parentheses hrules
    rw [hjoined] at hinside
    exact ⟨_, .nextAlternative (.firstAlternative (.firstMember (hempty _)))
      (.nextMember (.firstMember (hempty _)) hinside), rfl⟩

theorem tokens_alternatingText (n : Nat) : ∃ scan,
    tokens (alternatingText n) = .ok scan ∧ scan.lexemes.map (·.item) = alternatingTokens n :=
  tokens_of_spells (spells_alternatingChars n)

theorem read_alternatingText {n : Nat} (h : n ≤ maxOpen) :
    read (alternatingText n) = .ok (alternating n) := by
  obtain ⟨scan, htokens, hitems⟩ := tokens_alternatingText n
  obtain ⟨rules, hrules, hjoined⟩ := derives_alternatingTokens n (maxOpen - n)
  rw [Nat.sub_add_cancel h, ← hitems] at hrules
  simp only [read, htokens, readTokens_of_writes ⟨rules, hrules, hjoined.symm⟩]

theorem hasFiniteNumbers_alternatingText (n : Nat) : HasFiniteNumbers (alternatingText n) := by
  intro scan htokens found hfound x hx
  obtain ⟨other, hother, hitems⟩ := tokens_alternatingText n
  obtain rfl := Except.ok.inj (htokens.symm.trans hother)
  have hnone : ∀ n, Token.float x ∉ alternatingTokens n := by
    intro n
    induction n with
    | zero => simp [alternatingTokens]
    | succ n ih => simp [alternatingTokens, ih]
  have hmem : found.item ∈ alternatingTokens n := hitems ▸ List.mem_map_of_mem hfound
  rw [hx] at hmem
  exact absurd hmem (hnone n)

theorem nesting_alternating (n : Nat) : (alternating n).nesting = 2 * n := by
  induction n with
  | zero => rfl
  | succ n ih =>
    simp only [alternating, Rule.nesting, Rule.nestingOfAll, ih]
    omega

/-- The rule of a condition is read back from its text, or the text is refused because the rule has
more groups inside each other than parentheses may be open. -/
theorem read_text_of_read {text : String} (hfinite : HasFiniteNumbers text) {rule : Rule}
    (h : read text = .ok rule) :
    (rule.nesting ≤ maxOpen → read rule.text = .ok rule) ∧
      (maxOpen < rule.nesting →
        ∃ offset, read rule.text = .error ⟨.tooDeep, offset, rule.text⟩) := by
  have hcanonical := canonical_of_read hfinite h
  constructor
  · intro hnesting
    have hread := read_text_eq_reduced hcanonical.expressible hnesting
    rwa [hcanonical.reduced_eq] at hread
  · exact read_text_eq_tooDeep hcanonical.expressible

theorem read_text_alternating :
    (HasFiniteNumbers (alternatingText 2) ∧ read (alternatingText 2) = .ok (alternating 2) ∧
      read (alternating 2).text = .ok (alternating 2)) ∧
    (HasFiniteNumbers (alternatingText 129) ∧ read (alternatingText 129) = .ok (alternating 129) ∧
      ∃ offset, read (alternating 129).text =
        .error ⟨.tooDeep, offset, (alternating 129).text⟩) := by
  have hshort : read (alternatingText 2) = .ok (alternating 2) := read_alternatingText (by decide)
  have hlong : read (alternatingText 129) = .ok (alternating 129) :=
    read_alternatingText (by decide)
  have hdeep : maxOpen < (alternating 129).nesting := by
    rw [nesting_alternating]
    decide
  have hfinite := hasFiniteNumbers_alternatingText
  exact ⟨⟨hfinite 2, hshort, (read_text_of_read (hfinite 2) hshort).1 (by decide)⟩,
    hfinite 129, hlong, (read_text_of_read (hfinite 129) hlong).2 hdeep⟩

theorem read_text_ne_alternating :
    HasFiniteNumbers (alternatingText 129) ∧ read (alternatingText 129) = .ok (alternating 129) ∧
      read (alternating 129).text ≠ .ok (alternating 129) := by
  have hread : read (alternatingText 129) = .ok (alternating 129) :=
    read_alternatingText (by decide)
  have hfinite := hasFiniteNumbers_alternatingText 129
  have hdeep : maxOpen < (alternating 129).nesting := by
    rw [nesting_alternating]
    decide
  obtain ⟨offset, hrefused⟩ :=
    read_text_eq_tooDeep (canonical_of_read hfinite hread).expressible hdeep
  refine ⟨hfinite, hread, ?_⟩
  rw [hrefused]
  exact nofun

end FormLogic.Condition
