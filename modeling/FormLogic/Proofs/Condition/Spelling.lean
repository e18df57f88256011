import FormLogic.Condition.Reader
import FormLogic.Proofs.Lexeme.Literal
import FormLogic.Proofs.Scan.Cuts
import FormLogic.Rule.Text

/-! The tokens that the text of a rule is cut into, for the rules that conditions can express. What
is written is shown to be these tokens for any text after it that cannot go on with the last one. -/

namespace FormLogic

inductive Value.Expressible : Value → Prop
  | bool (b : Bool) : Expressible (.bool b)
  | int (n : Int64) : Expressible (.int n)
  | float {x : Binary64} (hx : x.isFinite = true) : Expressible (.float x)
  | string (s : String) : Expressible (.string s)
  | array {items : List Value} (h : ∀ v ∈ items, Expressible v) : Expressible (.array items)

namespace Condition

def reservedWords : List String := ["true", "false", "in", "not", "is", "empty"]

def IsFieldName (field : String) : Prop :=
  Lexeme.IsName field.toList ∧ field ∉ reservedWords

def operatorTokens : Operator → List Token
  | .equals => [.equal]
  | .notEquals => [.notEqual]
  | .isIn => [.isIn]
  | .notIn => [.not, .isIn]
  | .greater => [.greater]
  | .greaterOrEqual => [.greaterOrEqual]
  | .less => [.less]
  | .lessOrEqual => [.lessOrEqual]
  | .isEmpty => [.is, .empty]
  | .isNotEmpty => [.not, .empty]
  | .unknown => []

mutual

def valueTokens : Value → List Token
  | .bool b => [.bool b]
  | .int n => [.int n]
  | .float x => [.float x]
  | .string s => [.string s]
  | .array [] => [.openBracket, .closeBracket]
  | .array (v :: rest) => .openBracket :: (valueTokens v ++ moreValueTokens rest ++ [.closeBracket])
  | _ => []

def moreValueTokens : List Value → List Token
  | [] => []
  | v :: rest => .comma :: (valueTokens v ++ moreValueTokens rest)

end

mutual

def ruleTokens : Rule → List Token
  | .compare field op (some v) =>
    .name field :: (operatorTokens op ++ if op.takesValue then valueTokens v else [])
  | .compare field op none => .name field :: operatorTokens op
  | .all (first :: others) =>
    .openParen :: (ruleTokens first ++ moreRuleTokens .and others ++ [.closeParen])
  | .any (first :: others) =>
    .openParen :: (ruleTokens first ++ moreRuleTokens .or others ++ [.closeParen])
  | _ => []

def moreRuleTokens (connective : Token) : List Rule → List Token
  | [] => []
  | first :: others => connective :: (ruleTokens first ++ moreRuleTokens connective others)

end

def closing : List Char := [' ', ')', ']', ',']

def Closes (rest : List Char) : Prop := ∀ c ∈ rest.head?, c ∈ closing

theorem closes_cons {c : Char} (h : c ∈ closing) (rest : List Char) : Closes (c :: rest) := by
  intro d hd
  exact (Option.some.inj hd) ▸ h

theorem Closes.ends {rest : List Char} (h : Closes rest) : Lexeme.Ends rest := by
  intro c hc
  have hmem := h c hc
  simp only [closing, List.mem_cons, List.not_mem_nil, or_false] at hmem
  rcases hmem with rfl | rfl | rfl | rfl <;> exact ⟨rfl, by decide⟩

/-- The text is cut into these tokens, whatever is cut behind it. -/
def Spells (text : List Char) (tokens : List Token) : Prop :=
  ∀ rest more, Closes rest → Scan.Cuts Token.read rest more →
    Scan.Cuts Token.read (text ++ rest) (tokens ++ more)

section

variable {text before : List Char} {tokens more : List Token} {c : Char} {token : Token}

theorem spells_nil : Spells [] [] := fun _ _ _ hmore => hmore

theorem Spells.cuts (h : Spells text tokens) : Scan.Cuts Token.read text tokens := by
  have hcuts := h [] [] nofun .nil
  rwa [List.append_nil, List.append_nil] at hcuts

theorem Spells.blank (h : Spells text tokens) : Spells (' ' :: text) tokens :=
  fun rest more hrest hmore => .blank rfl (h rest more hrest hmore)

theorem Spells.cons (hblank : Text.isBlank c = false)
    (hread : ∀ rest, Token.read c rest = .ok (token, 0)) (h : Spells text tokens) :
    Spells (c :: text) (token :: tokens) := by
  intro rest after hrest hafter
  have hown : c :: text ++ rest = c :: ([] ++ (text ++ rest)) := rfl
  rw [hown]
  exact .item hblank (hread _) (h rest after hrest hafter)

theorem Spells.append_cons (hc : c ∈ closing) (h : Spells before tokens)
    (h' : Spells (c :: text) more) : Spells (before ++ c :: text) (tokens ++ more) := by
  intro rest after hrest hafter
  rw [List.append_assoc, List.append_assoc]
  exact h _ _ (closes_cons hc _) (h' rest after hrest hafter)

theorem spells_of_read {own : List Char} (hblank : Text.isBlank c = false)
    (hread : ∀ rest, Closes rest → Token.read c (own ++ rest) = .ok (token, own.length)) :
    Spells (c :: own) [token] := fun rest _ hrest hafter => .item hblank (hread rest hrest) hafter

theorem spells_word {word : String} (h : Lexeme.IsName word.toList) :
    Spells word.toList [Token.ofWord word] := by
  obtain ⟨first, others, hword⟩ := List.exists_cons_of_ne_nil h.ne_nil
  rw [hword] at h ⊢
  have hstart := h.isNameStart_head
  have hrange := Lexeme.toNat_of_isNameStart hstart
  have hquote : ¬ (first = '"' ∨ first = '\'') := by
    rintro (rfl | rfl) <;> exact Bool.false_ne_true hstart
  have hdigit := Lexeme.isDigit_of_isNameStart hstart
  have hblank := Text.isBlank_eq_false (Nat.le_trans (by decide) hrange.1)
    (Nat.le_trans hrange.2 (by decide))
  refine spells_of_read hblank fun rest hrest => ?_
  have hothers := Lexeme.nameRest_of_isName h hrest.ends
  unfold Token.read
  rw [if_neg hquote, if_neg (by simp [hdigit]), if_pos hstart]
  simp only [hothers, ← hword, String.ofList_toList]

theorem stringRest?_escapeChar (c : Char) (rest : List Char) :
    Lexeme.stringRest? '"' (Value.escapeChar c ++ rest) =
      (Lexeme.stringRest? '"' rest).map
        fun (content, n) => (c :: content, n + (Value.escapeChar c).length) := by
  unfold Value.escapeChar
  split
  iterate 4 rfl
  next hquote hescape _ _ =>
    rw [List.cons_append, List.nil_append, Lexeme.stringRest?.eq_def]
    simp only [if_neg hquote, if_neg hescape]
    rfl

theorem stringRest?_flatMap (content rest : List Char) :
    Lexeme.stringRest? '"' (content.flatMap Value.escapeChar ++ '"' :: rest) =
      some (content, (content.flatMap Value.escapeChar).length + 1) := by
  induction content with
  | nil =>
    rw [List.flatMap_nil, List.nil_append, Lexeme.stringRest?.eq_def]
    rfl
  | cons c content ih =>
    rw [List.flatMap_cons, List.append_assoc, stringRest?_escapeChar, ih, List.length_append,
      Nat.add_comm (Value.escapeChar c).length, Nat.add_right_comm]
    rfl

theorem spells_string (s : String) : Spells (Value.stringChars s) [.string s] := by
  refine spells_of_read rfl fun rest _ => ?_
  unfold Token.read
  have htext : (s.toList.flatMap Value.escapeChar).append ['"'] ++ rest =
      s.toList.flatMap Value.escapeChar ++ '"' :: rest := List.append_assoc ..
  rw [if_pos (.inl rfl), htext, stringRest?_flatMap]
  have hlength : ((s.toList.flatMap Value.escapeChar).append ['"']).length =
      (s.toList.flatMap Value.escapeChar).length + 1 := List.length_append
  simp only [String.ofList_toList, hlength]

theorem spells_literal {l : Lexeme.Literal} (h : l.WellFormed) {negative : Bool}
    {number : Int64 ⊕ Binary64} (hvalue : l.value? negative = some number) :
    Spells (Binary64.signed negative l.chars) [Token.ofNumber number] := by
  obtain ⟨first, more, hchars, hdigit⟩ := h.exists_chars
  have hrange := Lexeme.toNat_of_isDigit hdigit
  have hquote : ¬ (first = '"' ∨ first = '\'') := by
    rintro (rfl | rfl) <;> exact Bool.false_ne_true hdigit
  cases negative with
  | false =>
    rw [Binary64.signed, if_neg Bool.false_ne_true, hchars]
    have hblank := Text.isBlank_eq_false (Nat.le_trans (by decide) hrange.1)
      (Nat.le_trans hrange.2 (by decide))
    refine spells_of_read hblank fun rest hrest => ?_
    have hread := Lexeme.Literal.read_of_wellFormed h hchars hrest.ends
    unfold Token.read
    rw [if_neg hquote, if_pos hdigit]
    simp only [hread, Token.ofLiteral, hvalue, hchars, List.length_cons, Nat.add_sub_cancel]
  | true =>
    rw [Binary64.signed, if_pos rfl, hchars]
    refine spells_of_read rfl fun rest hrest => ?_
    have hread := Lexeme.Literal.read_of_wellFormed h hchars hrest.ends
    unfold Token.read
    rw [if_neg (by decide), if_neg (by decide), if_neg (by decide)]
    simp only [List.cons_append, if_pos hdigit, hread, Token.ofLiteral, hvalue, hchars]

theorem spells_pair {d : Char} (hblank : Text.isBlank c = false)
    (hread : ∀ rest, Token.read c (d :: rest) = .ok (token, 1)) : Spells [c, d] [token] :=
  spells_of_read hblank fun rest _ => hread rest

theorem spells_angle (hblank : Text.isBlank c = false)
    (hread : ∀ d rest, d ∈ closing → Token.read c (d :: rest) = .ok (token, 0))
    (hend : Token.read c [] = .ok (token, 0)) : Spells [c] [token] := by
  refine spells_of_read hblank fun rest hrest => ?_
  cases rest with
  | nil => exact hend
  | cons d rest => exact hread d rest (hrest d rfl)

theorem spells_operator {op : Operator} (h : op ≠ .unknown) :
    Spells op.symbol.toList (operatorTokens op) := by
  have hin : Lexeme.IsName "in".toList := Lexeme.isName_of_all rfl (by decide)
  have hnot : Lexeme.IsName "not".toList := Lexeme.isName_of_all rfl (by decide)
  have his : Lexeme.IsName "is".toList := Lexeme.isName_of_all rfl (by decide)
  have hempty : Lexeme.IsName "empty".toList := Lexeme.isName_of_all rfl (by decide)
  have hspace : ' ' ∈ closing := by decide
  cases op with
  | equals => exact spells_pair rfl fun _ => rfl
  | notEquals => exact spells_pair rfl fun _ => rfl
  | isIn => exact spells_word hin
  | notIn => exact (spells_word hnot).append_cons hspace (spells_word hin).blank
  | greater =>
    refine spells_angle rfl (fun d rest hd => ?_) rfl
    simp only [closing, List.mem_cons, List.not_mem_nil, or_false] at hd
    rcases hd with rfl | rfl | rfl | rfl <;> rfl
  | greaterOrEqual => exact spells_pair rfl fun _ => rfl
  | less =>
    refine spells_angle rfl (fun d rest hd => ?_) rfl
    simp only [closing, List.mem_cons, List.not_mem_nil, or_false] at hd
    rcases hd with rfl | rfl | rfl | rfl <;> rfl
  | lessOrEqual => exact spells_pair rfl fun _ => rfl
  | isEmpty => exact (spells_word his).append_cons hspace (spells_word hempty).blank
  | isNotEmpty => exact (spells_word hnot).append_cons hspace (spells_word hempty).blank
  | unknown => exact absurd rfl h

theorem spells_items {v : Value} {rest : List Value}
    (h : ∀ w ∈ v :: rest, Spells w.chars (valueTokens w)) :
    Spells (Value.itemsChars (v :: rest)) (valueTokens v ++ moreValueTokens rest) := by
  have hcomma : ',' ∈ closing := by decide
  induction rest generalizing v with
  | nil =>
    rw [moreValueTokens, List.append_nil]
    exact h v List.mem_cons_self
  | cons w rest ih =>
    have hmore := ih fun u hu => h u (List.mem_cons_of_mem v hu)
    rw [Value.itemsChars, List.append_assoc]
    exact (h v List.mem_cons_self).append_cons hcomma (.cons rfl (fun _ => rfl) hmore.blank)

theorem spells_value {v : Value} (h : v.Expressible) : Spells v.chars (valueTokens v) := by
  induction h with
  | bool b =>
    have hfalse : Lexeme.IsName "false".toList := Lexeme.isName_of_all rfl (by decide)
    have htrue : Lexeme.IsName "true".toList := Lexeme.isName_of_all rfl (by decide)
    cases b with
    | false => exact spells_word hfalse
    | true => exact spells_word htrue
  | int n =>
    obtain ⟨l, hl, hchars, hvalue⟩ := Lexeme.Literal.exists_of_int n
    rw [Value.chars, hchars]
    exact spells_literal hl hvalue
  | @float x hx =>
    cases x with
    | finite negative rank =>
      obtain ⟨l, hl, hchars, hvalue⟩ := Lexeme.Literal.exists_of_finite negative rank
      rw [Value.chars, hchars]
      exact spells_literal hl hvalue
    | infinite negative => exact absurd hx Bool.false_ne_true
    | nan => exact absurd hx Bool.false_ne_true
  | string s => exact spells_string s
  | @array items h ih =>
    have hclose : Spells [']'] [.closeBracket] := .cons rfl (fun _ => rfl) spells_nil
    cases items with
    | nil => exact .cons rfl (fun _ => rfl) hclose
    | cons v rest =>
      have hinside := (spells_items ih).append_cons (by decide) hclose
      exact .cons rfl (fun _ => rfl) hinside

end

end Condition

/-- The rules that conditions can write: no group is empty, and every comparison has a known
operator and the value that the operator takes. -/
inductive Rule.Expressible : Rule → Prop
  | compare {field : String} {op : Operator} {value : Option Value}
    (hfield : Condition.IsFieldName field) (hop : op ≠ .unknown)
    (hvalue : op.takesValue = true → ∃ v, value = some v ∧ v.Expressible) :
    Expressible (.compare field op value)
  | all {rules : List Rule} (hne : rules ≠ []) (h : ∀ rule ∈ rules, Expressible rule) :
    Expressible (.all rules)
  | any {rules : List Rule} (hne : rules ≠ []) (h : ∀ rule ∈ rules, Expressible rule) :
    Expressible (.any rules)

namespace Condition

theorem ofWord_of_not_mem {word : String} (h : word ∉ reservedWords) :
    Token.ofWord word = .name word := by
  unfold Token.ofWord
  split
  iterate 6 exact absurd (by decide) h
  rfl

theorem spells_field {field : String} (h : IsFieldName field) :
    Spells field.toList [.name field] := by
  rw [← ofWord_of_not_mem h.2]
  exact spells_word h.1

theorem spells_moreRules {symbol : String} {connective : Token}
    (hsymbol : Spells symbol.toList [connective]) {text : List Char} {tokens : List Token}
    (hfirst : Spells text tokens) {rules : List Rule}
    (h : ∀ rule ∈ rules, Spells rule.chars (ruleTokens rule)) :
    Spells (text ++ Rule.moreChars symbol rules ++ [')'])
      (tokens ++ moreRuleTokens connective rules ++ [.closeParen]) := by
  have hspace : ' ' ∈ closing := by decide
  have hclose : Spells [')'] [.closeParen] := .cons rfl (fun _ => rfl) spells_nil
  induction rules generalizing text tokens with
  | nil =>
    rw [Rule.moreChars, moreRuleTokens, List.append_nil, List.append_nil]
    exact hfirst.append_cons (by decide) hclose
  | cons rule rules ih =>
    obtain ⟨hrule, hrules⟩ := List.forall_mem_cons.1 h
    have hnext := hfirst.append_cons hspace (hsymbol.append_cons hspace hrule.blank).blank
    have hall := ih hnext hrules
    rw [Rule.moreChars, moreRuleTokens]
    simpa only [List.append_assoc, List.cons_append, List.nil_append] using hall

theorem spells_rule {rule : Rule} (h : rule.Expressible) :
    Spells rule.chars (ruleTokens rule) := by
  have hspace : ' ' ∈ closing := by decide
  have hand : Spells "&&".toList [.and] := spells_pair rfl fun _ => rfl
  have hor : Spells "||".toList [.or] := spells_pair rfl fun _ => rfl
  induction h with
  | @compare field op value hfield hop hvalue =>
    have hstart := (spells_field hfield).append_cons hspace (spells_operator hop).blank
    cases htakes : op.takesValue with
    | false =>
      cases value with
      | none => exact hstart
      | some v =>
        rw [Rule.chars, ruleTokens]
        simp only [htakes, Bool.false_eq_true, if_false, List.append_nil]
        exact hstart
    | true =>
      obtain ⟨v, rfl, hv⟩ := hvalue htakes
      have hall := hstart.append_cons hspace (spells_value hv).blank
      rw [Rule.chars, ruleTokens]
      simp only [htakes, if_true]
      exact hall
  | @all rules hne h ih =>
    obtain ⟨rule, rules, rfl⟩ := List.exists_cons_of_ne_nil hne
    obtain ⟨hrule, hrules⟩ := List.forall_mem_cons.1 ih
    exact .cons rfl (fun _ => rfl) (spells_moreRules hand hrule hrules)
  | @any rules hne h ih =>
    obtain ⟨rule, rules, rfl⟩ := List.exists_cons_of_ne_nil hne
    obtain ⟨hrule, hrules⟩ := List.forall_mem_cons.1 ih
    exact .cons rfl (fun _ => rfl) (spells_moreRules hor hrule hrules)

end Condition

end FormLogic
