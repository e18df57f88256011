import FormLogic.Proofs.Condition.Printing
import Mathlib

/-! How deep a rule that has been read nests, and what the bound on open parentheses does for it. A
parenthesis makes room for two groups, one of each kind, so that the groups are bounded with the
parentheses. Arrays stand in brackets: they nest as deep as brackets are open at once in the text,
and of these there may be any number. -/

namespace FormLogic

theorem greatest_append {α : Type} {greatest : List α → Nat} {number : α → Nat}
    (hnil : greatest [] = 0)
    (hcons : ∀ member rest, greatest (member :: rest) = max (number member) (greatest rest))
    (members more : List α) :
    greatest (members ++ more) = max (greatest members) (greatest more) := by
  induction members with
  | nil => rw [List.nil_append, hnil, Nat.zero_max]
  | cons member rest ih => rw [List.cons_append, hcons, hcons, ih, Nat.max_assoc]

namespace Value

mutual

def nesting : Value → Nat
  | .array items => nestingOfItems items + 1
  | .object entries => nestingOfEntries entries
  | _ => 0

def nestingOfItems : List Value → Nat
  | [] => 0
  | v :: rest => max (nesting v) (nestingOfItems rest)

def nestingOfEntries : List (String × Value) → Nat
  | [] => 0
  | (_, v) :: rest => max (nesting v) (nestingOfEntries rest)

end

theorem nestingOfItems_append (items more : List Value) :
    nestingOfItems (items ++ more) = max (nestingOfItems items) (nestingOfItems more) :=
  greatest_append rfl (fun _ _ => rfl) items more

theorem nestingOfItems_singleton (v : Value) : nestingOfItems [v] = v.nesting := Nat.max_zero _

end Value

namespace Rule

mutual

def valueNesting : Rule → Nat
  | compare _ _ none => 0
  | compare _ _ (some v) => v.nesting
  | all rules | any rules => valueNestingOfAll rules

def valueNestingOfAll : List Rule → Nat
  | [] => 0
  | rule :: rules => max (valueNesting rule) (valueNestingOfAll rules)

end

theorem nestingOfAll_append (rules more : List Rule) :
    nestingOfAll (rules ++ more) = max (nestingOfAll rules) (nestingOfAll more) :=
  greatest_append rfl (fun _ _ => rfl) rules more

theorem nestingOfAll_singleton (rule : Rule) : nestingOfAll [rule] = rule.nesting := Nat.max_zero _

theorem valueNestingOfAll_append (rules more : List Rule) :
    valueNestingOfAll (rules ++ more) =
      max (valueNestingOfAll rules) (valueNestingOfAll more) :=
  greatest_append rfl (fun _ _ => rfl) rules more

theorem valueNestingOfAll_singleton (rule : Rule) :
    valueNestingOfAll [rule] = rule.valueNesting := Nat.max_zero _

end Rule

namespace Condition

inductive Enclosure
  | parentheses
  | brackets

namespace Enclosure

def opens : Enclosure → Token → Bool
  | parentheses, .openParen => true
  | brackets, .openBracket => true
  | _, _ => false

def closes : Enclosure → Token → Bool
  | parentheses, .closeParen => true
  | brackets, .closeBracket => true
  | _, _ => false

def ignores (e : Enclosure) (token : Token) : Bool := !e.opens token && !e.closes token

/-- The greatest number of enclosures that are open at once, with so many of them open before. -/
def mostOpen (e : Enclosure) : (before : Nat) → List Token → Nat
  | before, [] => before
  | before, token :: rest =>
    if e.opens token then mostOpen e (before + 1) rest
    else if e.closes token then max before (mostOpen e (before - 1) rest)
    else mostOpen e before rest

/-- The text closes all enclosures that it opens, and `depth` of them are open in it at once. What
stands around it is arbitrary, so that such texts can be put one after the other. -/
def Nests (e : Enclosure) (depth : Nat) (text : List Token) : Prop :=
  ∀ before rest, e.mostOpen before (text ++ rest) = max (before + depth) (e.mostOpen before rest)

variable {e : Enclosure} {depth more : Nat} {token first last : Token} {text after : List Token}

theorem le_mostOpen (e : Enclosure) (before : Nat) (text : List Token) :
    before ≤ e.mostOpen before text := by
  induction text generalizing before with
  | nil => exact Nat.le_refl _
  | cons token rest ih =>
    rw [mostOpen]
    split
    · exact Nat.le_trans (Nat.le_succ _) (ih _)
    · split
      · exact Nat.le_max_left ..
      · exact ih _

theorem Nests.mostOpen_eq (h : e.Nests depth text) : e.mostOpen 0 text = depth := by
  have hend := h 0 []
  rwa [List.append_nil, mostOpen, Nat.zero_add, Nat.max_zero] at hend

theorem nests_nil : e.Nests 0 [] := fun _ _ => (Nat.max_eq_right (e.le_mostOpen ..)).symm

theorem Nests.append (h : e.Nests depth text) (h' : e.Nests more after) :
    e.Nests (max depth more) (text ++ after) := by
  intro before rest
  rw [List.append_assoc, h, h']
  omega

theorem Nests.cons (hignores : e.ignores token = true) (h : e.Nests depth text) :
    e.Nests depth (token :: text) := by
  obtain ⟨hopens, hcloses⟩ : e.opens token = false ∧ e.closes token = false := by
    simpa [ignores] using hignores
  intro before rest
  rw [List.cons_append, mostOpen, hopens, hcloses]
  exact h before rest

theorem nests_of_all (h : text.all e.ignores = true) : e.Nests 0 text := by
  induction text with
  | nil => exact nests_nil
  | cons token text ih =>
    rw [List.all_cons, Bool.and_eq_true] at h
    exact (ih h.2).cons h.1

theorem Nests.enclosed (hfirst : e.opens first = true) (hlast : e.closes last = true)
    (honly : e.opens last = false) (h : e.Nests depth text) :
    e.Nests (depth + 1) (first :: (text ++ [last])) := by
  intro before rest
  rw [List.cons_append, mostOpen, if_pos hfirst, List.append_assoc, h, List.singleton_append,
    mostOpen, honly, hlast]
  simp only [Bool.false_eq_true, if_false, if_true, Nat.add_sub_cancel]
  omega

theorem nests_operator (e : Enclosure) {op : Operator} (h : (text, op) ∈ operators) :
    e.Nests 0 text := by
  have hall : ∀ entry ∈ operators, entry.1.all e.ignores = true := by cases e <;> decide
  exact nests_of_all (hall _ h)

end Enclosure

open Enclosure

variable {depth : Nat} {text : List Token}

def ValuePhrase.nesting : ValuePhrase → Nat
  | .value v => v.nesting
  | .items vs => Value.nestingOfItems vs

theorem nests_of_derivesValue {phrase : ValuePhrase} (h : DerivesValue phrase text) :
    parentheses.Nests 0 text ∧ brackets.Nests phrase.nesting text := by
  induction h with
  | string | int | float | bool => exact ⟨nests_of_all rfl, nests_of_all rfl⟩
  | emptyArray => exact ⟨nests_of_all rfl, nests_nil.enclosed rfl rfl rfl⟩
  | array items ih =>
    obtain ⟨hparens, hbrackets⟩ := ih
    exact ⟨(hparens.append (nests_of_all rfl)).cons rfl, hbrackets.enclosed rfl rfl rfl⟩
  | @firstItem v text first ih =>
    rw [ValuePhrase.nesting, Value.nestingOfItems_singleton]
    exact ih
  | nextItem items next ihItems ihNext =>
    rw [ValuePhrase.nesting, Value.nestingOfItems_append, Value.nestingOfItems_singleton]
    exact ⟨ihItems.1.append (ihNext.1.cons rfl), ihItems.2.append (ihNext.2.cons rfl)⟩

def Phrase.valueNesting : Phrase → Nat
  | .primary single => single.valueNesting
  | .conjunction rules | .disjunction rules => Rule.valueNestingOfAll rules

theorem valueNesting_joined {join : List Rule → Rule}
    (hjoin : ∀ rules, (join rules).valueNesting = Rule.valueNestingOfAll rules)
    (rules : List Rule) : (joined join rules).valueNesting = Rule.valueNestingOfAll rules :=
  apply_joined Rule.valueNestingOfAll_singleton hjoin rules

theorem nests_brackets_of_derives {phrase : Phrase} (h : Derives depth phrase text) :
    brackets.Nests phrase.valueNesting text := by
  induction h with
  | @comparison depth op v symbol text name operator takes value =>
    have hall := (nests_operator brackets operator).append (nests_of_derivesValue value).2
    rw [Nat.zero_max] at hall
    exact hall.cons rfl
  | emptiness name operator takes => exact (nests_operator brackets operator).cons rfl
  | @parentheses depth rules text inside ih =>
    have hclose : brackets.Nests 0 [.closeParen] := nests_of_all rfl
    have hall := ih.append hclose
    rw [Nat.max_zero] at hall
    rw [Phrase.valueNesting, valueNesting_joined (fun _ => rfl)]
    exact hall.cons rfl
  | firstMember first ih =>
    rw [Phrase.valueNesting, Rule.valueNestingOfAll_singleton]
    exact ih
  | nextMember members next ihMembers ihNext =>
    rw [Phrase.valueNesting, Rule.valueNestingOfAll_append, Rule.valueNestingOfAll_singleton]
    exact ihMembers.append (ihNext.cons rfl)
  | firstAlternative first ih =>
    rw [Phrase.valueNesting, Rule.valueNestingOfAll_singleton, valueNesting_joined (fun _ => rfl)]
    exact ih
  | nextAlternative alternatives next ihAlternatives ihNext =>
    rw [Phrase.valueNesting, Rule.valueNestingOfAll_append, Rule.valueNestingOfAll_singleton,
      valueNesting_joined (fun _ => rfl)]
    exact ihAlternatives.append (ihNext.cons rfl)

theorem nesting_joined_le {join : List Rule → Rule}
    (hjoin : ∀ rules, (join rules).nesting = Rule.nestingOfAll rules + 1) (rules : List Rule) :
    (joined join rules).nesting ≤ Rule.nestingOfAll rules + 1 := by
  match rules with
  | [] => exact Nat.le_of_eq (hjoin [])
  | [only] =>
    rw [Rule.nestingOfAll_singleton]
    exact Nat.le_succ _
  | first :: second :: others => exact Nat.le_of_eq (hjoin _)

/-- How many groups may stand inside each other where so many parentheses are open at once: two for
each of them, and among the operands of `||` one more, that of an `&&`. -/
def Phrase.GroupsWithin (opened : Nat) : Phrase → Prop
  | .primary single => single.nesting ≤ 2 * opened
  | .conjunction rules => Rule.nestingOfAll rules ≤ 2 * opened
  | .disjunction rules => Rule.nestingOfAll rules ≤ 2 * opened + 1

theorem exists_nests_of_derives {phrase : Phrase} (h : Derives depth phrase text) :
    ∃ opened ≤ depth, parentheses.Nests opened text ∧ phrase.GroupsWithin opened := by
  -- on the derivation; along a chain the operand with the most open parentheses counts
  induction h with
  | @comparison depth op v symbol text name operator takes value =>
    have hall := (nests_operator parentheses operator).append (nests_of_derivesValue value).1
    exact ⟨0, Nat.zero_le _, hall.cons rfl, Nat.le_refl 0⟩
  | emptiness name operator takes =>
    exact ⟨0, Nat.zero_le _, (nests_operator parentheses operator).cons rfl, Nat.le_refl 0⟩
  | @parentheses depth rules text inside ih =>
    obtain ⟨opened, hdepth, hnests, hgroups⟩ := ih
    have hjoined : (joined .any rules).nesting ≤ _ := nesting_joined_le (fun _ => rfl) rules
    refine ⟨opened + 1, Nat.succ_le_succ hdepth, hnests.enclosed rfl rfl rfl, ?_⟩
    exact Nat.le_trans hjoined (Nat.succ_le_succ hgroups)
  | firstMember first ih =>
    obtain ⟨opened, hdepth, hnests, hgroups⟩ := ih
    refine ⟨opened, hdepth, hnests, ?_⟩
    rw [Phrase.GroupsWithin, Rule.nestingOfAll_singleton]
    exact hgroups
  | @nextMember depth rules rule before text members next ihMembers ihNext =>
    obtain ⟨opened, hdepth, hnests, (hgroups : Rule.nestingOfAll rules ≤ 2 * opened)⟩ := ihMembers
    obtain ⟨other, hother, hnext, (hrule : rule.nesting ≤ 2 * other)⟩ := ihNext
    refine ⟨max opened other, Nat.max_le.2 ⟨hdepth, hother⟩, hnests.append (hnext.cons rfl), ?_⟩
    rw [Phrase.GroupsWithin, Rule.nestingOfAll_append, Rule.nestingOfAll_singleton]
    omega
  | @firstAlternative depth members text first ih =>
    obtain ⟨opened, hdepth, hnests, hgroups⟩ := ih
    have hjoined : (joined .all members).nesting ≤ _ := nesting_joined_le (fun _ => rfl) members
    refine ⟨opened, hdepth, hnests, ?_⟩
    rw [Phrase.GroupsWithin, Rule.nestingOfAll_singleton]
    exact Nat.le_trans hjoined (Nat.succ_le_succ hgroups)
  | @nextAlternative depth rules members before text alternatives next ihAlternatives ihNext =>
    obtain ⟨opened, hdepth, hnests, (hgroups : Rule.nestingOfAll rules ≤ 2 * opened + 1)⟩ :=
      ihAlternatives
    obtain ⟨other, hother, hnext, (hmembers : Rule.nestingOfAll members ≤ 2 * other)⟩ := ihNext
    have hjoined : (joined .all members).nesting ≤ _ := nesting_joined_le (fun _ => rfl) members
    refine ⟨max opened other, Nat.max_le.2 ⟨hdepth, hother⟩, hnests.append (hnext.cons rfl), ?_⟩
    rw [Phrase.GroupsWithin, Rule.nestingOfAll_append, Rule.nestingOfAll_singleton]
    omega

/-- How deep a rule that has been read nests: there are at most two groups for each parenthesis that
is open at once, and two around them all, and no more parentheses than may be open; but the arrays
stand inside each other exactly as the brackets of the text, which nothing bounds. -/
theorem nesting_of_read {expression : String} {rule : Rule} (h : read expression = .ok rule) :
    ∃ scan, tokens expression = .ok scan ∧
      rule.nesting ≤ 2 * (parentheses.mostOpen 0 (scan.lexemes.map (·.item)) + 1) ∧
      parentheses.mostOpen 0 (scan.lexemes.map (·.item)) ≤ maxOpen ∧
      rule.valueNesting = brackets.mostOpen 0 (scan.lexemes.map (·.item)) := by
  obtain ⟨scan, htokens, hread⟩ := exists_tokens_of_read h
  obtain ⟨rules, hderives, rfl⟩ := writes_of_readTokens hread
  obtain ⟨opened, hopened, hnests, hgroups⟩ := exists_nests_of_derives hderives
  have hjoined : (joined .any rules).nesting ≤ _ := nesting_joined_le (fun _ => rfl) rules
  refine ⟨scan, htokens, ?_, ?_, ?_⟩
  · rw [hnests.mostOpen_eq]
    exact Nat.le_trans hjoined (Nat.succ_le_succ hgroups)
  · rwa [hnests.mostOpen_eq]
  · rw [(nests_brackets_of_derives hderives).mostOpen_eq]
    exact valueNesting_joined (fun _ => rfl) rules

def crowdedText : String :=
  "a is empty || b in [[1], []] && (c == [[[]]] || d is empty && e != '[(')"

def crowdedRule : Rule :=
  .any [
    .compare "a" .isEmpty none,
    .all [.compare "b" .isIn (some (.array [.array [.int 1], .array []])),
      .any [.compare "c" .equals (some (.array [.array [.array []]])),
        .all [.compare "d" .isEmpty none, .compare "e" .notEquals (some (.string "[("))]]]]

theorem nesting_of_read_crowded :
    (read crowdedText = .ok crowdedRule ∧ crowdedRule.nesting = 4) ∧
      ∃ scan, tokens crowdedText = .ok scan ∧
        parentheses.mostOpen 0 (scan.lexemes.map (·.item)) = 1 ∧
        4 ≤ 2 * (parentheses.mostOpen 0 (scan.lexemes.map (·.item)) + 1) ∧
        parentheses.mostOpen 0 (scan.lexemes.map (·.item)) ≤ maxOpen ∧
        3 = brackets.mostOpen 0 (scan.lexemes.map (·.item)) := by
  have hread : read crowdedText = .ok crowdedRule := by cbv
  have hcount : (tokens crowdedText).map
      (fun scan => parentheses.mostOpen 0 (scan.lexemes.map (·.item))) = .ok 1 := by cbv
  obtain ⟨scan, htokens, hgroups, hparens, harrays⟩ := nesting_of_read hread
  rw [htokens] at hcount
  exact ⟨⟨hread, rfl⟩, scan, htokens, Except.ok.inj hcount, hgroups, hparens, harrays⟩

def nestedArrays : (levels : Nat) → Value
  | 0 => .int 1
  | levels + 1 => .array [nestedArrays levels]

def nestedRule (levels : Nat) : Rule := .compare "x" .isIn (some (nestedArrays levels))

def nestedText (levels : Nat) : String :=
  String.ofList ("x in ".toList ++ List.replicate levels '[' ++ '1' :: List.replicate levels ']')

theorem nesting_nestedArrays (levels : Nat) : (nestedArrays levels).nesting = levels := by
  induction levels with
  | zero => rfl
  | succ levels ih => rw [nestedArrays, Value.nesting, Value.nestingOfItems_singleton, ih]

theorem expressible_nestedArrays (levels : Nat) : (nestedArrays levels).Expressible := by
  induction levels with
  | zero => exact .int 1
  | succ levels ih => exact .array (List.forall_mem_singleton.2 ih)

theorem chars_nestedArrays (levels : Nat) : (nestedArrays levels).chars =
    List.replicate levels '[' ++ '1' :: List.replicate levels ']' := by
  induction levels with
  | zero => rfl
  | succ levels ih =>
    rw [nestedArrays, Value.chars, Value.itemsChars, ih, List.replicate_succ' (a := ']'),
      List.replicate_succ]
    simp only [List.append_assoc, List.cons_append]

theorem text_nestedRule (levels : Nat) : (nestedRule levels).text = nestedText levels := by
  have hrule : (nestedRule levels).chars =
      "x".toList ++ ' ' :: "in".toList ++ ' ' :: (nestedArrays levels).chars := rfl
  have hstart : "x in ".toList = "x".toList ++ ' ' :: "in".toList ++ [' '] := by decide
  have hchars : (nestedRule levels).chars =
      "x in ".toList ++ List.replicate levels '[' ++ '1' :: List.replicate levels ']' := by
    rw [hrule, chars_nestedArrays, hstart, List.append_assoc (_ ++ _) [' '],
      List.append_assoc (_ ++ _)]
    rfl
  exact congrArg String.ofList hchars

theorem read_nestedText (levels : Nat) : read (nestedText levels) = .ok (nestedRule levels) := by
  have hfield : IsFieldName "x" := ⟨Lexeme.isName_of_all rfl (by decide), by decide⟩
  have hrule : (nestedRule levels).Expressible :=
    .compare hfield (by decide) fun _ => ⟨_, rfl, expressible_nestedArrays levels⟩
  have hread := read_text_eq_reduced hrule (Nat.zero_le maxOpen)
  rwa [text_nestedRule] at hread

theorem not_bounded_nestedText : read (nestedText 257) = .ok (nestedRule 257) ∧
    ¬ ((nestedRule 257).nesting ≤ 2 * (maxOpen + 1) ∧
      (nestedRule 257).valueNesting ≤ maxOpen) := by
  refine ⟨read_nestedText 257, fun hbounded => ?_⟩
  have hle : (nestedArrays 257).nesting ≤ maxOpen := hbounded.2
  rw [nesting_nestedArrays] at hle
  exact absurd hle (by decide)

end Condition

end FormLogic
