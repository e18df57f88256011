import FormLogic.Proofs.Condition.Soundness
import Mathlib

/-! The fields that a condition mentions are the names among its tokens: every name of the text is
the field of one comparison of the rule, and they stand in the rule in the order of the text. -/

namespace FormLogic

/-- `listed` has the members of `names` without repetition, in order of their first places. -/
structure FirstMentions (names listed : List String) : Prop where
  mem_iff : ∀ name, name ∈ listed ↔ name ∈ names
  ordered : listed.Pairwise fun a b => names.idxOf a < names.idxOf b

theorem idxOf_append_singleton {names : List String} {name : String} (h : name ∈ names)
    (last : String) : (names ++ [last]).idxOf name = names.idxOf name := by
  rw [List.idxOf_append, if_pos h]

theorem firstMentions_eraseDups (names : List String) : FirstMentions names names.eraseDups := by
  refine ⟨fun name => List.mem_eraseDups, ?_⟩
  induction names using List.reverseRecOn with
  | nil => exact .nil
  | append_singleton names last ih =>
    have hbefore : names.eraseDups.Pairwise fun a b =>
        (names ++ [last]).idxOf a < (names ++ [last]).idxOf b := by
      refine ih.imp_of_mem fun ha hb hlt => ?_
      rw [List.mem_eraseDups] at ha hb
      rwa [idxOf_append_singleton ha, idxOf_append_singleton hb]
    rw [List.eraseDups_append]
    by_cases hlast : last ∈ names
    · have hnone : ([last].removeAll names).eraseDups = [] := by simp [List.removeAll, hlast]
      rw [hnone, List.append_nil]
      exact hbefore
    · have hnew : ([last].removeAll names).eraseDups = [last] := by
        simp [List.removeAll, hlast, List.eraseDups_cons]
      rw [hnew]
      refine List.pairwise_append.2 ⟨hbefore, List.pairwise_singleton .., ?_⟩
      intro a ha b hb
      obtain rfl := List.mem_singleton.1 hb
      rw [List.mem_eraseDups] at ha
      rw [idxOf_append_singleton ha, List.idxOf_append, if_neg hlast]
      exact Nat.lt_add_left _ (List.idxOf_lt_length_of_mem ha)

theorem Rule.mentionsOfAll_append (rules others : List Rule) :
    mentionsOfAll (rules ++ others) = mentionsOfAll rules ++ mentionsOfAll others := by
  induction rules with
  | nil => rfl
  | cons rule rules ih =>
    rw [List.cons_append, mentionsOfAll, mentionsOfAll, ih, List.append_assoc]

theorem Rule.mentionsOfAll_singleton (rule : Rule) : mentionsOfAll [rule] = rule.mentions := by
  rw [mentionsOfAll, mentionsOfAll, List.append_nil]

namespace Condition

def Token.name? : Token → Option String
  | .name path => some path
  | _ => none

def names (tokens : List Token) : List String := tokens.filterMap Token.name?

def Phrase.mentions : Phrase → List String
  | .primary single => single.mentions
  | .conjunction rules | .disjunction rules => Rule.mentionsOfAll rules

variable {depth : Nat} {text before : List Token}

theorem names_append (before text : List Token) :
    names (before ++ text) = names before ++ names text := List.filterMap_append

theorem names_cons {token : Token} (h : token.name? = none) (text : List Token) :
    names (token :: text) = names text := List.filterMap_cons_none h

theorem names_eq_nil_of_operator {op : Operator} (h : (text, op) ∈ operators) :
    names text = [] := by
  simp only [operators, List.mem_cons, Prod.mk.injEq, List.not_mem_nil, or_false] at h
  rcases h with ⟨rfl, rfl⟩ | ⟨rfl, rfl⟩ | ⟨rfl, rfl⟩ | ⟨rfl, rfl⟩ | ⟨rfl, rfl⟩ | ⟨rfl, rfl⟩ |
    ⟨rfl, rfl⟩ | ⟨rfl, rfl⟩ | ⟨rfl, rfl⟩ | ⟨rfl, rfl⟩ | ⟨rfl, rfl⟩
  all_goals rfl

theorem names_eq_nil_of_derivesValue {phrase : ValuePhrase} (h : DerivesValue phrase text) :
    names text = [] := by
  induction h with
  | array items ih =>
    rw [names_cons rfl, names_append, ih]
    rfl
  | firstItem first ih => exact ih
  | nextItem items next ihItems ihNext =>
    rw [names_append, names_cons rfl, ihItems, ihNext]
    rfl
  | _ => rfl

theorem mentions_joined {join : List Rule → Rule}
    (hjoin : ∀ rules, (join rules).mentions = Rule.mentionsOfAll rules) (rules : List Rule) :
    (joined join rules).mentions = Rule.mentionsOfAll rules :=
  apply_joined Rule.mentionsOfAll_singleton hjoin rules

theorem mentions_of_derives {phrase : Phrase} (h : Derives depth phrase text) :
    phrase.mentions = names text := by
  induction h with
  | @comparison depth op v symbol text name operator takes value =>
    have hrest : names (symbol ++ text) = [] := by
      rw [names_append, names_eq_nil_of_operator operator, names_eq_nil_of_derivesValue value]
      rfl
    exact (congrArg (name :: ·) hrest).symm
  | @emptiness depth op symbol name operator takes =>
    exact (congrArg (name :: ·) (names_eq_nil_of_operator operator)).symm
  | @parentheses depth rules text inside ih =>
    have hparens : names (.openParen :: (text ++ [.closeParen])) = names text := by
      rw [names_cons rfl, names_append]
      exact List.append_nil _
    rw [hparens, ← ih]
    exact mentions_joined (fun _ => rfl) rules
  | firstMember first ih => exact (Rule.mentionsOfAll_singleton _).trans ih
  | nextMember members next ihMembers ihNext =>
    rw [names_append, names_cons rfl, ← ihMembers, ← ihNext]
    exact (Rule.mentionsOfAll_append ..).trans
      (congrArg _ (Rule.mentionsOfAll_singleton _))
  | @firstAlternative depth members text first ih =>
    have hchain : (joined .all members).mentions = Rule.mentionsOfAll members :=
      mentions_joined (fun _ => rfl) members
    exact (Rule.mentionsOfAll_singleton _).trans (hchain.trans ih)
  | @nextAlternative depth rules members before text alternatives next ihAlternatives ihNext =>
    have hchain : (joined .all members).mentions = Rule.mentionsOfAll members :=
      mentions_joined (fun _ => rfl) members
    rw [names_append, names_cons rfl, ← ihAlternatives, ← ihNext]
    refine (Rule.mentionsOfAll_append ..).trans (congrArg _ ?_)
    exact (Rule.mentionsOfAll_singleton _).trans hchain

theorem mentions_of_readTokens {scan : Scan Token} {rule : Rule} (h : readTokens scan = .ok rule) :
    rule.mentions = names (scan.lexemes.map (·.item)) := by
  obtain ⟨rules, hderives, rfl⟩ := writes_of_readTokens h
  exact (mentions_joined (fun _ => rfl) rules).trans (mentions_of_derives hderives)

/-- The fields of a condition are the names of its text, each listed at its first place; any other
text has none, and is not valid. -/
theorem fields_are_names (expression : String) :
    (∀ rule, read expression = .ok rule → ∃ scan, tokens expression = .ok scan ∧
      FirstMentions (names (scan.lexemes.map (·.item))) (fields expression)) ∧
    ∀ e, read expression = .error e → fields expression = [] ∧ isValid expression = false := by
  constructor
  · intro rule hread
    obtain ⟨scan, htokens, hrule⟩ := exists_tokens_of_read hread
    have hfields : fields expression = rule.mentions.eraseDups := by
      simp only [fields, hread]
      rfl
    refine ⟨scan, htokens, ?_⟩
    rw [hfields, mentions_of_readTokens hrule]
    exact firstMentions_eraseDups _
  · intro e hread
    have hfields : fields expression = [] := by simp only [fields, hread]
    have hvalid : isValid expression = false := by
      rw [isValid, hread]
      rfl
    exact ⟨hfields, hvalid⟩

def stockText : String :=
  "stock < 5 && (kind in ['paper', \"ink\"] || stock is not empty) || owner.name != true"

def stockRule : Rule :=
  .any [
    .all [.compare "stock" .less (some (.int 5)),
      .any [.compare "kind" .isIn (some (.array [.string "paper", .string "ink"])),
        .compare "stock" .isNotEmpty none]],
    .compare "owner.name" .notEquals (some (.bool true))]

theorem fields_stockText :
    (read stockText = .ok stockRule ∧ fields stockText = ["stock", "kind", "owner.name"] ∧
      ∃ scan, tokens stockText = .ok scan ∧ FirstMentions
        (names (scan.lexemes.map (·.item))) ["stock", "kind", "owner.name"]) ∧
    (∃ e, read "stock <" = .error e ∧ fields "stock <" = [] ∧ isValid "stock <" = false) := by
  have hread : read stockText = .ok stockRule := by cbv
  have hfields : fields stockText = ["stock", "kind", "owner.name"] := by
    rw [fields, hread]
    cbv
  have hnames := (fields_are_names stockText).1 stockRule hread
  rw [hfields] at hnames
  obtain ⟨e, herror⟩ : ∃ e, read "stock <" = .error e :=
    ⟨⟨.unexpectedToken .value none, 7, "stock <"⟩, by cbv⟩
  exact ⟨⟨hread, hfields, hnames⟩, e, herror, (fields_are_names "stock <").2 e herror⟩

end Condition

end FormLogic
