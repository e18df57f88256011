import FormLogic.Proofs.Document.Members
import Mathlib

/-! Which JSON trees are rules, and which rules they are, where every rule is written as an object
and every operator as a name. An object is a rule if its known members have the right kinds and
those that are not null are those of a comparison or of one group; it is the rule that says the
same. -/

namespace FormLogic

namespace Operator

def StandsFor (name : String) (op : Operator) : Prop :=
  op.name = name ∨ op = unknown ∧ ∀ other : Operator, other.name ≠ name

theorem standsFor_ofName (name : String) : StandsFor name (ofName name) := by
  unfold ofName
  cases hfind : all.find? (·.name == name) with
  | some op =>
    have hname := List.find?_some hfind
    exact .inl (beq_iff_eq.1 hname)
  | none =>
    refine .inr ⟨rfl, fun other hother => ?_⟩
    exact List.find?_eq_none.1 hfind other (mem_all other) (beq_iff_eq.2 hother)

theorem StandsFor.eq_ofName {name : String} {op : Operator} (h : StandsFor name op) :
    op = ofName name := by
  rcases h with rfl | ⟨rfl, hother⟩
  · exact (ofName_name op).symm
  · rcases standsFor_ofName name with hname | ⟨hunknown, -⟩
    · exact absurd hname (hother _)
    · exact hunknown.symm

end Operator

namespace Document

def isGiven : Option Json → Bool
  | none | some .null => false
  | some _ => true

def givenKeys (entries : List (Json.Content × Json)) : List String :=
  ["field", "operator", "and", "or"].filter fun key => isGiven (member? key entries)

/-- Every rule object in the tree has one shape. Known keys are not repeated; other keys do not
matter. -/
inductive IsRule : Json → Prop
  | object {entries : List (Json.Content × Json)}
    (once : ∀ key ∈ ruleKeys, (entries.map (·.1)).count (some key) ≤ 1)
    (texts : ∀ key ∈ ["field", "operator"], ∀ j ∈ member? key entries,
      j = .null ∨ ∃ s, j = .string s)
    (groups : ∀ key ∈ ["and", "or"], ∀ j ∈ member? key entries,
      j = .null ∨ ∃ items, j = .array items)
    (children : ∀ key ∈ ["and", "or"], ∀ items, member? key entries = some (.array items) →
      ∀ item ∈ items, IsRule item)
    (shape : givenKeys entries ∈ [["field", "operator"], ["and"], ["or"]]) :
    IsRule (.object entries)

/-- No rule in the tree is written as an array, and no operator as an object. -/
inductive SpelledOut : Json → Prop
  | object {entries : List (Json.Content × Json)}
    (operator : ∀ inner, member? "operator" entries ≠ some (.object inner))
    (children : ∀ key ∈ ["and", "or"], ∀ items, member? key entries = some (.array items) →
      ∀ item ∈ items, SpelledOut item) : SpelledOut (.object entries)
  | other {j : Json} (hobject : ∀ entries, j ≠ .object entries)
    (harray : ∀ items, j ≠ .array items) : SpelledOut j

/-- There is room for every rule in the tree, its names are proper strings and what it compares with
is a proper value. -/
inductive Legible : ℕ → Json → Prop
  | object {inner : ℕ} {entries : List (Json.Content × Json)} (passes : Passes entries)
    (texts : ∀ key ∈ ["field", "operator"], member? key entries ≠ some (.string none))
    (value : ∀ j ∈ member? "value" entries, (Value.ofJson? inner j).isSome = true)
    (groups : ∀ key ∈ ["and", "or"], ∀ items, member? key entries = some (.array items) →
      inner ≠ 0)
    (children : ∀ key ∈ ["and", "or"], ∀ items, member? key entries = some (.array items) →
      ∀ item ∈ items, Legible (inner - 1) item) : Legible (inner + 1) (.object entries)
  | other {room : ℕ} {j : Json} (h : ∀ entries, j ≠ .object entries) : Legible room j

mutual

/-- The rule says what the tree says. A value is there where its key is, also if it is null. -/
inductive Mirrors : Json → Rule → Prop
  | compare {entries : List (Json.Content × Json)} {field name : String} {op : Operator}
    {value : Option Value} (shape : givenKeys entries = ["field", "operator"])
    (hfield : member? "field" entries = some (.string (some field)))
    (hname : member? "operator" entries = some (.string (some name)))
    (hop : op.StandsFor name) (hvalue : Option.Rel Json.Denotes (member? "value" entries) value) :
    Mirrors (.object entries) (.compare field op value)
  | all {entries : List (Json.Content × Json)} {items : List Json} {rules : List Rule}
    (shape : givenKeys entries = ["and"]) (hitems : member? "and" entries = some (.array items))
    (hrules : AllMirror items rules) : Mirrors (.object entries) (.all rules)
  | any {entries : List (Json.Content × Json)} {items : List Json} {rules : List Rule}
    (shape : givenKeys entries = ["or"]) (hitems : member? "or" entries = some (.array items))
    (hrules : AllMirror items rules) : Mirrors (.object entries) (.any rules)

inductive AllMirror : List Json → List Rule → Prop
  | nil : AllMirror [] []
  | cons {j : Json} {items : List Json} {rule : Rule} {rules : List Rule} (first : Mirrors j rule)
    (others : AllMirror items rules) : AllMirror (j :: items) (rule :: rules)

end

mutual

theorem Mirrors.unique {j : Json} {rule other : Rule} : Mirrors j rule → Mirrors j other →
    rule = other
  | .compare shape hfield hname hop hvalue, h => by
    cases h with
    | compare _ hfield' hname' hop' hvalue' =>
      obtain rfl := Option.some.inj (Json.string.inj (Option.some.inj (hfield.symm.trans hfield')))
      obtain rfl := Option.some.inj (Json.string.inj (Option.some.inj (hname.symm.trans hname')))
      rw [hop.eq_ofName, hop'.eq_ofName, Json.eq_of_rel_denotes hvalue hvalue']
    | all shape' => exact absurd (shape.symm.trans shape') (by decide)
    | any shape' => exact absurd (shape.symm.trans shape') (by decide)
  | .all shape hitems hrules, h => by
    cases h with
    | compare shape' => exact absurd (shape.symm.trans shape') (by decide)
    | all _ hitems' hrules' =>
      obtain rfl := Json.array.inj (Option.some.inj (hitems.symm.trans hitems'))
      rw [hrules.unique hrules']
    | any shape' => exact absurd (shape.symm.trans shape') (by decide)
  | .any shape hitems hrules, h => by
    cases h with
    | compare shape' => exact absurd (shape.symm.trans shape') (by decide)
    | all shape' => exact absurd (shape.symm.trans shape') (by decide)
    | any _ hitems' hrules' =>
      obtain rfl := Json.array.inj (Option.some.inj (hitems.symm.trans hitems'))
      rw [hrules.unique hrules']

theorem AllMirror.unique {items : List Json} {rules others : List Rule} : AllMirror items rules →
    AllMirror items others → rules = others
  | .nil, h => by
    cases h
    rfl
  | .cons first rest, h => by
    cases h with
    | cons first' rest' => rw [first.unique first', rest.unique rest']

end

theorem isSome_join_of_rel {α : Type} {reads : Json → Option α → Prop}
    (hnull : ∀ j x, reads j x → (x = none ↔ j = .null)) {member : Option Json}
    {after : Option (Option α)} (h : Option.Rel reads member after) :
    after.join.isSome = isGiven member := by
  cases h with
  | none => rfl
  | @some j x hread =>
    cases x with
    | none =>
      obtain rfl := (hnull j none hread).1 rfl
      rfl
    | some y =>
      have hne : j ≠ .null := fun heq => by cases (hnull j (some y) hread).2 heq
      cases j with
      | null => exact absurd rfl hne
      | _ => rfl

section

variable {room : ℕ} {entries : List (Json.Content × Json)} {m : RuleMembers}

theorem Gathers.isSome_field (h : Gathers room entries m) :
    m.field.join.isSome = isGiven (member? "field" entries) :=
  isSome_join_of_rel (fun _ _ => eq_null_iff_of_stringMember?) h.field

theorem Gathers.isSome_operator (h : Gathers room entries m) :
    m.operator.join.isSome = isGiven (member? "operator" entries) :=
  isSome_join_of_rel (fun _ _ => eq_null_iff_of_operatorMember?) h.operator

theorem Gathers.isSome_all (h : Gathers room entries m) :
    m.all.join.isSome = isGiven (member? "and" entries) :=
  isSome_join_of_rel (fun _ _ => eq_null_iff_of_groupOfJson) h.all

theorem Gathers.isSome_any (h : Gathers room entries m) :
    m.any.join.isSome = isGiven (member? "or" entries) :=
  isSome_join_of_rel (fun _ _ => eq_null_iff_of_groupOfJson) h.any

theorem Gathers.givenKeys_eq (h : Gathers room entries m) :
    givenKeys entries = (if m.field.join.isSome then ["field"] else []) ++
      ((if m.operator.join.isSome then ["operator"] else []) ++
        ((if m.all.join.isSome then ["and"] else []) ++
          if m.any.join.isSome then ["or"] else [])) := by
  rw [h.isSome_field, h.isSome_operator, h.isSome_all, h.isSome_any, givenKeys]
  simp only [List.filter]
  cases isGiven (member? "field" entries) <;> cases isGiven (member? "operator" entries) <;>
    cases isGiven (member? "and" entries) <;> cases isGiven (member? "or" entries) <;> rfl

theorem Gathers.exists_toRule_iff (h : Gathers room entries m) :
    (∃ rule, m.toRule = .ok rule) ↔
      givenKeys entries ∈ [["field", "operator"], ["and"], ["or"]] := by
  rw [h.givenKeys_eq]
  unfold RuleMembers.toRule
  cases m.field.join <;> cases m.operator.join <;> cases m.all.join <;> cases m.any.join <;> simp

theorem exists_of_rel {α : Type} {reads : Json → α → Prop} {member : Option Json}
    {after : Option α} (h : Option.Rel reads member after) : ∀ j ∈ member, ∃ x, reads j x := by
  cases h with
  | none => exact nofun
  | some hread =>
    rintro _ ⟨⟩
    exact ⟨_, hread⟩

theorem exists_rel {α : Type} {reads : Json → α → Prop} {member : Option Json}
    (h : ∀ j ∈ member, ∃ x, reads j x) : ∃ after, Option.Rel reads member after := by
  cases member with
  | none => exact ⟨none, .none⟩
  | some j =>
    obtain ⟨x, hx⟩ := h j rfl
    exact ⟨some x, .some hx⟩

theorem exists_of_join_eq_some {α : Type} {reads : Json → Option α → Prop} {member : Option Json}
    {after : Option (Option α)} (h : Option.Rel reads member after) {y : α}
    (hjoin : after.join = some y) : ∃ j, member = some j ∧ reads j (some y) := by
  obtain rfl := Option.join_eq_some_iff.1 hjoin
  cases h with
  | some hread => exact ⟨_, rfl, hread⟩

theorem rel_denotes {member : Option Json} {after : Option Value}
    (h : Option.Rel (fun j x => Value.ofJson? room j = some x) member after) :
    Option.Rel Json.Denotes member after := by
  cases h with
  | none => exact .none
  | some hread => exact .some ⟨room, hread⟩

theorem Gathers.texts (h : Gathers room entries m)
    (hfull : ∀ inner, member? "operator" entries ≠ some (.object inner)) :
    ∀ key ∈ ["field", "operator"], ∀ j ∈ member? key entries, j = .null ∨ ∃ s, j = .string s := by
  have hfield : ∀ j ∈ member? "field" entries, j = .null ∨ ∃ s, j = .string s := by
    intro j hj
    obtain ⟨x, hx⟩ := exists_of_rel h.field j hj
    exact (stringMember?_eq_some_iff.1 hx).imp (·.1) fun ⟨s, hs, _⟩ => ⟨some s, hs⟩
  have hoperator : ∀ j ∈ member? "operator" entries, j = .null ∨ ∃ s, j = .string s := by
    intro j hj
    obtain ⟨x, hx⟩ := exists_of_rel h.operator j hj
    have hobject : ∀ inner, j ≠ .object inner := fun inner heq => hfull inner (heq ▸ hj)
    exact ((operatorMember?_eq_some_iff hobject).1 hx).imp (·.1) fun ⟨s, hs, _⟩ => ⟨some s, hs⟩
  simpa using ⟨hfield, hoperator⟩

theorem Gathers.groups (h : Gathers room entries m) : ∀ key ∈ ["and", "or"],
    ∀ j ∈ member? key entries, ∃ group, groupOfJson room j = .ok group := by
  simpa using ⟨exists_of_rel h.all, exists_of_rel h.any⟩

theorem exists_gathers (once : ∀ key ∈ ruleKeys, (entries.map (·.1)).count (some key) ≤ 1)
    (texts : ∀ key ∈ ["field", "operator"], ∀ j ∈ member? key entries,
      j = .null ∨ ∃ s, j = .string (some s))
    (value : ∀ j ∈ member? "value" entries, ∃ v, Value.ofJson? room j = some v)
    (groups : ∀ key ∈ ["and", "or"], ∀ j ∈ member? key entries,
      ∃ group, groupOfJson room j = .ok group)
    (passes : Passes entries) : ∃ m, Gathers room entries m := by
  have hfield : ∀ j ∈ member? "field" entries, ∃ x, stringMember? j = some x := by
    intro j hj
    rcases texts "field" (by decide) j hj with rfl | ⟨s, rfl⟩
    · exact ⟨none, rfl⟩
    · exact ⟨some s, rfl⟩
  have hoperator : ∀ j ∈ member? "operator" entries, ∃ x, operatorMember? room j = some x := by
    intro j hj
    rcases texts "operator" (by decide) j hj with rfl | ⟨s, rfl⟩
    · exact ⟨none, rfl⟩
    · exact ⟨some (.ofName s), rfl⟩
  obtain ⟨field, hfield⟩ := exists_rel hfield
  obtain ⟨operator, hoperator⟩ := exists_rel hoperator
  obtain ⟨value, hvalue⟩ := exists_rel value
  obtain ⟨all, hall⟩ := exists_rel (groups "and" (by decide))
  obtain ⟨any, hany⟩ := exists_rel (groups "or" (by decide))
  exact ⟨⟨field, operator, value, all, any⟩, once, hfield, hoperator, hvalue, hall, hany, passes⟩

theorem Gathers.mirrors_toRule (h : Gathers room entries m)
    (hfull : ∀ inner, member? "operator" entries ≠ some (.object inner))
    (hgroups : ∀ key ∈ ["and", "or"], ∀ items, member? key entries = some (.array items) →
      ∀ inner rules, room = inner + 1 → rulesOfJson inner items = .ok rules → AllMirror items rules)
    {rule : Rule} (hrule : m.toRule = .ok rule) : Mirrors (.object entries) rule := by
  have hshape := h.givenKeys_eq
  have hgroup : ∀ key ∈ ["and", "or"], ∀ {group : Option (Option (List Rule))} {rules : List Rule},
      Option.Rel (fun j x => groupOfJson room j = .ok x) (member? key entries) group →
        group.join = some rules →
          ∃ items, member? key entries = some (.array items) ∧ AllMirror items rules := by
    intro key hkey group rules hrel hjoin
    obtain ⟨j, hmember, hread⟩ := exists_of_join_eq_some hrel hjoin
    rcases groupOfJson_eq_ok_iff.1 hread with ⟨-, ⟨⟩⟩ | ⟨items, inner, _, rfl, hroom, hrules, ⟨⟩⟩
    exact ⟨items, hmember, hgroups key hkey items hmember inner _ hroom hrules⟩
  unfold RuleMembers.toRule at hrule
  split at hrule
  · next rules hfield hoperator hall hany =>
    cases hrule
    rw [hfield, hoperator, hall, hany] at hshape
    obtain ⟨items, hitems, hmirror⟩ := hgroup "and" (by decide) h.all hall
    exact .all hshape hitems hmirror
  · next rules hfield hoperator hall hany =>
    cases hrule
    rw [hfield, hoperator, hall, hany] at hshape
    obtain ⟨items, hitems, hmirror⟩ := hgroup "or" (by decide) h.any hany
    exact .any hshape hitems hmirror
  · next field op hfield hoperator hall hany =>
    cases hrule
    rw [hfield, hoperator, hall, hany] at hshape
    obtain ⟨j, hj, hread⟩ := exists_of_join_eq_some h.field hfield
    obtain ⟨i, hi, hname⟩ := exists_of_join_eq_some h.operator hoperator
    have hobject : ∀ inner, i ≠ .object inner := fun inner heq => hfull inner (heq ▸ hi)
    rcases stringMember?_eq_some_iff.1 hread with ⟨-, ⟨⟩⟩ | ⟨_, rfl, ⟨⟩⟩
    rcases (operatorMember?_eq_some_iff hobject).1 hname with ⟨-, ⟨⟩⟩ | ⟨word, rfl, ⟨⟩⟩
    exact .compare hshape hj hi (Operator.standsFor_ofName word) (rel_denotes h.value)
  all_goals cases hrule

end

theorem exists_eq_object_of_ruleOfJson {room : ℕ} {j : Json} {rule : Rule}
    (harray : ∀ items, j ≠ .array items) (h : ruleOfJson room j = .ok rule) :
    ∃ entries, j = .object entries := by
  cases j with
  | object entries => exact ⟨entries, rfl⟩
  | array items => exact absurd rfl (harray items)
  | _ => cases h

theorem isRule_and_mirrors_of_ruleOfJson {j : Json} (hj : SpelledOut j) {room : ℕ} {rule : Rule}
    (h : ruleOfJson room j = .ok rule) : IsRule j ∧ Mirrors j rule := by
  induction hj generalizing room rule with
  | other hobject harray =>
    obtain ⟨entries, rfl⟩ := exists_eq_object_of_ruleOfJson harray h
    exact absurd rfl (hobject entries)
  | @object entries operator children ih =>
    obtain ⟨inner, m, rfl, hm, hrule⟩ := ruleOfJson_object_eq_ok_iff.1 h
    have hrules : ∀ key ∈ ["and", "or"], ∀ items, member? key entries = some (.array items) →
        ∀ deeper rules, inner = deeper + 1 → rulesOfJson deeper items = .ok rules →
          (∀ item ∈ items, IsRule item) ∧ AllMirror items rules := by
      rintro key hkey items hitems deeper rules rfl hread
      have hitem := ih key hkey items hitems
      clear hitems
      induction rulesOfJson_eq_ok_iff.1 hread with
      | nil => exact ⟨nofun, .nil⟩
      | cons hfirst hrest ihrest =>
        obtain ⟨hown, hothers⟩ := List.forall_mem_cons.1 hitem
        obtain ⟨hshape, hmirror⟩ := hown hfirst
        obtain ⟨hshapes, hmirrors⟩ := ihrest (rulesOfJson_eq_ok_iff.2 hrest) hothers
        exact ⟨List.forall_mem_cons.2 ⟨hshape, hshapes⟩, .cons hmirror hmirrors⟩
    refine ⟨.object hm.once (hm.texts operator) ?_ ?_ (hm.exists_toRule_iff.1 ⟨rule, hrule⟩),
      hm.mirrors_toRule operator (fun key hkey items hitems deeper rules hinner hread =>
        (hrules key hkey items hitems deeper rules hinner hread).2) hrule⟩
    · intro key hkey j hj
      obtain ⟨group, hgroup⟩ := hm.groups key hkey j hj
      rcases groupOfJson_eq_ok_iff.1 hgroup with ⟨rfl, -⟩ | ⟨items, _, _, rfl, -⟩
      · exact .inl rfl
      · exact .inr ⟨items, rfl⟩
    · intro key hkey items hitems
      obtain ⟨group, hgroup⟩ := hm.groups key hkey _ hitems
      rcases groupOfJson_eq_ok_iff.1 hgroup with ⟨⟨⟩, -⟩ | ⟨_, deeper, rules, ⟨⟩, hinner, hread, -⟩
      exact (hrules key hkey items hitems deeper rules hinner hread).1

theorem exists_ruleOfJson_of_isRule {j : Json} (h : IsRule j) {room : ℕ} (hj : Legible room j) :
    ∃ rule, ruleOfJson room j = .ok rule := by
  induction h generalizing room with
  | @object entries once texts groups children shape ih =>
    cases hj with
    | other hobject => exact absurd rfl (hobject entries)
    | @object inner _ passes proper value hroom hchildren =>
      have htexts : ∀ key ∈ ["field", "operator"], ∀ j ∈ member? key entries,
          j = .null ∨ ∃ s, j = .string (some s) := by
        intro key hkey j hmember
        rcases texts key hkey j hmember with rfl | ⟨none | s, rfl⟩
        · exact .inl rfl
        · exact absurd hmember (proper key hkey)
        · exact .inr ⟨s, rfl⟩
      have hgroups : ∀ key ∈ ["and", "or"], ∀ j ∈ member? key entries,
          ∃ group, groupOfJson inner j = .ok group := by
        intro key hkey j hmember
        rcases groups key hkey j hmember with rfl | ⟨items, rfl⟩
        · exact ⟨none, groupOfJson_eq_ok_iff.2 (.inl ⟨rfl, rfl⟩)⟩
        · obtain ⟨deeper, rfl⟩ := Nat.exists_eq_succ_of_ne_zero (hroom key hkey items hmember)
          have hread : ∀ item ∈ items, ∃ rule, ruleOfJson deeper item = .ok rule :=
            fun item hitem => ih key hkey items hmember item hitem
              (hchildren key hkey items hmember item hitem)
          obtain ⟨rules, hrules⟩ := exists_rulesOfJson hread
          have hgroup := groupOfJson_eq_ok_iff.2 (.inr ⟨items, deeper, rules, rfl, rfl, hrules, rfl⟩)
          exact ⟨some rules, hgroup⟩
      obtain ⟨m, hm⟩ := exists_gathers once htexts
        (fun j hmember => Option.isSome_iff_exists.1 (value j hmember)) hgroups passes
      obtain ⟨rule, hrule⟩ := hm.exists_toRule_iff.2 shape
      exact ⟨rule, ruleOfJson_object_eq_ok_iff.2 ⟨inner, m, rfl, hm, hrule⟩⟩

theorem exists_ruleOfJson_iff {room : ℕ} {j : Json} (hfull : SpelledOut j) (hj : Legible room j) :
    (∃ rule, ruleOfJson room j = .ok rule) ↔ IsRule j := by
  constructor
  · rintro ⟨rule, hrule⟩
    exact (isRule_and_mirrors_of_ruleOfJson hfull hrule).1
  · exact fun h => exists_ruleOfJson_of_isRule h hj

theorem ruleOfJson_eq_ok_iff_mirrors {room : ℕ} {j : Json} (hfull : SpelledOut j)
    (hj : Legible room j) (rule : Rule) :
    ruleOfJson room j = .ok rule ↔ IsRule j ∧ Mirrors j rule := by
  refine ⟨isRule_and_mirrors_of_ruleOfJson hfull, ?_⟩
  rintro ⟨hshape, hmirror⟩
  obtain ⟨found, hfound⟩ := exists_ruleOfJson_of_isRule hshape hj
  rwa [hmirror.unique (isRule_and_mirrors_of_ruleOfJson hfull hfound).2]

theorem mem_of_member? {key : String} {entries : List (Json.Content × Json)} {j : Json}
    (h : j ∈ member? key entries) : (some key, j) ∈ entries := by
  obtain ⟨before, after, rfl, -⟩ := List.lookup_eq_some_iff.1 h
  exact List.mem_append_right _ List.mem_cons_self

theorem legible_of_isSome {room : ℕ} {j : Json} (h : (Value.ofJson? room j).isSome = true) :
    Legible room j := by
  induction room using Nat.strong_induction_on generalizing j with
  | h room ih =>
    cases j with
    | object entries =>
      obtain ⟨inner, rfl, hentries⟩ := Value.isSome_ofJson?_object_iff.1 h
      have hmember : ∀ key, ∀ j ∈ member? key entries, (Value.ofJson? inner j).isSome = true :=
        fun key j hj => (hentries _ (mem_of_member? hj)).2
      refine .object (fun entry hentry => ⟨(hentries entry hentry).1, fun _ =>
        Value.isWhole_of_isSome (hentries entry hentry).2⟩) ?_ (hmember "value") ?_ ?_
      · intro key _ hnone
        cases hmember key _ hnone
      · rintro key - items hitems rfl
        cases hmember key _ hitems
      · intro key _ items hitems item hitem
        obtain ⟨deeper, rfl, hall⟩ := Value.isSome_ofJson?_array_iff.1 (hmember key _ hitems)
        exact ih deeper (by omega) (hall item hitem)
    | _ => exact .other nofun

theorem ofText_eq_ok_iff {text : String} (h : (Json.read text).ends = true) {rule : Rule} :
    Rule.ofText text = .ok rule ↔ ruleOfJson Json.maxNesting (Json.read text).root = .ok rule := by
  simp only [Rule.ofText]
  split
  · next hfault => rw [hfault]
  · next hfound => rw [hfound, if_pos h]

/-- A JSON tree is read as a rule just when every rule object in it has one shape, and the rule is
the one that mirrors it. So it is with the trees of texts. -/
theorem rules_by_shape :
    (∀ (room : ℕ) (j : Json), SpelledOut j → Legible room j →
      ((∃ rule, ruleOfJson room j = .ok rule) ↔ IsRule j) ∧
        ∀ rule, ruleOfJson room j = .ok rule ↔ IsRule j ∧ Mirrors j rule) ∧
    ∀ text, (Json.read text).ends = true → SpelledOut (Json.read text).root →
      Legible Json.maxNesting (Json.read text).root →
        ((∃ rule, Rule.ofText text = .ok rule) ↔ IsRule (Json.read text).root) ∧
          ∀ rule, Rule.ofText text = .ok rule ↔
            IsRule (Json.read text).root ∧ Mirrors (Json.read text).root rule := by
  constructor
  · intro room j hfull hj
    exact ⟨exists_ruleOfJson_iff hfull hj, ruleOfJson_eq_ok_iff_mirrors hfull hj⟩
  · intro text hends hfull hroot
    simp only [ofText_eq_ok_iff hends]
    exact ⟨exists_ruleOfJson_iff hfull hroot, ruleOfJson_eq_ok_iff_mirrors hfull hroot⟩

/-- An operator that is not known, a null that is a value and one that is not, and a key that says
nothing, under which there is half a surrogate pair. -/
def planTree : Json :=
  .object [(some "note", .array [.string none]), (some "value", .null), (some "and", .null),
    (some "operator", .string (some "matches")), (some "field", .string (some "plan"))]

def ageTree : Json :=
  .object [(some "field", .string (some "age")), (some "operator", .string (some "isEmpty"))]

def emptyTree : Json :=
  .object [(some "field", .null), (some "or", .array []), (some "value", .bool true)]

def anyTree : Json := .object [(some "or", .array [ageTree])]

def noticeTree : Json :=
  .object [(some "or", .null), (some "and", .array [planTree, emptyTree, anyTree]),
    (some "comment", .object [(some "field", .bool false), (some "field", .null)])]

def noticeRule : Rule :=
  .all [.compare "plan" .unknown (some .null), .any [], .any [.compare "age" .isEmpty none]]

theorem spelledOut_noticeTree : SpelledOut noticeTree := by
  have hplan : SpelledOut planTree := by
    refine .object ?_ ?_ <;> simp [member?, List.lookup_cons]
  have hage : SpelledOut ageTree := by
    refine .object ?_ ?_ <;> simp [member?, List.lookup_cons]
  have hempty : SpelledOut emptyTree := by
    refine .object ?_ ?_ <;> simp [member?, List.lookup_cons]
  have hany : SpelledOut anyTree := by
    refine .object ?_ ?_ <;> simp [member?, List.lookup_cons, hage]
  refine .object ?_ ?_ <;> simp [member?, List.lookup_cons, hplan, hempty, hany]

theorem legible_noticeTree : Legible 6 noticeTree := by
  have hplan : Legible 4 planTree := by
    refine .object ?_ ?_ ?_ ?_ ?_ <;>
      simp [Passes, ruleKeys, member?, List.lookup_cons, Json.isWhole, Json.allWhole, Value.ofJson?]
  have hempty : Legible 4 emptyTree := legible_of_isSome rfl
  have hany : Legible 4 anyTree := legible_of_isSome rfl
  refine .object ?_ ?_ ?_ ?_ ?_ <;>
    simp [Passes, ruleKeys, member?, List.lookup_cons, Json.isWhole, Json.entriesWhole, hplan,
      hempty, hany]

def fieldText : String := "\x7b\"field\": \"plan\"\x7d"

theorem rules_by_shape_notice :
    (SpelledOut noticeTree ∧ Legible 6 noticeTree ∧ ruleOfJson 6 noticeTree = .ok noticeRule ∧
      IsRule noticeTree ∧ Mirrors noticeTree noticeRule) ∧
    ((Json.read fieldText).ends = true ∧ SpelledOut (Json.read fieldText).root ∧
      Legible Json.maxNesting (Json.read fieldText).root) ∧
      ¬ IsRule (Json.read fieldText).root := by
  have hfull := spelledOut_noticeTree
  have hlegible := legible_noticeTree
  have hread : ruleOfJson 6 noticeTree = .ok noticeRule := by cbv
  have hroot : Json.read fieldText = ⟨.object [(some "field", .string (some "plan"))], true⟩ := by
    cbv
  have hfault : Rule.ofText fieldText = .error (.shape (.missingOperator "plan")) := by cbv
  have hends : (Json.read fieldText).ends = true := by rw [hroot]
  have hfieldFull : SpelledOut (Json.read fieldText).root := by
    rw [hroot]
    exact .object (by simp [member?, List.lookup_cons]) (by simp [member?, List.lookup_cons])
  have hfieldLegible : Legible Json.maxNesting (Json.read fieldText).root := by
    rw [hroot]
    exact legible_of_isSome rfl
  obtain ⟨htrees, htexts⟩ := rules_by_shape
  refine ⟨⟨hfull, hlegible, hread, ((htrees 6 noticeTree hfull hlegible).2 noticeRule).1 hread⟩,
    ⟨hends, hfieldFull, hfieldLegible⟩, ?_⟩
  intro hshape
  obtain ⟨rule, hrule⟩ := (htexts fieldText hends hfieldFull hfieldLegible).1.2 hshape
  rw [hfault] at hrule
  cases hrule

end Document

end FormLogic
