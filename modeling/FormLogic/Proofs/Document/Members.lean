import FormLogic.Proofs.Document.Denotation
import FormLogic.Proofs.Document.Rule
import Mathlib

/-! What is read from a rule object: each known key gives one member, every other entry is skipped. -/

namespace FormLogic

namespace Document

def ruleKeys : List String := ["field", "operator", "value", "and", "or"]

def member? (key : String) (entries : List (Json.Content × Json)) : Option Json :=
  entries.lookup (some key)

/-- Every key is a proper string, and what is skipped is not cut off. -/
def Passes (entries : List (Json.Content × Json)) : Prop :=
  ∀ entry ∈ entries, entry.1.isSome = true ∧
    ((∀ key ∈ ruleKeys, entry.1 ≠ some key) → entry.2.isWhole = true)

/-- A member that is here was not there before and is read; one that is not here stays. -/
def Updates {α : Type} (here : Prop) (reads : α → Prop) (before after : Option α) : Prop :=
  (here → before = none ∧ ∃ x, reads x ∧ after = some x) ∧ (¬ here → after = before)

def Adds {α : Type} (key : String) (reads : Json → α → Prop) :
    List (Json.Content × Json) → (before after : Option α) → Prop
  | [], before, after => after = before
  | (k, j) :: rest, before, after =>
    ∃ mid, Updates (k = some key) (reads j) before mid ∧ Adds key reads rest mid after

section

variable {α : Type} {before after : Option α}

theorem updates_true_iff {reads : α → Prop} : Updates True reads before after ↔
    before = none ∧ ∃ x, reads x ∧ after = some x := by
  simp [Updates]

theorem updates_false_iff {reads : α → Prop} :
    Updates False reads before after ↔ after = before := by
  simp [Updates]

variable {key : String} {reads : Json → α → Prop} {entries : List (Json.Content × Json)}

theorem adds_some_iff {x : α} : Adds key reads entries (some x) after ↔
    (entries.map (·.1)).count (some key) = 0 ∧ after = some x := by
  induction entries with
  | nil => exact ⟨fun h => ⟨rfl, h⟩, fun h => h.2⟩
  | cons entry rest ih =>
    obtain ⟨k, j⟩ := entry
    rw [Adds, List.map_cons]
    by_cases hk : k = some key
    · simp only [hk, List.count_cons_self, updates_true_iff]
      exact iff_of_false nofun nofun
    · simp only [hk, List.count_cons_of_ne hk, updates_false_iff, exists_eq_left, ih]

theorem adds_none_iff : Adds key reads entries none after ↔
    (entries.map (·.1)).count (some key) ≤ 1 ∧ Option.Rel reads (member? key entries) after := by
  induction entries with
  | nil =>
    rw [Adds, member?, List.lookup_nil]
    constructor
    · rintro rfl
      exact ⟨Nat.zero_le _, .none⟩
    · rintro ⟨-, ⟨⟩⟩
      rfl
  | cons entry rest ih =>
    obtain ⟨k, j⟩ := entry
    rw [Adds, member?, List.map_cons, List.lookup_cons]
    by_cases hk : k = some key
    · simp only [hk, List.count_cons_self, beq_self_eq_true, updates_true_iff]
      constructor
      · rintro ⟨_, ⟨-, x, hx, rfl⟩, hrest⟩
        obtain ⟨hcount, rfl⟩ := adds_some_iff.1 hrest
        exact ⟨Nat.le_of_eq (congrArg (· + 1) hcount), .some hx⟩
      · rintro ⟨hcount, hrel⟩
        cases hrel with
        | some hx => exact ⟨_, ⟨trivial, _, hx, rfl⟩, adds_some_iff.2 ⟨by omega, rfl⟩⟩
    · have hbeq : (some key == k) = false := beq_eq_false_iff_ne.2 (Ne.symm hk)
      simp only [hk, List.count_cons_of_ne hk, hbeq, updates_false_iff, exists_eq_left, ih]
      rfl

end

theorem passes_cons {key : Json.Content} {j : Json} {rest : List (Json.Content × Json)} :
    Passes ((key, j) :: rest) ↔ (key.isSome = true ∧
      ((∀ k ∈ ruleKeys, key ≠ some k) → j.isWhole = true)) ∧ Passes rest := List.forall_mem_cons

section

variable {room : ℕ} {m found : RuleMembers} {j : Json}

structure Takes (room : ℕ) (here : RuleKey → Prop) (j : Json) (m found : RuleMembers) : Prop where
  field : Updates (here .field) (fun x => stringMember? j = some x) m.field found.field
  operator : Updates (here .operator) (fun x => operatorMember? room j = some x)
    m.operator found.operator
  value : Updates (here .value) (fun x => Value.ofJson? room j = some x) m.value found.value
  all : Updates (here .and) (fun x => groupOfJson room j = .ok x) m.all found.all
  any : Updates (here .or) (fun x => groupOfJson room j = .ok x) m.any found.any

theorem takes_iff {here : RuleKey → Prop} : Takes room here j m found ↔
    Updates (here .field) (fun x => stringMember? j = some x) m.field found.field ∧
    Updates (here .operator) (fun x => operatorMember? room j = some x)
      m.operator found.operator ∧
    Updates (here .value) (fun x => Value.ofJson? room j = some x) m.value found.value ∧
    Updates (here .and) (fun x => groupOfJson room j = .ok x) m.all found.all ∧
    Updates (here .or) (fun x => groupOfJson room j = .ok x) m.any found.any :=
  ⟨fun ⟨field, operator, value, all, any⟩ => ⟨field, operator, value, all, any⟩,
    fun ⟨field, operator, value, all, any⟩ => ⟨field, operator, value, all, any⟩⟩

theorem takes_iff_of_not {here : RuleKey → Prop} (h : ∀ key, ¬ here key) :
    Takes room here j m found ↔ found = m := by
  obtain ⟨field, operator, value, all, any⟩ := m
  obtain ⟨field', operator', value', all', any'⟩ := found
  simp only [takes_iff, h, updates_false_iff, RuleMembers.mk.injEq]

theorem RuleMembers.add_eq_ok_iff {key : RuleKey} :
    m.add room j (groupOfJson room j) key = .ok found ↔ Takes room (key = ·) j m found := by
  obtain ⟨field, operator, value, all, any⟩ := m
  obtain ⟨field', operator', value', all', any'⟩ := found
  rw [takes_iff]
  cases key with
  | field | operator | value =>
    simp only [RuleMembers.add, updates_true_iff, updates_false_iff, reduceCtorEq]
    split <;> grind
  | and | or =>
    simp only [RuleMembers.add, updates_true_iff, updates_false_iff, reduceCtorEq]
    split
    · rw [map_eq_ok_iff]
      grind
    · grind

theorem membersOfJson_cons_eq_ok_iff {name : Json.Content} {rest : List (Json.Content × Json)} :
    membersOfJson room m ((name, j) :: rest) = .ok found ↔
      (name.isSome = true ∧ ((∀ k ∈ ruleKeys, name ≠ some k) → j.isWhole = true)) ∧
        ∃ mid, Takes room (fun key => name = some key.name) j m mid ∧
          membersOfJson room mid rest = .ok found := by
  cases name with
  | none => exact iff_of_false nofun nofun
  | some name =>
    rw [membersOfJson]
    cases hkey : RuleKey.ofName? name with
    | none =>
      have hother : ∀ key : RuleKey, some name ≠ some key.name := by
        rintro key ⟨⟩
        cases hkey.symm.trans key.ofName?_name
      have hunknown : ∀ k ∈ ruleKeys, some name ≠ some k := by
        intro k hk
        obtain ⟨key, -, rfl⟩ : ∃ key ∈ RuleKey.all, key.name = k := List.mem_map.1 hk
        exact hother key
      have hentry : ((some name).isSome = true ∧
          ((∀ k ∈ ruleKeys, some name ≠ some k) → j.isWhole = true)) ↔ j.isWhole = true :=
        ⟨fun h => h.2 hunknown, fun h => ⟨rfl, fun _ => h⟩⟩
      rw [hentry]
      simp only [takes_iff_of_not hother, exists_eq_left]
      cases j.isWhole <;> simp
    | some key =>
      obtain rfl := RuleKey.ofName?_eq_some_iff.1 hkey
      have hhere : (fun other : RuleKey => some key.name = some other.name) = (key = ·) :=
        funext fun other => by rw [Option.some.injEq, RuleKey.name_injective.eq_iff]
      have hknown : key.name ∈ ruleKeys := List.mem_map_of_mem key.mem_all
      simp only [bind_eq_ok_iff, RuleMembers.add_eq_ok_iff, hhere]
      exact (and_iff_right ⟨rfl, fun h => absurd rfl (h key.name hknown)⟩).symm

theorem membersOfJson_eq_ok_iff {entries : List (Json.Content × Json)} :
    membersOfJson room m entries = .ok found ↔
      Adds "field" (fun j x => stringMember? j = some x) entries m.field found.field ∧
      Adds "operator" (fun j x => operatorMember? room j = some x) entries m.operator
        found.operator ∧
      Adds "value" (fun j x => Value.ofJson? room j = some x) entries m.value found.value ∧
      Adds "and" (fun j x => groupOfJson room j = .ok x) entries m.all found.all ∧
      Adds "or" (fun j x => groupOfJson room j = .ok x) entries m.any found.any ∧
      Passes entries := by
  induction entries generalizing m with
  | nil =>
    rw [membersOfJson, Except.ok.injEq]
    constructor
    · rintro rfl
      exact ⟨rfl, rfl, rfl, rfl, rfl, nofun⟩
    · obtain ⟨field, operator, value, all, any⟩ := found
      rintro ⟨rfl, rfl, rfl, rfl, rfl, -⟩
      rfl
  | cons entry rest ih =>
    obtain ⟨key, j⟩ := entry
    rw [membersOfJson_cons_eq_ok_iff, passes_cons]
    constructor
    · rintro ⟨hentry, mid, hmid, hrest⟩
      obtain ⟨field, operator, value, all, any, passes⟩ := ih.1 hrest
      exact ⟨⟨_, hmid.field, field⟩, ⟨_, hmid.operator, operator⟩, ⟨_, hmid.value, value⟩,
        ⟨_, hmid.all, all⟩, ⟨_, hmid.any, any⟩, hentry, passes⟩
    · rintro ⟨⟨f, hf, field⟩, ⟨o, ho, operator⟩, ⟨v, hv, value⟩, ⟨a, ha, all⟩, ⟨y, hy, any⟩,
        hentry, passes⟩
      exact ⟨hentry, ⟨f, o, v, a, y⟩, ⟨hf, ho, hv, ha, hy⟩,
        ih.2 ⟨field, operator, value, all, any, passes⟩⟩

end

structure Gathers (room : ℕ) (entries : List (Json.Content × Json)) (m : RuleMembers) : Prop where
  once : ∀ key ∈ ruleKeys, (entries.map (·.1)).count (some key) ≤ 1
  field : Option.Rel (fun j x => stringMember? j = some x) (member? "field" entries) m.field
  operator : Option.Rel (fun j x => operatorMember? room j = some x)
    (member? "operator" entries) m.operator
  value : Option.Rel (fun j x => Value.ofJson? room j = some x) (member? "value" entries) m.value
  all : Option.Rel (fun j x => groupOfJson room j = .ok x) (member? "and" entries) m.all
  any : Option.Rel (fun j x => groupOfJson room j = .ok x) (member? "or" entries) m.any
  passes : Passes entries

theorem membersOfJson_none_eq_ok_iff {room : ℕ} {entries : List (Json.Content × Json)}
    {m : RuleMembers} : membersOfJson room .none entries = .ok m ↔ Gathers room entries m := by
  simp only [membersOfJson_eq_ok_iff, RuleMembers.none, adds_none_iff]
  constructor
  · rintro ⟨⟨hf, field⟩, ⟨ho, operator⟩, ⟨hv, value⟩, ⟨ha, all⟩, ⟨hy, any⟩, passes⟩
    exact ⟨by simpa [ruleKeys] using ⟨hf, ho, hv, ha, hy⟩, field, operator, value, all, any, passes⟩
  · rintro ⟨once, field, operator, value, all, any, passes⟩
    exact ⟨⟨once _ (by decide), field⟩, ⟨once _ (by decide), operator⟩,
      ⟨once _ (by decide), value⟩, ⟨once _ (by decide), all⟩, ⟨once _ (by decide), any⟩, passes⟩

theorem ruleOfJson_object_eq_ok_iff {room : ℕ} {entries : List (Json.Content × Json)} {rule : Rule} :
    ruleOfJson room (.object entries) = .ok rule ↔
      ∃ inner m, room = inner + 1 ∧ Gathers inner entries m ∧ m.toRule = .ok rule := by
  cases room with
  | zero => exact iff_of_false nofun nofun
  | succ inner =>
    rw [ruleOfJson, if_neg (Nat.succ_ne_zero inner), Nat.add_sub_cancel, bind_eq_ok_iff]
    simp only [mapError_eq_ok_iff, membersOfJson_none_eq_ok_iff]
    constructor
    · rintro ⟨m, hm, hrule⟩
      exact ⟨inner, m, rfl, hm, hrule⟩
    · rintro ⟨_, m, ⟨⟩, hm, hrule⟩
      exact ⟨m, hm, hrule⟩

theorem rulesOfJson_eq_ok_iff {room : ℕ} {items : List Json} {rules : List Rule} :
    rulesOfJson room items = .ok rules ↔
      List.Forall₂ (fun j rule => ruleOfJson room j = .ok rule) items rules := by
  induction items generalizing rules with
  | nil =>
    rw [rulesOfJson, Except.ok.injEq, List.forall₂_nil_left_iff, eq_comm]
  | cons j rest ih =>
    rw [rulesOfJson, List.forall₂_cons_left_iff]
    cases hfirst : ruleOfJson room j with
    | error fault => exact iff_of_false nofun nofun
    | ok first =>
      cases hothers : rulesOfJson room rest with
      | error fault =>
        refine iff_of_false nofun ?_
        rintro ⟨rule, others, -, hrest, -⟩
        rw [ih.2 hrest] at hothers
        cases hothers
      | ok others =>
        constructor
        · rintro ⟨⟩
          exact ⟨first, others, rfl, ih.1 hothers, rfl⟩
        · rintro ⟨rule, more, ⟨⟩, hrest, rfl⟩
          rw [ih.2 hrest] at hothers
          cases hothers
          rfl

theorem exists_rulesOfJson {room : ℕ} {items : List Json}
    (h : ∀ item ∈ items, ∃ rule, ruleOfJson room item = .ok rule) :
    ∃ rules, rulesOfJson room items = .ok rules := by
  induction items with
  | nil => exact ⟨[], rfl⟩
  | cons item rest ih =>
    obtain ⟨⟨rule, hrule⟩, hrest⟩ := List.forall_mem_cons.1 h
    obtain ⟨rules, hrules⟩ := ih hrest
    exact ⟨rule :: rules, rulesOfJson_eq_ok_iff.2 (.cons hrule (rulesOfJson_eq_ok_iff.1 hrules))⟩

theorem groupOfJson_eq_ok_iff {room : ℕ} {j : Json} {group : Option (List Rule)} :
    groupOfJson room j = .ok group ↔ (j = .null ∧ group = none) ∨
      ∃ items inner rules, j = .array items ∧ room = inner + 1 ∧
        rulesOfJson inner items = .ok rules ∧ group = some rules := by
  cases j with
  | null =>
    rw [groupOfJson]
    constructor
    · rintro ⟨⟩
      exact .inl ⟨rfl, rfl⟩
    · rintro (⟨-, rfl⟩ | ⟨_, _, _, ⟨⟩, -⟩)
      rfl
  | array items =>
    cases room with
    | zero =>
      refine iff_of_false nofun ?_
      rintro (⟨⟨⟩, -⟩ | ⟨_, _, _, -, ⟨⟩, -⟩)
    | succ inner =>
      rw [groupOfJson, if_neg (Nat.succ_ne_zero inner), Nat.add_sub_cancel]
      cases hrules : rulesOfJson inner items with
      | error fault =>
        refine iff_of_false nofun ?_
        rintro (⟨⟨⟩, -⟩ | ⟨_, _, rules, ⟨⟩, ⟨⟩, hread, -⟩)
        rw [hread] at hrules
        cases hrules
      | ok rules =>
        constructor
        · rintro ⟨⟩
          exact .inr ⟨items, inner, rules, rfl, rfl, hrules, rfl⟩
        · rintro (⟨⟨⟩, -⟩ | ⟨_, _, found, ⟨⟩, ⟨⟩, hread, rfl⟩)
          rw [hread] at hrules
          cases hrules
          rfl
  | _ =>
    refine iff_of_false nofun ?_
    rintro (⟨⟨⟩, -⟩ | ⟨_, _, _, ⟨⟩, -⟩)

theorem stringMember?_eq_some_iff {j : Json} {x : Option String} :
    stringMember? j = some x ↔ (j = .null ∧ x = none) ∨ ∃ s, j = .string (some s) ∧ x = some s := by
  unfold stringMember?
  split
  · simp [eq_comm]
  · simp [eq_comm]
  · next hnull hstring => simpa using ⟨fun h => (hnull h).elim, fun s h => (hstring s h).elim⟩

theorem eq_null_iff_of_stringMember? {j : Json} {x : Option String} (h : stringMember? j = some x) :
    x = none ↔ j = .null := by
  rcases stringMember?_eq_some_iff.1 h with ⟨rfl, rfl⟩ | ⟨s, rfl, rfl⟩
  · exact iff_of_true rfl rfl
  · exact iff_of_false nofun nofun

theorem eq_null_iff_of_operatorMember? {room : ℕ} {j : Json} {x : Option Operator}
    (h : operatorMember? room j = some x) : x = none ↔ j = .null := by
  unfold operatorMember? at h
  split at h
  · split at h
    · cases h
    · cases h
      exact iff_of_false nofun nofun
  · obtain ⟨name, hname, rfl⟩ := Option.map_eq_some_iff.1 h
    rw [Option.map_eq_none_iff, eq_null_iff_of_stringMember? hname]

theorem operatorMember?_eq_some_iff {room : ℕ} {j : Json} (hj : ∀ entries, j ≠ .object entries)
    {x : Option Operator} : operatorMember? room j = some x ↔
      (j = .null ∧ x = none) ∨ ∃ name, j = .string (some name) ∧ x = some (.ofName name) := by
  unfold operatorMember?
  split
  · exact absurd rfl (hj _)
  · rw [Option.map_eq_some_iff]
    simp only [stringMember?_eq_some_iff]
    constructor
    · rintro ⟨_, ⟨rfl, rfl⟩ | ⟨name, rfl, rfl⟩, rfl⟩
      · exact .inl ⟨rfl, rfl⟩
      · exact .inr ⟨name, rfl, rfl⟩
    · rintro (⟨rfl, rfl⟩ | ⟨name, rfl, rfl⟩)
      · exact ⟨none, .inl ⟨rfl, rfl⟩, rfl⟩
      · exact ⟨some name, .inr ⟨name, rfl, rfl⟩, rfl⟩

theorem eq_null_iff_of_groupOfJson {room : ℕ} {j : Json} {x : Option (List Rule)}
    (h : groupOfJson room j = .ok x) : x = none ↔ j = .null := by
  rcases groupOfJson_eq_ok_iff.1 h with ⟨rfl, rfl⟩ | ⟨_, _, _, rfl, _, _, rfl⟩
  · exact iff_of_true rfl rfl
  · exact iff_of_false nofun nofun

end Document

end FormLogic
