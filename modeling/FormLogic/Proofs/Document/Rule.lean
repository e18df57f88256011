import FormLogic.Document.Rule
import FormLogic.Proofs.Document.Value

/-! Rules in JSON documents. -/

namespace FormLogic

namespace Document

/-- The values of a document are in order, and it fits into so many levels. -/
structure Fits (room : Nat) (values : List Value) (j : Json) : Prop where
  ordered : ∀ v ∈ values, v.Ordered
  nesting_le : j.nesting ≤ room

theorem bind_eq_ok_iff {ε α β : Type} {x : Except ε α} {f : α → Except ε β} {b : β} :
    x.bind f = .ok b ↔ ∃ a, x = .ok a ∧ f a = .ok b := by
  cases x with
  | error e => exact iff_of_false nofun nofun
  | ok a => simp [Except.bind]

theorem map_eq_ok_iff {ε α β : Type} {x : Except ε α} {f : α → β} {b : β} :
    x.map f = .ok b ↔ ∃ a, x = .ok a ∧ f a = b := by
  cases x <;> simp [Except.map]

theorem mapError_eq_ok_iff {ε ε' α : Type} {x : Except ε α} {f : ε → ε'} {a : α} :
    x.mapError f = .ok a ↔ x = .ok a := by
  cases x <;> simp [Except.mapError]

theorem RuleKey.ofName?_name (key : RuleKey) : ofName? key.name = some key := by
  cases key <;> rfl

theorem RuleKey.ofName?_eq_some_iff {name : String} {key : RuleKey} :
    ofName? name = some key ↔ key.name = name := by
  constructor
  · intro h
    have hname := List.find?_some h
    exact beq_iff_eq.1 hname
  · rintro rfl
    exact ofName?_name key

theorem RuleKey.name_injective : Function.Injective name := by
  intro key other h
  exact Option.some.inj (by rw [← ofName?_name key, h, ofName?_name])

theorem RuleKey.mem_all (key : RuleKey) : key ∈ all := by
  cases key <;> decide

end Document

namespace Rule

mutual

def values : Rule → List Value
  | compare _ _ value => value.toList
  | all rules | any rules => valuesOfAll rules

def valuesOfAll : List Rule → List Value
  | [] => []
  | rule :: rules => values rule ++ valuesOfAll rules

end

abbrev Fits (room : Nat) (rule : Rule) : Prop := Document.Fits room rule.values rule.toJson

mutual

theorem written_toJson : (rule : Rule) → rule.toJson.Written
  | compare _ _ none => ⟨rfl, rfl, rfl, rfl, trivial⟩
  | compare _ _ (some v) => ⟨rfl, rfl, rfl, rfl, rfl, v.written_toJson, trivial⟩
  | all rules => ⟨rfl, allWritten_listToJson rules, trivial⟩
  | any rules => ⟨rfl, allWritten_listToJson rules, trivial⟩

theorem allWritten_listToJson : (rules : List Rule) → Json.AllWritten (listToJson rules)
  | [] => trivial
  | rule :: rules => ⟨written_toJson rule, allWritten_listToJson rules⟩

end

theorem listToJson_eq_map (rules : List Rule) : listToJson rules = rules.map toJson := by
  induction rules with
  | nil => rfl
  | cons rule rules ih => rw [listToJson, ih, List.map_cons]

theorem forall_mem_valuesOfAll {p : Value → Prop} {rules : List Rule} :
    (∀ v ∈ valuesOfAll rules, p v) ↔ ∀ rule ∈ rules, ∀ v ∈ rule.values, p v := by
  induction rules with
  | nil => simp [valuesOfAll]
  | cons rule rules ih => rw [valuesOfAll, List.forall_mem_append, ih, List.forall_mem_cons]

variable {room : Nat} {rules : List Rule}

theorem fits_compare_iff {field : String} {op : Operator} {value : Option Value} :
    (compare field op value).Fits room ↔
      ∃ inner, room = inner + 1 ∧ ∀ v ∈ value, v.Fits inner := by
  have hnesting : (compare field op value).toJson.nesting = (value.elim 0 (·.toJson.nesting)) + 1 := by
    cases value <;> simp [toJson, Json.nesting, Json.nestingOfEntries]
  constructor
  · rintro ⟨hordered, hroom⟩
    rw [hnesting] at hroom
    obtain ⟨inner, rfl⟩ := Nat.exists_eq_succ_of_ne_zero (Nat.ne_zero_of_lt hroom)
    refine ⟨inner, rfl, ?_⟩
    rintro v rfl
    exact ⟨hordered v (List.mem_singleton.2 rfl), Nat.le_of_succ_le_succ hroom⟩
  · rintro ⟨inner, rfl, hvalue⟩
    refine ⟨fun v hv => (hvalue v (Option.mem_toList.1 hv)).ordered, ?_⟩
    rw [hnesting]
    cases value with
    | none => exact Nat.succ_le_succ (Nat.zero_le _)
    | some v => exact Nat.succ_le_succ (hvalue v rfl).nesting_le

theorem fits_group_iff {rule : Rule} {key : Json.Content} (hvalues : rule.values = valuesOfAll rules)
    (hjson : rule.toJson = .object [(key, .array (listToJson rules))]) :
    rule.Fits room ↔ ∃ inner, room = inner + 2 ∧ ∀ r ∈ rules, r.Fits inner := by
  have hnesting : rule.toJson.nesting = Json.nestingOfItems (rules.map toJson) + 2 := by
    rw [hjson, listToJson_eq_map, Json.nesting, Json.nestingOfEntries, Json.nestingOfEntries,
      Json.nesting, Nat.max_zero]
  constructor
  · rintro ⟨hordered, hroom⟩
    rw [hvalues] at hordered
    rw [hnesting] at hroom
    obtain ⟨inner, rfl⟩ := Nat.exists_eq_add_of_le' (Nat.le_trans (Nat.le_add_left 2 _) hroom)
    have hitems := Json.nestingOfItems_le_iff.1 (Nat.le_of_add_le_add_right hroom)
    exact ⟨inner, rfl, fun r hr => ⟨forall_mem_valuesOfAll.1 hordered r hr,
      hitems _ (List.mem_map_of_mem hr)⟩⟩
  · rintro ⟨inner, rfl, hrules⟩
    refine ⟨hvalues ▸ forall_mem_valuesOfAll.2 fun r hr => (hrules r hr).ordered, ?_⟩
    rw [hnesting]
    refine Nat.add_le_add_right (Json.nestingOfItems_le_iff.2 ?_) 2
    exact List.forall_mem_map.2 fun r hr => (hrules r hr).nesting_le

theorem fits_all_iff : (all rules).Fits room ↔ ∃ inner, room = inner + 2 ∧ ∀ r ∈ rules, r.Fits inner :=
  fits_group_iff rfl rfl

theorem fits_any_iff : (any rules).Fits room ↔ ∃ inner, room = inner + 2 ∧ ∀ r ∈ rules, r.Fits inner :=
  fits_group_iff rfl rfl

open Document

theorem membersOfJson_comparison (room : Nat) (field : String) (op : Operator) {value : Option Value}
    (h : ∀ v ∈ value, Value.ofJson? room v.toJson = some v) :
    membersOfJson room .none
        ([(some "field", .string field), (some "operator", .string op.name)] ++
          (value.map fun v => (some "value", v.toJson)).toList) =
      .ok ⟨some (some field), some (some op), value, none, none⟩ := by
  have hop : operatorMember? room (.string op.name) = some (some op) := by
    simp [operatorMember?, stringMember?, Operator.ofName_name]
  cases value with
  | none =>
    simp [membersOfJson, RuleKey.ofName?, RuleKey.all, RuleKey.name, RuleMembers.add,
      RuleMembers.none, stringMember?, hop, Except.bind]
  | some v =>
    simp [membersOfJson, RuleKey.ofName?, RuleKey.all, RuleKey.name, RuleMembers.add,
      RuleMembers.none, stringMember?, hop, h v rfl, Except.bind]

mutual

theorem ruleOfJson_toJson {room : Nat} :
    (rule : Rule) → rule.Fits room → (∀ v ∈ rule.values, ∀ x ∈ v.floats, x.ReadsBack) →
      ruleOfJson room rule.toJson = .ok rule
  | compare field op value, h, hfloats => by
    obtain ⟨inner, rfl, hvalue⟩ := fits_compare_iff.1 h
    have hmembers := membersOfJson_comparison inner field op fun v hv =>
      Value.ofJson?_toJson (hvalue v hv).ordered (hfloats v (Option.mem_toList.2 hv))
        (hvalue v hv).nesting_le
    rw [toJson, ruleOfJson, if_neg (Nat.succ_ne_zero inner), Nat.add_sub_cancel, hmembers]
    rfl
  | all rules, h, hfloats => by
    obtain ⟨inner, rfl, hrules⟩ := fits_all_iff.1 h
    have hlist := rulesOfJson_listToJson rules hrules hfloats
    simp [toJson, ruleOfJson, membersOfJson, groupOfJson, hlist, RuleKey.ofName?, RuleKey.all,
      RuleKey.name, RuleMembers.add, RuleMembers.none, RuleMembers.toRule, Except.map, Except.bind,
      Except.mapError]
  | any rules, h, hfloats => by
    obtain ⟨inner, rfl, hrules⟩ := fits_any_iff.1 h
    have hlist := rulesOfJson_listToJson rules hrules hfloats
    simp [toJson, ruleOfJson, membersOfJson, groupOfJson, hlist, RuleKey.ofName?, RuleKey.all,
      RuleKey.name, RuleMembers.add, RuleMembers.none, RuleMembers.toRule, Except.map, Except.bind,
      Except.mapError]

theorem rulesOfJson_listToJson {room : Nat} : (rules : List Rule) →
    (∀ rule ∈ rules, rule.Fits room) →
      (∀ v ∈ valuesOfAll rules, ∀ x ∈ v.floats, x.ReadsBack) →
        rulesOfJson room (listToJson rules) = .ok rules
  | [], _, _ => rfl
  | rule :: rules, h, hfloats => by
    obtain ⟨hrule, hrules⟩ := List.forall_mem_cons.1 h
    obtain ⟨hown, hmore⟩ := List.forall_mem_append.1 hfloats
    simp only [listToJson, rulesOfJson, ruleOfJson_toJson rule hrule hown,
      rulesOfJson_listToJson rules hrules hmore]

end

mutual

theorem exists_ofJson?_toJson {room : Nat} :
    (rule : Rule) → rule.Fits room → (∀ v ∈ rule.values, ∀ x ∈ v.floats, x.ReadsBack) →
      ∃ v, Value.ofJson? room rule.toJson = some v
  | compare field op value, h, hfloats => by
    obtain ⟨inner, rfl, hvalue⟩ := fits_compare_iff.1 h
    cases value with
    | none => exact ⟨_, rfl⟩
    | some v =>
      have hread := Value.ofJson?_toJson (hvalue v rfl).ordered (hfloats v (List.mem_singleton.2 rfl))
        (hvalue v rfl).nesting_le
      simp [toJson, Value.ofJson?, Value.entriesOfJson?, hread]
  | all rules, h, hfloats => by
    obtain ⟨inner, rfl, hrules⟩ := fits_all_iff.1 h
    obtain ⟨vs, hvs⟩ := exists_listOfJson?_listToJson rules hrules hfloats
    simp [toJson, Value.ofJson?, Value.entriesOfJson?, hvs]
  | any rules, h, hfloats => by
    obtain ⟨inner, rfl, hrules⟩ := fits_any_iff.1 h
    obtain ⟨vs, hvs⟩ := exists_listOfJson?_listToJson rules hrules hfloats
    simp [toJson, Value.ofJson?, Value.entriesOfJson?, hvs]

theorem exists_listOfJson?_listToJson {room : Nat} : (rules : List Rule) →
    (∀ rule ∈ rules, rule.Fits room) →
      (∀ v ∈ valuesOfAll rules, ∀ x ∈ v.floats, x.ReadsBack) →
        ∃ vs, Value.listOfJson? room (listToJson rules) = some vs
  | [], _, _ => ⟨[], rfl⟩
  | rule :: rules, h, hfloats => by
    obtain ⟨hrule, hrules⟩ := List.forall_mem_cons.1 h
    obtain ⟨hown, hmore⟩ := List.forall_mem_append.1 hfloats
    obtain ⟨v, hv⟩ := exists_ofJson?_toJson rule hrule hown
    obtain ⟨vs, hvs⟩ := exists_listOfJson?_listToJson rules hrules hmore
    exact ⟨v :: vs, by simp only [listToJson, Value.listOfJson?, hv, hvs]⟩

end

end Rule

namespace Document

variable {room : Nat} {m : RuleMembers}

structure RuleMembers.Fits (room : Nat) (m : RuleMembers) : Prop where
  value : ∀ v, m.value = some v → v.Fits room
  all : ∀ rules, m.all = some (some rules) →
    ∃ inner, room = inner + 1 ∧ ∀ rule ∈ rules, rule.Fits inner
  any : ∀ rules, m.any = some (some rules) →
    ∃ inner, room = inner + 1 ∧ ∀ rule ∈ rules, rule.Fits inner

theorem RuleMembers.fits_none (room : Nat) : RuleMembers.none.Fits room := ⟨nofun, nofun, nofun⟩

theorem RuleMembers.Fits.add (h : m.Fits room) {j : Json}
    {group : Except RuleFault (Option (List Rule))} {key : RuleKey} {found : RuleMembers}
    (hgroup : ∀ rules, group = .ok (some rules) →
      ∃ inner, room = inner + 1 ∧ ∀ rule ∈ rules, rule.Fits inner)
    (hadd : m.add room j group key = .ok found) : found.Fits room := by
  cases key with
  | field | operator =>
    rw [RuleMembers.add] at hadd
    split at hadd
    · cases hadd
      exact ⟨h.value, h.all, h.any⟩
    · cases hadd
  | value =>
    rw [RuleMembers.add] at hadd
    split at hadd
    · next v _ hv =>
      cases hadd
      refine ⟨?_, h.all, h.any⟩
      rintro _ ⟨⟩
      exact Value.fits_of_ofJson? room j v hv
    · cases hadd
  | and =>
    rw [RuleMembers.add] at hadd
    split at hadd
    · obtain ⟨_, hread, rfl⟩ := map_eq_ok_iff.1 hadd
      refine ⟨h.value, ?_, h.any⟩
      rintro rules ⟨⟩
      exact hgroup rules hread
    · cases hadd
  | or =>
    rw [RuleMembers.add] at hadd
    split at hadd
    · obtain ⟨_, hread, rfl⟩ := map_eq_ok_iff.1 hadd
      refine ⟨h.value, h.all, ?_⟩
      rintro rules ⟨⟩
      exact hgroup rules hread
    · cases hadd

theorem RuleMembers.Fits.fits_toRule (h : m.Fits room) {rule : Rule} (hrule : m.toRule = .ok rule) :
    rule.Fits (room + 1) := by
  unfold RuleMembers.toRule at hrule
  split at hrule
  · next rules _ _ hall _ =>
    cases hrule
    obtain ⟨inner, rfl, hrules⟩ := h.all rules (Option.join_eq_some_iff.1 hall)
    exact Rule.fits_all_iff.2 ⟨inner, rfl, hrules⟩
  · next rules _ _ _ hany =>
    cases hrule
    obtain ⟨inner, rfl, hrules⟩ := h.any rules (Option.join_eq_some_iff.1 hany)
    exact Rule.fits_any_iff.2 ⟨inner, rfl, hrules⟩
  · cases hrule
    exact Rule.fits_compare_iff.2 ⟨room, rfl, h.value⟩
  all_goals cases hrule

mutual

theorem fits_of_ruleOfJson (room : Nat) :
    (j : Json) → (rule : Rule) → ruleOfJson room j = .ok rule → rule.Fits room
  | .object entries, rule, h => by
    rw [ruleOfJson] at h
    split at h
    · cases h
    · next hroom =>
      obtain ⟨inner, rfl⟩ := Nat.exists_eq_succ_of_ne_zero hroom
      obtain ⟨members, hmembers, hrule⟩ := bind_eq_ok_iff.1 h
      have hfits := fits_of_membersOfJson inner entries .none members
        (RuleMembers.fits_none inner) hmembers
      exact hfits.fits_toRule (mapError_eq_ok_iff.1 hrule)
  | .array items, rule, h => by
    rw [ruleOfJson] at h
    split at h
    · cases h
    · next hroom =>
      obtain ⟨inner, rfl⟩ := Nat.exists_eq_succ_of_ne_zero hroom
      obtain ⟨members, hmembers, hrule⟩ := bind_eq_ok_iff.1 h
      have hfits := fits_of_itemsOfJson inner items RuleKey.all .none members
        (RuleMembers.fits_none inner) hmembers
      exact hfits.fits_toRule (mapError_eq_ok_iff.1 hrule)
  | .null, _, h => nomatch h
  | .bool _, _, h => nomatch h
  | .number _, _, h => nomatch h
  | .string _, _, h => nomatch h
  | .cut, _, h => nomatch h

theorem fits_of_membersOfJson (room : Nat) : (entries : List (Json.Content × Json)) →
    (m found : RuleMembers) → m.Fits room → membersOfJson room m entries = .ok found →
      found.Fits room
  | [], m, found, hm, h => by
    cases h
    exact hm
  | (none, _) :: _, m, found, hm, h => nomatch h
  | (some name, j) :: rest, m, found, hm, h => by
    rw [membersOfJson] at h
    split at h
    · split at h
      · exact fits_of_membersOfJson room rest m found hm h
      · cases h
    · obtain ⟨more, hadd, hrest⟩ := bind_eq_ok_iff.1 h
      exact fits_of_membersOfJson room rest more found
        (hm.add (fits_of_groupOfJson room j) hadd) hrest

theorem fits_of_itemsOfJson (room : Nat) : (items : List Json) → (keys : List RuleKey) →
    (m found : RuleMembers) → m.Fits room → itemsOfJson room m keys items = .ok found →
      found.Fits room
  | [], keys, m, found, hm, h => by
    rw [itemsOfJson] at h
    cases h
    exact hm
  | _ :: _, [], m, found, hm, h => nomatch h
  | j :: rest, key :: keys, m, found, hm, h => by
    rw [itemsOfJson] at h
    obtain ⟨more, hadd, hrest⟩ := bind_eq_ok_iff.1 h
    exact fits_of_itemsOfJson room rest keys more found
      (hm.add (fits_of_groupOfJson room j) hadd) hrest

theorem fits_of_groupOfJson (room : Nat) : (j : Json) → (rules : List Rule) →
    groupOfJson room j = .ok (some rules) →
      ∃ inner, room = inner + 1 ∧ ∀ rule ∈ rules, rule.Fits inner
  | .array items, rules, h => by
    rw [groupOfJson] at h
    split at h
    · cases h
    · next hroom =>
      obtain ⟨inner, rfl⟩ := Nat.exists_eq_succ_of_ne_zero hroom
      split at h
      · cases h
      · next found hfound =>
        cases h
        exact ⟨inner, rfl, fits_of_rulesOfJson inner items rules hfound⟩
  | .null, _, h => nomatch h
  | .bool _, _, h => nomatch h
  | .number _, _, h => nomatch h
  | .string _, _, h => nomatch h
  | .object _, _, h => nomatch h
  | .cut, _, h => nomatch h

theorem fits_of_rulesOfJson (room : Nat) : (items : List Json) → (rules : List Rule) →
    rulesOfJson room items = .ok rules → ∀ rule ∈ rules, rule.Fits room
  | [], rules, h => by
    cases h
    exact nofun
  | j :: rest, rules, h => by
    rw [rulesOfJson] at h
    split at h
    · cases h
    · next first hfirst =>
      split at h
      · cases h
      · next others hothers =>
        cases h
        exact List.forall_mem_cons.2 ⟨fits_of_ruleOfJson room j first hfirst,
          fits_of_rulesOfJson room rest others hothers⟩

end

end Document

end FormLogic
