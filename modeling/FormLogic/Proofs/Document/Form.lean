import FormLogic.Document.Form
import FormLogic.Proofs.Document.Rule
import Mathlib

/-! Forms in JSON documents. A form is read back from its text, and what has been read from any text
can be written and read again. -/

namespace FormLogic

namespace Condition

def values : Condition → List Value
  | .expression _ => []
  | .rule r => r.values

abbrev Fits (room : Nat) (c : Condition) : Prop := Document.Fits room c.values c.toJson

theorem written_toJson (c : Condition) : c.toJson.Written := by
  cases c with
  | expression text => rfl
  | rule r => exact r.written_toJson

end Condition

namespace Field

def values (field : Field Condition) : List Value :=
  Effect.all.flatMap fun effect => (field.condition? effect).elim [] Condition.values

def members (field : Field Condition) : List (String × Json) :=
  [("path", .string field.path), ("required", .bool field.required)] ++
    Effect.all.filterMap fun effect =>
      (field.condition? effect).map fun condition => (effect.key, condition.toJson)

theorem toJson_eq_members (field : Field Condition) :
    field.toJson = .object (field.members.map fun entry => (some entry.1, entry.2)) := by
  simp [toJson, members, List.map_filterMap, Function.comp_def]

theorem lookup_key_members (field : Field Condition) (effect : Effect) :
    field.members.lookup effect.key = (field.condition? effect).map Condition.toJson := by
  obtain ⟨path, required, hidden, requiring, readOnly⟩ := field
  cases effect <;> cases hidden <;> cases requiring <;> cases readOnly <;> rfl

theorem keys_members_sublist (field : Field Condition) :
    (field.members.map (·.1)).Sublist ("path" :: "required" :: Effect.all.map Effect.key) := by
  have hconditions : ∀ effects : List Effect,
      ((effects.filterMap fun effect =>
        (field.condition? effect).map fun condition => (effect.key, condition.toJson)).map (·.1)).Sublist
          (effects.map Effect.key) := by
    intro effects
    induction effects with
    | nil => exact .slnil
    | cons effect rest ih =>
      rw [List.filterMap_cons, List.map_cons]
      cases field.condition? effect with
      | none => exact ih.cons _
      | some c => exact ih.cons_cons _
  exact ((hconditions Effect.all).cons_cons _).cons_cons _

theorem nodup_keys_members (field : Field Condition) : (field.members.map (·.1)).Nodup :=
  field.keys_members_sublist.nodup (by decide)

abbrev Fits (room : Nat) (field : Field Condition) : Prop :=
  Document.Fits room field.values field.toJson

variable {room : Nat} {field : Field Condition}

theorem forall_mem_values {p : Value → Prop} :
    (∀ v ∈ field.values, p v) ↔ ∀ effect, ∀ c ∈ field.condition? effect, ∀ v ∈ c.values, p v := by
  simp only [values, List.mem_flatMap, Effect.mem_all, true_and]
  constructor
  · intro h effect c hc v hv
    exact h v ⟨effect, by rwa [hc]⟩
  · rintro h v ⟨effect, hv⟩
    cases hc : field.condition? effect with
    | none => exact absurd (hc ▸ hv) List.not_mem_nil
    | some c => exact h effect c hc v (by rwa [hc] at hv)

theorem forall_mem_members {p : String × Json → Prop} :
    (∀ entry ∈ field.members, p entry) ↔ p ("path", .string field.path) ∧
      p ("required", .bool field.required) ∧
        ∀ effect, ∀ c ∈ field.condition? effect, p (effect.key, c.toJson) := by
  simp only [members, List.cons_append, List.nil_append, List.forall_mem_cons, List.mem_filterMap,
    Effect.mem_all, true_and, Option.map_eq_some_iff, Option.mem_def]
  refine and_congr_right fun _ => and_congr_right fun _ => ?_
  constructor
  · intro h effect c hc
    exact h _ ⟨effect, c, hc, rfl⟩
  · rintro h _ ⟨effect, c, hc, rfl⟩
    exact h effect c hc

theorem fits_iff : field.Fits room ↔
    ∃ inner, room = inner + 1 ∧ ∀ effect, ∀ c ∈ field.condition? effect, c.Fits inner := by
  have hnesting : ∀ inner, field.toJson.nesting ≤ inner + 1 ↔
      ∀ effect, ∀ c ∈ field.condition? effect, c.toJson.nesting ≤ inner := by
    intro inner
    rw [toJson_eq_members, Json.nesting, Nat.add_le_add_iff_right, Json.nestingOfEntries_le_iff,
      List.forall_mem_map, forall_mem_members]
    exact ⟨fun h => h.2.2, fun h => ⟨Nat.zero_le _, Nat.zero_le _, h⟩⟩
  constructor
  · rintro ⟨hordered, hroom⟩
    have hpos : room ≠ 0 := by
      rintro rfl
      exact absurd hroom (Nat.not_succ_le_zero _)
    obtain ⟨inner, rfl⟩ := Nat.exists_eq_succ_of_ne_zero hpos
    exact ⟨inner, rfl, fun effect c hc => ⟨forall_mem_values.1 hordered effect c hc,
      (hnesting inner).1 hroom effect c hc⟩⟩
  · rintro ⟨inner, rfl, h⟩
    exact ⟨forall_mem_values.2 fun effect c hc => (h effect c hc).ordered,
      (hnesting inner).2 fun effect c hc => (h effect c hc).nesting_le⟩

theorem written_toJson (field : Field Condition) : field.toJson.Written := by
  rw [toJson_eq_members, Json.Written, Json.entriesWritten_iff, List.forall_mem_map,
    forall_mem_members]
  exact ⟨⟨rfl, rfl⟩, ⟨rfl, trivial⟩, fun effect c _ => ⟨rfl, c.written_toJson⟩⟩

end Field

namespace Document

variable {room : Nat}

theorem condition?_toJson {c : Condition} (h : c.Fits room)
    (hfloats : ∀ v ∈ c.values, ∀ x ∈ v.floats, x.ReadsBack) : condition? room c.toJson = some c := by
  cases c with
  | expression text => rfl
  | rule r =>
    obtain ⟨v, hv⟩ := Rule.exists_ofJson?_toJson r h hfloats
    have hread := Rule.ruleOfJson_toJson r h hfloats
    rw [Condition.toJson]
    unfold condition?
    rw [hv]
    cases r with
    | compare field op value => rw [Rule.toJson] at hread ⊢; simp only [hread]
    | all rules => rw [Rule.toJson] at hread ⊢; simp only [hread]
    | any rules => rw [Rule.toJson] at hread ⊢; simp only [hread]

theorem members?_map {keys : List String} {entries : List (String × Json)}
    (hkeys : ∀ key ∈ entries.map (·.1), key ∈ keys) (hnodup : (entries.map (·.1)).Nodup) :
    members? keys (entries.map fun entry => (some entry.1, entry.2)) = some entries := by
  induction entries with
  | nil => rfl
  | cons entry rest ih =>
    obtain ⟨key, j⟩ := entry
    obtain ⟨hkey, hrest⟩ := List.forall_mem_cons.1 hkeys
    obtain ⟨hnew, hnodup⟩ := List.nodup_cons.1 hnodup
    have hlookup : rest.lookup key = none := by
      refine List.lookup_eq_none_iff.2 fun other hother => bne_iff_ne.2 fun heq => hnew ?_
      exact List.mem_map.2 ⟨other, hother, heq.symm⟩
    simp only [List.map_cons, members?, ih hrest hnodup, List.contains_iff_mem.2 hkey, if_true,
      hlookup, Option.isSome_none, Bool.false_eq_true, if_false]

theorem optionalCondition?_map {condition : Option Condition}
    (h : ∀ c ∈ condition, condition? room c.toJson = some c) :
    optionalCondition? room (condition.map Condition.toJson) = some condition := by
  cases condition with
  | none => rfl
  | some c =>
    have hread := h c rfl
    have hnull : c.toJson ≠ .null := by
      intro hnull
      rw [hnull] at hread
      exact nomatch hread
    rw [Option.map_some, optionalCondition?, hread, Option.map_some]
    exact hnull

theorem field?_toJson {field : Field Condition} (h : field.Fits room)
    (hfloats : ∀ v ∈ field.values, ∀ x ∈ v.floats, x.ReadsBack) :
    field? room field.toJson = some field := by
  obtain ⟨inner, rfl, hconditions⟩ := Field.fits_iff.1 h
  have hread : ∀ effect, optionalCondition? inner (field.members.lookup effect.key) =
      some (field.condition? effect) := by
    intro effect
    rw [field.lookup_key_members]
    exact optionalCondition?_map fun c hc => condition?_toJson (hconditions effect c hc)
      (Field.forall_mem_values.1 hfloats effect c hc)
  have hmembers := members?_map (fun key hkey => field.keys_members_sublist.subset hkey)
    field.nodup_keys_members
  have hpath : field.members.lookup "path" = some (.string field.path) := rfl
  have hrequired : field.members.lookup "required" = some (.bool field.required) := rfl
  rw [Field.toJson_eq_members, field?, record?, if_neg (Nat.succ_ne_zero inner)]
  simp only [Effect.all, List.map] at hmembers
  rw [hmembers]
  simp [hpath, hrequired, hread, requiredString?, string?, flag?, Field.condition?]

theorem list?_map {α : Type} {read : Nat → Json → Option α} {write : α → Json} {items : List α}
    (h : ∀ item ∈ items, read room (write item) = some item) :
    list? (room + 1) read (some (.array (items.map write))) = some items := by
  rw [list?, if_neg (Nat.succ_ne_zero room), Nat.add_sub_cancel]
  induction items with
  | nil => rfl
  | cons item rest ih =>
    obtain ⟨hitem, hrest⟩ := List.forall_mem_cons.1 h
    simp [List.mapM_cons, hitem, ih hrest]

theorem nesting_calculation (c : Calculation) : c.toJson.nesting = 2 := by
  have hnames : Json.nestingOfItems (c.dependsOn.map fun name => .string (some name)) = 0 := by
    refine Nat.le_zero.1 (Json.nestingOfItems_le_iff.2 (List.forall_mem_map.2 fun name _ => ?_))
    exact Nat.le_refl 0
  simp [Calculation.toJson, Json.nesting, Json.nestingOfEntries, hnames]

theorem calculation?_toJson (c : Calculation) (room : Nat) :
    calculation? (room + 2) c.toJson = some c := by
  have hnames : list? (room + 1) (fun _ => string?)
      (some (.array (c.dependsOn.map fun name => .string (some name)))) = some c.dependsOn :=
    list?_map fun _ _ => rfl
  simp [calculation?, Calculation.toJson, record?, members?, List.lookup_cons, requiredString?, string?,
    hnames]

theorem exists_read_of_list? {α : Type} {read : Nat → Json → Option α} {j : Option Json}
    {items : List α} (h : list? room read j = some items) :
    ∀ item ∈ items, ∃ own, read (room - 1) own = some item := by
  unfold list? at h
  split at h
  · obtain rfl := Option.some.inj h
    exact nofun
  · next js =>
    split at h
    · exact nomatch h
    · induction js generalizing items with
      | nil =>
        obtain rfl := Option.some.inj h
        exact nofun
      | cons own rest ih =>
        rw [List.mapM_cons] at h
        obtain ⟨item, hitem, h⟩ := Option.bind_eq_some_iff.1 h
        obtain ⟨others, hothers, h⟩ := Option.bind_eq_some_iff.1 h
        obtain rfl := Option.some.inj h
        exact List.forall_mem_cons.2 ⟨⟨own, hitem⟩, ih hothers⟩
  · exact nomatch h

theorem fits_of_condition? {j : Json} {c : Condition} (h : condition? room j = some c) :
    c.Fits room := by
  unfold condition? at h
  split at h
  · exact nomatch h
  · obtain rfl := Option.some.inj h
    exact ⟨nofun, Nat.zero_le _⟩
  · split at h
    · next r hr =>
      obtain rfl := Option.some.inj h
      exact fits_of_ruleOfJson room _ r hr
    · exact nomatch h

theorem fits_of_optionalCondition? {j : Option Json} {condition : Option Condition}
    (h : optionalCondition? room j = some condition) : ∀ c ∈ condition, c.Fits room := by
  unfold optionalCondition? at h
  split at h
  · obtain rfl := Option.some.inj h
    exact nofun
  · obtain rfl := Option.some.inj h
    exact nofun
  · obtain ⟨c, hc, rfl⟩ := Option.map_eq_some_iff.1 h
    rintro _ ⟨⟩
    exact fits_of_condition? hc

theorem ne_zero_of_record? {keys : List String} {j : Json} {members : List (String × Json)}
    (h : record? room keys j = some members) : room ≠ 0 := by
  rintro rfl
  cases j <;> cases h

theorem fits_of_field? {j : Json} {field : Field Condition} (h : field? room j = some field) :
    field.Fits room := by
  obtain ⟨members, hmembers, h⟩ := Option.bind_eq_some_iff.1 h
  obtain ⟨path, -, h⟩ := Option.bind_eq_some_iff.1 h
  obtain ⟨required, -, h⟩ := Option.bind_eq_some_iff.1 h
  obtain ⟨hiddenWhen, hhidden, h⟩ := Option.bind_eq_some_iff.1 h
  obtain ⟨requiredWhen, hrequired, h⟩ := Option.bind_eq_some_iff.1 h
  obtain ⟨readOnlyWhen, hreadOnly, h⟩ := Option.bind_eq_some_iff.1 h
  obtain rfl := Option.some.inj h
  obtain ⟨inner, rfl⟩ := Nat.exists_eq_succ_of_ne_zero (ne_zero_of_record? hmembers)
  refine Field.fits_iff.2 ⟨inner, rfl, fun effect => ?_⟩
  cases effect with
  | hidden => exact fits_of_optionalCondition? hhidden
  | required => exact fits_of_optionalCondition? hrequired
  | readOnly => exact fits_of_optionalCondition? hreadOnly

end Document

namespace Form

def values (form : Form) : List Value := form.fields.flatMap Field.values

abbrev Fits (room : Nat) (form : Form) : Prop := Document.Fits room form.values form.toJson

variable {room : Nat} {form : Form}

theorem forall_mem_values {p : Value → Prop} :
    (∀ v ∈ form.values, p v) ↔ ∀ field ∈ form.fields, ∀ v ∈ field.values, p v := by
  simp only [values, List.mem_flatMap]
  exact ⟨fun h field hfield v hv => h v ⟨field, hfield, hv⟩,
    fun h v ⟨field, hfield, hv⟩ => h field hfield v hv⟩

theorem fits_iff : form.Fits room ↔ ∃ inner, room = inner + 2 ∧
    (∀ field ∈ form.fields, field.Fits inner) ∧
      ∀ c ∈ form.calculations, c.toJson.nesting ≤ inner := by
  have hnesting : ∀ inner, form.toJson.nesting ≤ inner + 2 ↔
      (∀ field ∈ form.fields, field.toJson.nesting ≤ inner) ∧
        ∀ c ∈ form.calculations, c.toJson.nesting ≤ inner := by
    intro inner
    rw [toJson, Json.nesting, Nat.succ_le_succ_iff, Json.nestingOfEntries_le_iff,
      List.forall_mem_cons, List.forall_mem_singleton, Json.nesting, Json.nesting,
      Nat.succ_le_succ_iff, Nat.succ_le_succ_iff, Json.nestingOfItems_le_iff,
      Json.nestingOfItems_le_iff, List.forall_mem_map, List.forall_mem_map]
  constructor
  · rintro ⟨hordered, hroom⟩
    have htwo : 2 ≤ form.toJson.nesting := by
      rw [toJson, Json.nesting, Json.nestingOfEntries, Json.nesting]
      omega
    obtain ⟨inner, rfl⟩ := Nat.exists_eq_add_of_le' (Nat.le_trans htwo hroom)
    obtain ⟨hfields, hcalculations⟩ := (hnesting inner).1 hroom
    exact ⟨inner, rfl, fun field hfield => ⟨forall_mem_values.1 hordered field hfield,
      hfields field hfield⟩, hcalculations⟩
  · rintro ⟨inner, rfl, hfields, hcalculations⟩
    exact ⟨forall_mem_values.2 fun field hfield => (hfields field hfield).ordered,
      (hnesting inner).2 ⟨fun field hfield => (hfields field hfield).nesting_le, hcalculations⟩⟩

theorem written_toJson (form : Form) : form.toJson.Written := by
  refine ⟨rfl, Json.allWritten_iff.2 ?_, rfl, Json.allWritten_iff.2 ?_, trivial⟩
  · exact List.forall_mem_map.2 fun field _ => field.written_toJson
  · refine List.forall_mem_map.2 fun c _ => ⟨rfl, rfl, rfl, Json.allWritten_iff.2 ?_, rfl, rfl, trivial⟩
    exact List.forall_mem_map.2 fun name _ => rfl

theorem read_toText (form : Form) : Json.read form.toText = ⟨form.toJson, true⟩ :=
  Json.read_chars Json.Layout.blank_pretty form.written_toJson

end Form

namespace Document

variable {room : Nat}

theorem form?_toJson {form : Form} (h : form.Fits room)
    (hfloats : ∀ v ∈ form.values, ∀ x ∈ v.floats, x.ReadsBack) :
    form? room form.toJson = some form := by
  obtain ⟨inner, rfl, hfields, hcalculations⟩ := Form.fits_iff.1 h
  have hfieldsRead : list? (inner + 1) field? (some (.array (form.fields.map Field.toJson))) =
      some form.fields :=
    list?_map fun field hfield => field?_toJson (hfields field hfield)
      (Form.forall_mem_values.1 hfloats field hfield)
  have hcalculationsRead : list? (inner + 1) calculation?
      (some (.array (form.calculations.map Calculation.toJson))) = some form.calculations := by
    refine list?_map fun c hc => ?_
    have hroom := hcalculations c hc
    rw [nesting_calculation] at hroom
    obtain ⟨more, rfl⟩ := Nat.exists_eq_add_of_le' hroom
    exact calculation?_toJson c more
  simp [form?, Form.toJson, record?, members?, List.lookup_cons, hfieldsRead, hcalculationsRead]

theorem fits_of_form? {j : Json} {form : Form} (h : form? (room + 4) j = some form) :
    form.Fits (room + 4) := by
  obtain ⟨members, -, h⟩ := Option.bind_eq_some_iff.1 h
  obtain ⟨fields, hfields, h⟩ := Option.bind_eq_some_iff.1 h
  obtain ⟨calculations, -, h⟩ := Option.bind_eq_some_iff.1 h
  obtain rfl := Option.some.inj h
  refine Form.fits_iff.2 ⟨room + 2, rfl, fun field hfield => ?_, fun c _ => ?_⟩
  · obtain ⟨own, hown⟩ := exists_read_of_list? hfields field hfield
    exact fits_of_field? hown
  · -- the array of names may have been absent where it was read, but it is always written
    rw [nesting_calculation]
    exact Nat.le_add_left 2 room

end Document

namespace Form

/-- A form is read back from its text if its numbers are, and if the text is not nested too deeply;
the text of a form that has been read never is. -/
theorem ofText?_toText :
    (∀ form : Form, (∀ v ∈ form.values, v.Ordered) →
      (∀ v ∈ form.values, ∀ x ∈ v.floats, x.ReadsBack) → form.toJson.nesting ≤ Json.maxNesting →
        ofText? form.toText = some form) ∧
    ∀ (text : String) (form : Form), ofText? text = some form →
      (∀ v ∈ form.values, ∀ x ∈ v.floats, x.ReadsBack) → ofText? form.toText = some form := by
  have hread : ∀ form : Form, form.Fits Json.maxNesting →
      (∀ v ∈ form.values, ∀ x ∈ v.floats, x.ReadsBack) → ofText? form.toText = some form := by
    intro form hfits hfloats
    rw [ofText?, read_toText]
    exact Document.form?_toJson hfits hfloats
  constructor
  · intro form hordered hfloats hnesting
    exact hread form ⟨hordered, hnesting⟩ hfloats
  · intro text form h hfloats
    rw [ofText?] at h
    split at h
    · exact hread form (Document.fits_of_form? h) hfloats
    · exact nomatch h

def half : Binary64 := .finite false ⟨4602678819172646912, by decide⟩

theorem readsBack_half : half.ReadsBack := by
  have hnumeral : Json.Numeral.ofBinary64? half = some ⟨false, ['0'], ['5'], none⟩ := by
    decide +kernel
  have hquotient : Json.Numeral.scaleDown (.ofInt 5) 1 = half := by
    rw [Json.Numeral.scaleDown]
    decide +kernel
  have hmagnitude : Json.Numeral.magnitude? ⟨false, ['0'], ['5'], none⟩ = some half := by
    rw [← hquotient]
    rfl
  rw [Value.readsBack_iff 0, Value.toJson, hnumeral, Option.elim_some, Value.ofJson?,
    Json.Numeral.toValue?, hmagnitude]
  rfl

def survey : Form where
  fields := [
    ⟨"age", true, none, some (.expression "name is not empty"), none⟩,
    ⟨"note", false, some (.rule (.any [.all [],
      .compare "age" .unknown (some (.array [.null, .float half]))])), none, none⟩]
  calculations := [⟨"double", ["age"], "age * 2"⟩]

/-- Everything that can be an array is one here, and the operator is an object. -/
def listedText : String := "[[[\"age\", true, [\"note\", \x7b\"isEmpty\": null\x7d]]]]"

def listed : Form := ⟨[⟨"age", true, some (.rule (.compare "note" .isEmpty none)), none, none⟩], []⟩

theorem ofText?_survey :
    ((∀ v ∈ survey.values, v.Ordered) ∧ (∀ v ∈ survey.values, ∀ x ∈ v.floats, x.ReadsBack) ∧
      survey.toJson.nesting ≤ Json.maxNesting) ∧ ofText? survey.toText = some survey ∧
    (ofText? listedText = some listed ∧ ∀ v ∈ listed.values, ∀ x ∈ v.floats, x.ReadsBack) ∧
      ofText? listed.toText = some listed := by
  have hvalues : survey.values = [.array [.null, .float half]] := rfl
  have hordered : ∀ v ∈ survey.values, v.Ordered := by
    rw [hvalues, List.forall_mem_singleton]
    exact .array (List.forall_mem_cons.2 ⟨.null, List.forall_mem_singleton.2 (.float half)⟩)
  have hfloats : ∀ v ∈ survey.values, ∀ x ∈ v.floats, x.ReadsBack := by
    rw [hvalues, List.forall_mem_singleton]
    exact List.forall_mem_singleton.2 readsBack_half
  have hnesting : survey.toJson.nesting ≤ Json.maxNesting := by decide
  have hlisted : ofText? listedText = some listed := by cbv
  have hnone : ∀ v ∈ listed.values, ∀ x ∈ v.floats, x.ReadsBack := by
    have hempty : listed.values = [] := rfl
    rw [hempty]
    exact List.forall_mem_nil _
  exact ⟨⟨hordered, hfloats, hnesting⟩, ofText?_toText.1 survey hordered hfloats hnesting,
    ⟨hlisted, hnone⟩, ofText?_toText.2 listedText listed hlisted hnone⟩

end Form

end FormLogic
