import FormLogic.Proofs.Form.Visibility
import FormLogic.Proofs.Snapshot.Frame
import Mathlib

/-! What the states of fields look at: the fields that conditions mention. Writes that lie neither
on nor above nor below these move no state, and those near the fields of one condition move at most
the state that this condition decides. -/

namespace FormLogic

theorem Rule.holds_insertAll_of_not_overlaps (rule : Rule) (s : Snapshot)
    {inserts : List (String × Value)} (h : ∀ i ∈ inserts, ∀ name ∈ rule.fields,
      (Path.ofString i.1).overlaps (.ofString name) = false) :
    rule.holds (s.insertAll inserts) = rule.holds s := by
  refine rule.holds_congr fun name hname => ?_
  have hapart : ∀ i ∈ inserts, (Path.ofString i.1).overlaps (.ofString name) = false :=
    fun i hi => h i hi name (Rule.mem_fields_iff.2 hname)
  rw [s.get?_insertAll_of_not_overlaps hapart]
  cases s.get? name with
  | none => exact .none
  | some v => exact .some (.same v)

namespace Field

theorem mem_affected_iff {fields : List (Field Rule)} {s : Snapshot} {effect : Effect}
    {path : String} : path ∈ affected fields s effect ↔ ∃ field ∈ fields, field.path = path ∧
      ∃ rule, field.condition? effect = some rule ∧ rule.holds s = true := by
  simp only [affected, NameSet.mem_ofList, List.mem_map, List.mem_filter, Option.any_eq_true]
  constructor
  · rintro ⟨field, ⟨hfield, rule, hcondition, hholds⟩, hpath⟩
    exact ⟨field, hfield, hpath, rule, hcondition, hholds⟩
  · rintro ⟨field, hfield, hpath, rule, hcondition, hholds⟩
    exact ⟨field, ⟨hfield, rule, hcondition, hholds⟩, hpath⟩

theorem mem_affected_insertAll_iff {fields : List (Field Rule)} {s : Snapshot} {effect : Effect}
    {path : String} {inserts : List (String × Value)}
    (h : ∀ field ∈ fields, field.path = path → ∀ rule, field.condition? effect = some rule →
      ∀ i ∈ inserts, ∀ name ∈ rule.fields,
        (Path.ofString i.1).overlaps (.ofString name) = false) :
    path ∈ affected fields (s.insertAll inserts) effect ↔ path ∈ affected fields s effect := by
  rw [mem_affected_iff, mem_affected_iff]
  refine exists_congr fun field => and_congr_right fun hfield => and_congr_right fun hpath =>
    exists_congr fun rule => and_congr_right fun hcondition => ?_
  rw [rule.holds_insertAll_of_not_overlaps s (h field hfield hpath rule hcondition)]

end Field

namespace CompiledForm

variable (form : CompiledForm)

def Mentions (name : String) : Prop :=
  ∃ field ∈ form.fields, ∃ effect rule, field.condition? effect = some rule ∧ name ∈ rule.fields

/-- No state of a field is moved by writes that stay off every field that a condition mentions, be
they of the host or of a pass; and each state by itself is safe from writes that stay off the fields
of its own condition. -/
theorem states_of_unmentioned (s : Snapshot) :
    (∀ inserts : List (String × Value),
      (∀ i ∈ inserts, ∀ name, form.Mentions name →
        (Path.ofString i.1).overlaps (.ofString name) = false) →
      form.states (s.insertAll inserts) = form.states s) ∧
    ((∀ w ∈ form.recompute s, ∀ name, form.Mentions name →
        (Path.ofString w.target).overlaps (.ofString name) = false) →
      form.states (form.settled s) = form.states s) ∧
    ∀ (inserts : List (String × Value)) (effect : Effect) (path : String),
      (∀ field ∈ form.fields, field.path = path → ∀ rule, field.condition? effect = some rule →
        ∀ i ∈ inserts, ∀ name ∈ rule.fields,
          (Path.ofString i.1).overlaps (.ofString name) = false) →
      (path ∈ Field.affected form.fields (s.insertAll inserts) effect ↔
        path ∈ Field.affected form.fields s effect) := by
  have hinserts : ∀ inserts : List (String × Value),
      (∀ i ∈ inserts, ∀ name, form.Mentions name →
        (Path.ofString i.1).overlaps (.ofString name) = false) →
      form.states (s.insertAll inserts) = form.states s := by
    intro inserts hapart
    refine form.states_congr fun field hfield effect rule hcondition => ?_
    exact rule.holds_insertAll_of_not_overlaps s fun i hi name hname =>
      hapart i hi name ⟨field, hfield, effect, rule, hcondition, hname⟩
  refine ⟨hinserts, fun hapart => ?_, fun _ _ _ => Field.mem_affected_insertAll_iff⟩
  rw [settled, Snapshot.applyAll_eq_insertAll]
  exact hinserts _ (List.forall_mem_map.2 hapart)

end CompiledForm

namespace Form

open CompiledForm

def countryRule : Rule := .compare "address.country" .equals (some (.string "NZ"))

def weightRule : Rule := .compare "weight" .isNotEmpty none

def dutyForm : Form where
  fields := [⟨"duty", false, some (.rule countryRule), none, none⟩,
    ⟨"remark", false, none, some (.rule weightRule), none⟩]
  calculations := [⟨"price.fee", ["price.base"], "price.base * 2"⟩]

def dutyCompiled : CompiledForm where
  fields := [⟨"duty", false, some countryRule, none, none⟩,
    ⟨"remark", false, none, some weightRule, none⟩]
  calculations := dutyForm.calculations.map Calculation.compile

theorem compile_dutyForm : dutyForm.compile = .ok dutyCompiled := by cbv

def dutySnapshot : Snapshot :=
  Snapshot.empty.insertAll [("address.country", .string "NZ"), ("price.base", .int 3)]

theorem forall_mentions_dutyCompiled {p : String → Prop} (hcountry : p "address.country")
    (hweight : p "weight") : ∀ name, dutyCompiled.Mentions name → p name := by
  rintro name ⟨field, hfield, effect, rule, hcondition, hname⟩
  rcases List.mem_cons.1 hfield with rfl | hmore
  · cases effect with
    | hidden =>
      cases hcondition
      exact List.mem_singleton.1 hname ▸ hcountry
    | _ => cases hcondition
  · obtain rfl := List.mem_singleton.1 hmore
    cases effect with
    | required =>
      cases hcondition
      exact List.mem_singleton.1 hname ▸ hweight
    | _ => cases hcondition

theorem states_dutyCompiled :
    let inserts : List (String × Value) := [("address.city", .string "Otaki"), ("price", .int 5)]
    let weight : List (String × Value) := [("weight", .int 7)]
    dutyForm.compile = .ok dutyCompiled ∧
      (dutyCompiled.states dutySnapshot).hidden.names = ["duty"] ∧
      dutyCompiled.states (dutySnapshot.insertAll inserts) = dutyCompiled.states dutySnapshot ∧
      (dutyCompiled.recompute dutySnapshot).map Write.target = ["price.fee"] ∧
      dutyCompiled.states (dutyCompiled.settled dutySnapshot) = dutyCompiled.states dutySnapshot ∧
      (dutyCompiled.states (dutySnapshot.insertAll weight)).required.names = ["remark"] ∧
      ("duty" ∈ Field.affected dutyCompiled.fields (dutySnapshot.insertAll weight) .hidden ↔
        "duty" ∈ Field.affected dutyCompiled.fields dutySnapshot .hidden) := by
  intro inserts weight
  obtain ⟨hinserts, hpass, hlocal⟩ := states_of_unmentioned dutyCompiled dutySnapshot
  have htargets : (dutyCompiled.recompute dutySnapshot).map Write.target = ["price.fee"] := by
    decide +kernel
  refine ⟨compile_dutyForm, by decide +kernel, hinserts inserts ?_, htargets, hpass ?_,
    by decide +kernel, hlocal weight .hidden "duty" ?_⟩
  · refine List.forall_mem_cons.2 ⟨?_, List.forall_mem_singleton.2 ?_⟩
    · exact forall_mentions_dutyCompiled (by decide) (by decide)
    · exact forall_mentions_dutyCompiled (by decide) (by decide)
  · intro w hw
    have htarget : w.target ∈ (dutyCompiled.recompute dutySnapshot).map Write.target :=
      List.mem_map_of_mem hw
    rw [htargets] at htarget
    rw [List.mem_singleton.1 htarget]
    exact forall_mentions_dutyCompiled (by decide) (by decide)
  · intro field hfield hpath rule hcondition
    rcases List.mem_cons.1 hfield with rfl | hmore
    · cases hcondition
      exact List.forall_mem_singleton.2 (List.forall_mem_singleton.2 (by decide))
    · rw [List.mem_singleton.1 hmore] at hpath
      exact absurd hpath (by decide)

end Form

end FormLogic
