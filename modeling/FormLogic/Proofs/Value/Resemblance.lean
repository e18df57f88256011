import FormLogic.Proofs.Value.Equality
import Mathlib

/-! Values that differ in the form of their numbers only, at any depth. Unlike agreement this relates
values with NaN in them to themselves. No comparison tells such values apart. -/

namespace FormLogic.Value

mutual

inductive Resembles : Value → Value → Prop
  | same (v : Value) : Resembles v v
  | agreeing {v w : Value} (h : v.agrees w = true) : Resembles v w
  | arrays {as bs : List Value} (items : AllResemble as bs) : Resembles (.array as) (.array bs)
  | objects {as bs : List (String × Value)} (entries : EntriesResemble as bs) :
    Resembles (.object as) (.object bs)

inductive AllResemble : List Value → List Value → Prop
  | nil : AllResemble [] []
  | cons {v w : Value} {as bs : List Value} (first : Resembles v w) (rest : AllResemble as bs) :
    AllResemble (v :: as) (w :: bs)

inductive EntriesResemble : List (String × Value) → List (String × Value) → Prop
  | nil : EntriesResemble [] []
  | cons (key : String) {v w : Value} {as bs : List (String × Value)} (first : Resembles v w)
    (rest : EntriesResemble as bs) : EntriesResemble ((key, v) :: as) ((key, w) :: bs)

end

theorem EntriesResemble.refl (entries : Entries) : EntriesResemble entries entries := by
  induction entries with
  | nil => exact .nil
  | cons entry rest ih => exact .cons entry.1 (.same entry.2) ih

theorem EntriesResemble.of_entriesAgree {as bs : Entries} (h : entriesAgree as bs = true) :
    EntriesResemble as bs := by
  induction as generalizing bs with
  | nil =>
    rw [Entries.eq_nil_of_entriesAgree h]
    exact .nil
  | cons entry as ih =>
    obtain ⟨w, rest, rfl, hvalues, hrest⟩ := Entries.exists_of_entriesAgree_cons h
    exact .cons entry.1 (.agreeing hvalues) (ih hrest)

mutual

theorem Resembles.agrees_eq {v w : Value} (h : Resembles v w) (u : Value) :
    v.agrees u = w.agrees u := by
  cases h with
  | same v => rfl
  | agreeing h => exact agrees_congr_left h u
  | arrays items =>
    cases u with
    | array cs => exact items.agreeAll_eq cs
    | _ => rfl
  | objects entries =>
    cases u with
    | object cs => exact entries.entriesAgree_eq cs
    | _ => rfl

theorem AllResemble.agreeAll_eq {as bs : List Value} (h : AllResemble as bs) (cs : List Value) :
    agreeAll as cs = agreeAll bs cs := by
  cases h with
  | nil => rfl
  | cons first rest =>
    cases cs with
    | nil => rfl
    | cons c cs => rw [agreeAll, agreeAll, first.agrees_eq c, rest.agreeAll_eq cs]

theorem EntriesResemble.entriesAgree_eq {as bs : Entries} (h : EntriesResemble as bs)
    (cs : Entries) : entriesAgree as cs = entriesAgree bs cs := by
  cases h with
  | nil => rfl
  | cons key first rest =>
    cases cs with
    | nil => rfl
    | cons entry cs =>
      obtain ⟨l, c⟩ := entry
      rw [entriesAgree, entriesAgree, first.agrees_eq c, rest.entriesAgree_eq cs]

end

namespace Resembles

variable {v w : Value}

theorem extent?_eq (h : Resembles v w) : v.extent? = w.extent? := by
  cases h with
  | same v => rfl
  | agreeing h =>
    by_cases hv : v.isNumber = true
    · obtain ⟨x, hleft, hright⟩ := (agrees_iff_of_isNumber hv w).1 h
      rw [hleft, hright]
    · have hw : w.isNumber ≠ true := by rwa [isNumber, ← kind_of_agrees h]
      have hnone : ∀ u : Value, u.isNumber ≠ true → u.extent? = none := by
        intro u hu
        cases hextent : u.extent? with
        | none => rfl
        | some x => exact absurd (isNumber_of_extent? hextent) hu
      rw [hnone v hv, hnone w hw]
  | arrays items => rfl
  | objects entries => rfl

theorem compareNumbers?_eq (h : Resembles v w) (u : Value) :
    v.compareNumbers? u = w.compareNumbers? u := by
  rw [compareNumbers?_eq_extent, compareNumbers?_eq_extent, h.extent?_eq]

theorem isBlank_eq (h : Resembles v w) : v.isBlank = w.isBlank := by
  cases h with
  | same v => rfl
  | arrays items => cases items <;> rfl
  | objects entries => rfl
  | agreeing h =>
    have hkind := kind_of_agrees h
    cases v with
    | string a =>
      cases w with
      | string b =>
        obtain rfl : a = b := by simpa [agrees] using h
        rfl
      | _ => cases hkind
    | array as =>
      cases w with
      | array bs =>
        cases as with
        | nil =>
          cases bs with
          | nil => rfl
          | cons b bs => cases h
        | cons a as =>
          cases bs with
          | nil => cases h
          | cons b bs => rfl
      | _ => cases hkind
    | _ => cases w <;> first | rfl | cases hkind

end Resembles

end FormLogic.Value
