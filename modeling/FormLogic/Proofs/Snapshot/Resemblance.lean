import FormLogic.Proofs.Snapshot.Frame
import FormLogic.Proofs.Value.Resemblance
import Mathlib

/-! Snapshots whose values differ in the form of their numbers only. Lookups and writes keep this, and
so does writing, to one of the two, a value that is there already but for the form of its numbers. -/

namespace FormLogic

open Value

namespace Entries

variable {as bs : Entries} {v w : Value}

theorem find?_rel (h : EntriesResemble as bs) (key : String) :
    Option.Rel Resembles (as.find? key) (bs.find? key) := by
  induction as generalizing bs with
  | nil =>
    cases h
    exact .none
  | cons entry as ih =>
    cases h with
    | cons k first rest =>
      simp only [find?]
      split
      · exact .some first
      · exact ih rest

theorem inside_resemble {found other : Option Value} (h : Option.Rel Resembles found other) :
    EntriesResemble (inside found) (inside other) := by
  cases h with
  | none => exact .nil
  | @some v w h =>
    cases h with
    | same => exact .refl _
    | arrays items => exact .nil
    | objects entries => exact entries
    | agreeing h =>
      have hkind := kind_of_agrees h
      cases v with
      | object as =>
        cases w with
        | object bs => exact .of_entriesAgree h
        | _ => cases hkind
      | _ => cases w <;> first | exact .nil | cases hkind

theorem lookup_rel (h : EntriesResemble as bs) (first : String) (below : List String) :
    Option.Rel Resembles (lookup first below as) (lookup first below bs) := by
  induction below generalizing first as bs with
  | nil => exact find?_rel h first
  | cons next below ih =>
    rw [lookup_cons, lookup_cons]
    exact ih (inside_resemble (find?_rel h first)) next

theorem put_resemble (h : EntriesResemble as bs) (key : String) (hvalue : Resembles v w) :
    EntriesResemble (as.put key v) (bs.put key w) := by
  induction as generalizing bs with
  | nil =>
    cases h
    exact .cons key hvalue .nil
  | cons entry as ih =>
    cases h with
    | cons k first rest =>
      simp only [put]
      split
      · exact .cons key hvalue (.cons k first rest)
      · split
        · exact .cons key hvalue rest
        · exact .cons k first (ih rest)

theorem store_resemble (h : EntriesResemble as bs) (first : String) (below : List String)
    (hvalue : Resembles v w) :
    EntriesResemble (store v first below as) (store w first below bs) := by
  induction below generalizing first as bs with
  | nil => exact put_resemble h first hvalue
  | cons next below ih =>
    exact put_resemble h first (.objects (ih (inside_resemble (find?_rel h first)) next))

theorem put_of_resembling (hkeys : (bs.map (·.1)).Pairwise (· < ·)) (h : EntriesResemble as bs)
    {key : String} {old : Value} (hold : as.find? key = some old) (hvalue : Resembles old v) :
    EntriesResemble as (bs.put key v) := by
  induction as generalizing bs with
  | nil => cases hold
  | cons entry as ih =>
    cases h with
    | @cons k a b as bs first rest =>
      rw [List.map_cons, List.pairwise_cons] at hkeys
      simp only [find?] at hold
      simp only [put]
      split at hold
      · next hkey =>
        obtain rfl := Option.some.inj hold
        rw [if_neg (by rw [hkey]; exact String.lt_irrefl key), if_pos hkey, ← hkey]
        exact .cons k hvalue rest
      · next hkey =>
        have hmem : key ∈ bs.map Prod.fst := by
          have hfound := find?_rel rest key
          rw [hold] at hfound
          rw [← isSome_find?_iff]
          generalize find? key bs = found at hfound ⊢
          cases hfound
          rfl
        rw [if_neg (String.lt_asymm (hkeys.1 key hmem)), if_neg hkey]
        exact .cons k first (ih hkeys.2 rest hold)

theorem mem_of_find? {entries : Entries} {key : String} (h : entries.find? key = some v) :
    (key, v) ∈ entries := by
  induction entries with
  | nil => cases h
  | cons entry rest ih =>
    obtain ⟨k, w⟩ := entry
    simp only [find?] at h
    split at h
    · next hkey =>
      rw [hkey, Option.some.inj h]
      exact List.mem_cons_self
    · exact List.mem_cons_of_mem _ (ih h)

theorem exists_of_lookup_inside {found : Option Value} {first : String} {below : List String}
    (h : lookup first below (inside found) = some v) : ∃ inner, found = some (.object inner) := by
  have hnone : lookup first below [] = none := lookup_nil first below
  cases found with
  | none => cases hnone.symm.trans h
  | some w =>
    cases w with
    | object inner => exact ⟨inner, rfl⟩
    | _ => cases hnone.symm.trans h

section Ordered

variable {entries : Entries} (h : (Value.object entries).Ordered)
include h

theorem ordered_find? {key : String} (hv : entries.find? key = some v) : v.Ordered := by
  cases h with
  | object _ hvalues => exact hvalues _ (mem_of_find? hv)

theorem ordered_inside (key : String) : (Value.object (inside (entries.find? key))).Ordered := by
  have hempty : (Value.object []).Ordered := .object .nil nofun
  cases hv : find? key entries with
  | none => exact hempty
  | some v =>
    have hordered := ordered_find? h hv
    cases v <;> first | exact hempty | exact hordered

theorem ordered_put (key : String) (hv : v.Ordered) : (Value.object (entries.put key v)).Ordered := by
  cases h with
  | object hkeys hvalues =>
    refine .object ?_ fun entry hentry => ?_
    · rw [map_fst_put]
      exact NameSet.ascending_place key hkeys
    · rcases mem_of_mem_put hentry with rfl | hold
      · exact hv
      · exact hvalues entry hold

theorem ordered_lookup {first : String} {below : List String}
    (hv : lookup first below entries = some v) : v.Ordered := by
  induction below generalizing first entries with
  | nil => exact ordered_find? h hv
  | cons next below ih =>
    rw [lookup_cons] at hv
    exact ih (ordered_inside h first) hv

theorem ordered_store (first : String) (below : List String) (hv : v.Ordered) :
    (Value.object (store v first below entries)).Ordered := by
  induction below generalizing first entries with
  | nil => exact ordered_put h first hv
  | cons next below ih => exact ordered_put h first (ih (ordered_inside h first) next)

end Ordered

theorem store_of_resembling (hordered : (Value.object bs).Ordered) (h : EntriesResemble as bs)
    {first : String} {below : List String} {old : Value}
    (hold : lookup first below as = some old) (hvalue : Resembles old v) :
    EntriesResemble as (store v first below bs) := by
  induction below generalizing first as bs with
  | nil =>
    cases hordered with
    | object hkeys _ => exact put_of_resembling hkeys h hold hvalue
  | cons next below ih =>
    rw [lookup_cons] at hold
    have hinner := ih (ordered_inside hordered first) (inside_resemble (find?_rel h first)) hold
    obtain ⟨inner, hfound⟩ := exists_of_lookup_inside hold
    rw [hfound, inside] at hinner
    cases hordered with
    | object hkeys _ => exact put_of_resembling hkeys h hfound (.objects hinner)

end Entries

namespace Snapshot

variable {s t : Snapshot} {v w : Value}

def Ordered (s : Snapshot) : Prop := (Value.object s.entries).Ordered

def Resembles (s t : Snapshot) : Prop := EntriesResemble s.entries t.entries

theorem Resembles.refl (s : Snapshot) : s.Resembles s := EntriesResemble.refl _

theorem Resembles.get?_rel (h : s.Resembles t) (path : String) :
    Option.Rel Value.Resembles (s.get? path) (t.get? path) := Entries.lookup_rel h _ _

theorem Resembles.insert (h : s.Resembles t) (path : String) (hvalue : v.Resembles w) :
    (s.insert path v).Resembles (t.insert path w) := Entries.store_resemble h _ _ hvalue

theorem Resembles.insert_right (h : s.Resembles t) (ht : t.Ordered) {path : String} {old : Value}
    (hold : s.get? path = some old) (hvalue : old.Resembles v) : s.Resembles (t.insert path v) :=
  Entries.store_of_resembling ht h hold hvalue

theorem Ordered.get? (h : s.Ordered) {path : String} (hv : s.get? path = some v) : v.Ordered :=
  Entries.ordered_lookup h hv

theorem Ordered.insert (h : s.Ordered) (path : String) (hv : v.Ordered) :
    (s.insert path v).Ordered := Entries.ordered_store h _ _ hv

end Snapshot

end FormLogic
