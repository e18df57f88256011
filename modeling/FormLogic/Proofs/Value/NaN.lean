import FormLogic.Proofs.Snapshot.Frame
import FormLogic.Value.Comparison

/-! Values that hold NaN somewhere. They are the values that do not agree with themselves, and
looking up and writing values without NaN makes none. -/

namespace FormLogic

namespace Binary64

theorem compare?_self (x : Binary64) : x.compare? x = if x.isNaN then none else some .eq := by
  cases x <;> simp [compare?, orderKey?, isNaN]

end Binary64

namespace Value

mutual

def hasNaN : Value → Bool
  | .float x => x.isNaN
  | .array items => anyHasNaN items
  | .object entries => entriesHaveNaN entries
  | _ => false

def anyHasNaN : List Value → Bool
  | [] => false
  | v :: rest => hasNaN v || anyHasNaN rest

def entriesHaveNaN : List (String × Value) → Bool
  | [] => false
  | (_, v) :: rest => hasNaN v || entriesHaveNaN rest

end

mutual

theorem agrees_self : (v : Value) → v.agrees v = !v.hasNaN
  | .null => rfl
  | .bool b => by simp [agrees, hasNaN]
  | .int n => by simp [agrees, compareNumbers?, hasNaN]
  | .float x => by cases h : x.isNaN <;> simp [agrees, compareNumbers?, x.compare?_self, hasNaN, h]
  | .string s => by simp [agrees, hasNaN]
  | .array items => by rw [agrees, hasNaN, agreeAll_self items]
  | .object entries => by rw [agrees, hasNaN, entriesAgree_self entries]

theorem agreeAll_self : (items : List Value) → agreeAll items items = !anyHasNaN items
  | [] => rfl
  | v :: rest => by rw [agreeAll, anyHasNaN, agrees_self v, agreeAll_self rest, Bool.not_or]

theorem entriesAgree_self :
    (entries : List (String × Value)) → entriesAgree entries entries = !entriesHaveNaN entries
  | [] => rfl
  | (key, v) :: rest => by
    rw [entriesAgree, entriesHaveNaN, agrees_self v, entriesAgree_self rest, BEq.rfl,
      Bool.true_and, Bool.not_or]

end

end Value

namespace Entries

open Value

theorem hasNaN_of_find? {entries : Entries} (h : entriesHaveNaN entries = false) {key : String}
    {v : Value} (hv : entries.find? key = some v) : v.hasNaN = false := by
  induction entries with
  | nil => simp [find?] at hv
  | cons entry rest ih =>
    obtain ⟨k, w⟩ := entry
    simp only [entriesHaveNaN, Bool.or_eq_false_iff] at h
    simp only [find?] at hv
    split at hv
    · exact Option.some.inj hv ▸ h.1
    · exact ih h.2 hv

theorem entriesHaveNaN_inside {entries : Entries} (h : entriesHaveNaN entries = false)
    (key : String) : entriesHaveNaN (inside (entries.find? key)) = false := by
  cases hv : entries.find? key with
  | none => rfl
  | some v =>
    have hnan := hasNaN_of_find? h hv
    cases v <;> first | rfl | exact hnan

theorem entriesHaveNaN_put {entries : Entries} (h : entriesHaveNaN entries = false) (key : String)
    {value : Value} (hvalue : value.hasNaN = false) :
    entriesHaveNaN (entries.put key value) = false := by
  induction entries with
  | nil => simp [put, entriesHaveNaN, hvalue]
  | cons entry rest ih =>
    obtain ⟨k, w⟩ := entry
    simp only [entriesHaveNaN, Bool.or_eq_false_iff] at h
    simp only [put]
    split
    · simp [entriesHaveNaN, hvalue, h]
    · split <;> simp [entriesHaveNaN, hvalue, h, ih h.2]

theorem hasNaN_of_lookup {entries : Entries} (h : entriesHaveNaN entries = false) {first : String}
    {below : List String} {v : Value} (hv : lookup first below entries = some v) :
    v.hasNaN = false := by
  induction below generalizing first entries with
  | nil => exact hasNaN_of_find? h hv
  | cons next below ih =>
    rw [lookup_cons] at hv
    exact ih (entriesHaveNaN_inside h first) hv

theorem entriesHaveNaN_store {entries : Entries} (h : entriesHaveNaN entries = false)
    (first : String) (below : List String) {value : Value} (hvalue : value.hasNaN = false) :
    entriesHaveNaN (entries.store value first below) = false := by
  induction below generalizing first entries with
  | nil => exact entriesHaveNaN_put h first hvalue
  | cons next below ih =>
    refine entriesHaveNaN_put h first ?_
    rw [hasNaN]
    exact ih (entriesHaveNaN_inside h first) next

end Entries

namespace Snapshot

def hasNaN (s : Snapshot) : Bool := Value.entriesHaveNaN s.entries

theorem hasNaN_of_get? {s : Snapshot} (h : s.hasNaN = false) {path : String} {v : Value}
    (hv : s.get? path = some v) : v.hasNaN = false := Entries.hasNaN_of_lookup h hv

theorem hasNaN_insert {s : Snapshot} (h : s.hasNaN = false) (path : String) {value : Value}
    (hvalue : value.hasNaN = false) : (s.insert path value).hasNaN = false :=
  Entries.entriesHaveNaN_store h _ _ hvalue

theorem hasNaN_insertAll {s : Snapshot} (h : s.hasNaN = false) {inserts : List (String × Value)}
    (hinserts : ∀ i ∈ inserts, i.2.hasNaN = false) : (s.insertAll inserts).hasNaN = false := by
  induction inserts generalizing s with
  | nil => exact h
  | cons i inserts ih =>
    obtain ⟨hi, hinserts⟩ := List.forall_mem_cons.1 hinserts
    exact ih (hasNaN_insert h i.1 hi) hinserts

theorem hasNaN_applyAll {s : Snapshot} (h : s.hasNaN = false) {writes : List Write}
    (hwrites : ∀ w ∈ writes, w.value.hasNaN = false) : (s.applyAll writes).hasNaN = false := by
  rw [applyAll_eq_insertAll]
  exact hasNaN_insertAll h (List.forall_mem_map.2 hwrites)

end Snapshot

end FormLogic
