import FormLogic.Document.Value
import Mathlib

/-! Which JSON trees have a value. An array or object has one if there is room for it and what is in
it has one; with more room the value is the same. -/

namespace FormLogic

namespace Json

theorem allWhole_iff {items : List Json} :
    allWhole items = true ↔ ∀ j ∈ items, j.isWhole = true := by
  induction items with
  | nil => exact iff_of_true rfl nofun
  | cons j rest ih => rw [allWhole, Bool.and_eq_true, ih, List.forall_mem_cons]

theorem entriesWhole_iff {entries : List (Content × Json)} :
    entriesWhole entries = true ↔ ∀ entry ∈ entries, entry.2.isWhole = true := by
  induction entries with
  | nil => exact iff_of_true rfl nofun
  | cons entry rest ih => rw [entriesWhole, Bool.and_eq_true, ih, List.forall_mem_cons]

end Json

namespace Value

variable {room more : ℕ}

theorem isSome_listOfJson?_iff {items : List Json} :
    (listOfJson? room items).isSome = true ↔ ∀ j ∈ items, (ofJson? room j).isSome = true := by
  induction items with
  | nil => exact iff_of_true rfl nofun
  | cons j rest ih =>
    rw [List.forall_mem_cons, ← ih, listOfJson?]
    cases ofJson? room j <;> cases listOfJson? room rest <;> simp

theorem isSome_entriesOfJson?_iff {entries : List (Json.Content × Json)} :
    (entriesOfJson? room entries).isSome = true ↔
      ∀ entry ∈ entries, entry.1.isSome = true ∧ (ofJson? room entry.2).isSome = true := by
  induction entries with
  | nil => exact iff_of_true rfl nofun
  | cons entry rest ih =>
    obtain ⟨key, j⟩ := entry
    unfold entriesOfJson?
    rw [List.forall_mem_cons, ← ih]
    cases key <;> cases ofJson? room j <;> cases entriesOfJson? room rest <;> simp

theorem isSome_ofJson?_array_iff {items : List Json} :
    (ofJson? room (.array items)).isSome = true ↔
      ∃ inner, room = inner + 1 ∧ ∀ j ∈ items, (ofJson? inner j).isSome = true := by
  cases room with
  | zero => exact iff_of_false Bool.false_ne_true nofun
  | succ inner =>
    rw [ofJson?, if_neg (Nat.succ_ne_zero inner), Option.isSome_map, isSome_listOfJson?_iff]
    exact ⟨fun h => ⟨inner, rfl, h⟩, fun ⟨_, hroom, h⟩ => Nat.succ.inj hroom ▸ h⟩

theorem isSome_ofJson?_object_iff {entries : List (Json.Content × Json)} :
    (ofJson? room (.object entries)).isSome = true ↔ ∃ inner, room = inner + 1 ∧
      ∀ entry ∈ entries, entry.1.isSome = true ∧ (ofJson? inner entry.2).isSome = true := by
  cases room with
  | zero => exact iff_of_false Bool.false_ne_true nofun
  | succ inner =>
    rw [ofJson?, if_neg (Nat.succ_ne_zero inner), Option.isSome_map, isSome_entriesOfJson?_iff]
    exact ⟨fun h => ⟨inner, rfl, h⟩, fun ⟨_, hroom, h⟩ => Nat.succ.inj hroom ▸ h⟩

theorem isWhole_of_isSome {j : Json} (h : (ofJson? room j).isSome = true) : j.isWhole = true := by
  induction room generalizing j with
  | zero => cases j <;> first | rfl | cases h
  | succ inner ih =>
    cases j with
    | array items =>
      obtain ⟨_, ⟨⟩, hitems⟩ := isSome_ofJson?_array_iff.1 h
      exact Json.allWhole_iff.2 fun j hj => ih (hitems j hj)
    | object entries =>
      obtain ⟨_, ⟨⟩, hentries⟩ := isSome_ofJson?_object_iff.1 h
      exact Json.entriesWhole_iff.2 fun entry hentry => ih (hentries entry hentry).2
    | cut => cases h
    | _ => rfl

mutual

theorem ofJson?_mono : (j : Json) → {room more : ℕ} → room ≤ more → {v : Value} →
    ofJson? room j = some v → ofJson? more j = some v
  | .null, _, _, _, _, hv => hv
  | .bool _, _, _, _, _, hv => hv
  | .number _, _, _, _, _, hv => hv
  | .string _, _, _, _, _, hv => hv
  | .cut, _, _, _, _, hv => hv
  | .array items, room, more, h, v, hv => by
    rw [ofJson?] at hv
    split at hv
    · cases hv
    · next hroom =>
      obtain ⟨vs, hvs, rfl⟩ := Option.map_eq_some_iff.1 hv
      have hinner := listOfJson?_mono items (Nat.sub_le_sub_right h 1) hvs
      rw [ofJson?, if_neg (by omega), hinner, Option.map_some]
  | .object entries, room, more, h, v, hv => by
    rw [ofJson?] at hv
    split at hv
    · cases hv
    · next hroom =>
      obtain ⟨found, hfound, rfl⟩ := Option.map_eq_some_iff.1 hv
      have hinner := entriesOfJson?_mono entries (Nat.sub_le_sub_right h 1) hfound
      rw [ofJson?, if_neg (by omega), hinner, Option.map_some]

theorem listOfJson?_mono : (items : List Json) → {room more : ℕ} → room ≤ more →
    {vs : List Value} → listOfJson? room items = some vs → listOfJson? more items = some vs
  | [], _, _, _, _, hvs => hvs
  | j :: rest, room, more, h, vs, hvs => by
    unfold listOfJson? at hvs ⊢
    split at hvs
    · next v others hv hothers =>
      simp only [ofJson?_mono j h hv, listOfJson?_mono rest h hothers]
      exact hvs
    · cases hvs

theorem entriesOfJson?_mono : (entries : List (Json.Content × Json)) → {room more : ℕ} →
    room ≤ more → {found : List (String × Value)} → entriesOfJson? room entries = some found →
      entriesOfJson? more entries = some found
  | [], _, _, _, _, hfound => hfound
  | (key, j) :: rest, room, more, h, found, hfound => by
    unfold entriesOfJson? at hfound ⊢
    split at hfound
    · next key v others hv hothers =>
      simp only [ofJson?_mono j h hv, entriesOfJson?_mono rest h hothers]
      exact hfound
    · cases hfound

end

end Value

/-- The value of a tree, which is read with as much room as it takes. -/
def Json.Denotes (j : Json) (v : Value) : Prop := ∃ room, Value.ofJson? room j = some v

theorem Json.Denotes.unique {j : Json} {v w : Value} (h : j.Denotes v) (h' : j.Denotes w) :
    v = w := by
  obtain ⟨room, hv⟩ := h
  obtain ⟨more, hw⟩ := h'
  have hmax := Value.ofJson?_mono j (Nat.le_max_left room more) hv
  rw [Value.ofJson?_mono j (Nat.le_max_right room more) hw] at hmax
  exact (Option.some.inj hmax).symm

theorem Json.eq_of_rel_denotes {member : Option Json} {v w : Option Value}
    (h : Option.Rel Denotes member v) (h' : Option.Rel Denotes member w) : v = w := by
  cases h with
  | some hv =>
    cases h' with
    | some hw => rw [hv.unique hw]
  | none =>
    cases h'
    rfl

end FormLogic
