import FormLogic.Proofs.Path.Overlap
import FormLogic.Proofs.Snapshot.Frame
import Mathlib.Data.List.Pairwise
import Mathlib.Data.String.Basic

/-! Writes along paths of which neither leads to the other may change places: the nested objects
that they share come out the same, also where the first write had to make them. -/

namespace FormLogic

namespace Entries

variable {key other : String} (v w : Value) (entries : Entries)

theorem put_put_self (key : String) : put key v (put key w entries) = put key v entries := by
  induction entries with
  | nil => simp [put]
  | cons entry rest ih =>
    obtain ⟨k, u⟩ := entry
    simp only [put]
    split
    · simp [put]
    · next hge =>
      split
      · simp [put]
      · next hne => simp [put, hge, hne, ih]

theorem put_comm_of_lt (h : key < other) :
    put key v (put other w entries) = put other w (put key v entries) := by
  have hne : key ≠ other := fun heq => String.lt_irrefl key (heq ▸ h)
  have hge : ¬other < key := fun hlt => String.lt_irrefl key (String.lt_trans h hlt)
  induction entries with
  | nil => simp [put, h, hne, hge]
  | cons entry rest ih =>
    obtain ⟨k, u⟩ := entry
    by_cases hother : other < k
    · have hkey : key < k := String.lt_trans h hother
      simp [put, h, hne, hge, hother, hkey]
    · by_cases heq : k = other
      · subst heq
        simp [put, h, hne, hge]
      · by_cases hkey : key < k
        · simp [put, hne, hge, hother, heq, hkey]
        · by_cases hsame : k = key
          · simp [put, hne, hge, hsame]
          · simp [put, hother, heq, hkey, hsame, ih]

theorem put_comm (h : key ≠ other) :
    put key v (put other w entries) = put other w (put key v entries) := by
  by_cases hlt : key < other
  · exact put_comm_of_lt v w entries hlt
  · have hgt : other < key := Decidable.byContradiction fun hnot =>
      h (String.le_antisymm (String.not_lt.1 hnot) (String.not_lt.1 hlt))
    exact (put_comm_of_lt w v entries hgt).symm

theorem store_comm_of_ne (h : key ≠ other) (below within : List String) :
    store v key below (store w other within entries) =
      store w other within (store v key below entries) := by
  cases below <;> cases within <;>
    simp only [store, find?_put_of_ne h, find?_put_of_ne h.symm, put_comm _ _ _ h]

theorem store_comm {p q : Path} (h : p.overlaps q = false) :
    store v p.first p.below (store w q.first q.below entries) =
      store w q.first q.below (store v p.first p.below entries) := by
  obtain ⟨first, below⟩ := p
  obtain ⟨other, within⟩ := q
  induction below generalizing first other within entries with
  | nil =>
    have hne : first ≠ other := by
      rintro rfl
      simp [Path.overlaps, Path.segments] at h
    exact store_comm_of_ne v w entries hne [] within
  | cons next below ih =>
    by_cases hkey : first = other
    · subst hkey
      cases within with
      | nil => simp [Path.overlaps, Path.segments] at h
      | cons inner within =>
        have hrest : Path.overlaps ⟨next, below⟩ ⟨inner, within⟩ = false := by
          simpa [Path.overlaps, Path.segments] using h
        simp only [store, find?_put_self, inside, put_put_self]
        rw [ih _ next inner within hrest]
    · exact store_comm_of_ne v w entries hkey _ within

end Entries

namespace Snapshot

theorem insert_insert_comm (s : Snapshot) {path other : String} (v w : Value)
    (h : (Path.ofString path).overlaps (.ofString other) = false) :
    (s.insert path v).insert other w = (s.insert other w).insert path v :=
  congrArg Snapshot.mk (Entries.store_comm v w s.entries h).symm

/-- Where neither list of segments begins the other, the same snapshot comes out in either order,
down to the objects that both writes make on their way. -/
theorem insert_insert_of_not_prefix (s : Snapshot) {path other : String} (v w : Value)
    (hpath : ¬ (Path.ofString path).segments <+: (Path.ofString other).segments)
    (hother : ¬ (Path.ofString other).segments <+: (Path.ofString path).segments) :
    (s.insert path v).insert other w = (s.insert other w).insert path v :=
  s.insert_insert_comm v w (Path.overlaps_eq_false_iff.2 ⟨hpath, hother⟩)

theorem insert_insert_item :
    let s : Snapshot := ⟨[("item", .int 7)]⟩
    let t : Snapshot := ⟨[("item", .object [("fee", .object [("net", .int 4)]), ("name", .null)])]⟩
    (s.insert "item.fee.net" (.int 4)).insert "item.name" .null = t ∧
      (s.insert "item.name" .null).insert "item.fee.net" (.int 4) = t := by
  intro s t
  have hleft : (s.insert "item.fee.net" (.int 4)).insert "item.name" .null = t := rfl
  exact ⟨hleft, (s.insert_insert_of_not_prefix (.int 4) .null (by decide) (by decide)).symm.trans
    hleft⟩

theorem applyAll_perm (s : Snapshot) {writes others : List Write} (hperm : writes.Perm others)
    (hapart : writes.Pairwise fun w u =>
      (Path.ofString w.target).overlaps (.ofString u.target) = false) :
    s.applyAll writes = s.applyAll others := by
  have hsymm : Std.Symm fun w u : Write =>
      (Path.ofString w.target).overlaps (.ofString u.target) = false :=
    ⟨fun w u h => (Path.overlaps_comm ..).trans h⟩
  refine hperm.foldl_eq' (fun w hw u hu t => ?_) s
  by_cases heq : w = u
  · rw [heq]
  · exact t.insert_insert_comm w.value u.value (hapart.forall hw hu heq)

end Snapshot

end FormLogic
