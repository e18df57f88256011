import FormLogic.Calculation

/-! What writing leaves alone: a value that does not lie on, above or below a written path is looked
up as before, whatever the writes replaced on their way. -/

namespace FormLogic

namespace Entries

theorem lookup_nil (first : String) (below : List String) : lookup first below [] = none := by
  cases below <;> rfl

theorem lookup_cons (first next : String) (below : List String) (entries : Entries) :
    lookup first (next :: below) entries = lookup next below (inside (entries.find? first)) := by
  rw [lookup]
  rcases entries.find? first with _ | v
  · exact (lookup_nil next below).symm
  · cases v <;> simp only [inside, lookup_nil]

theorem lookup_eq_of_find?_eq {first : String} {entries others : Entries}
    (h : entries.find? first = others.find? first) (below : List String) :
    lookup first below entries = lookup first below others := by
  cases below with
  | nil => exact h
  | cons next below => rw [lookup_cons, lookup_cons, h]

theorem find?_store_of_ne {first other : String} (h : other ≠ first) (value : Value)
    (below : List String) (entries : Entries) :
    (store value first below entries).find? other = entries.find? other := by
  cases below <;> exact find?_put_of_ne h _ entries

theorem lookup_store_of_not_overlaps (value : Value) {p q : Path} (h : p.overlaps q = false)
    (entries : Entries) :
    lookup q.first q.below (store value p.first p.below entries) =
      lookup q.first q.below entries := by
  obtain ⟨first, below⟩ := p
  obtain ⟨other, within⟩ := q
  induction below generalizing first other within entries with
  | nil =>
    have hne : other ≠ first := by
      rintro rfl
      simp [Path.overlaps, Path.segments] at h
    exact lookup_eq_of_find?_eq (find?_store_of_ne hne value [] entries) within
  | cons next below ih =>
    -- within one object the paths part further down, otherwise here
    by_cases hkey : other = first
    · subst hkey
      cases within with
      | nil => simp [Path.overlaps, Path.segments] at h
      | cons inner within =>
        have hrest : Path.overlaps ⟨next, below⟩ ⟨inner, within⟩ = false := by
          simpa [Path.overlaps, Path.segments] using h
        simp only [store, lookup_cons, find?_put_self, inside]
        exact ih _ next inner within hrest
    · exact lookup_eq_of_find?_eq (find?_store_of_ne hkey value _ entries) within

end Entries

namespace Snapshot

theorem get?_insert_of_not_overlaps (s : Snapshot) {path other : String} (value : Value)
    (h : (Path.ofString path).overlaps (.ofString other) = false) :
    (s.insert path value).get? other = s.get? other :=
  Entries.lookup_store_of_not_overlaps value h s.entries

theorem get?_insertAll_of_not_overlaps (s : Snapshot) {inserts : List (String × Value)}
    {other : String}
    (h : ∀ i ∈ inserts, (Path.ofString i.1).overlaps (.ofString other) = false) :
    (s.insertAll inserts).get? other = s.get? other := by
  induction inserts generalizing s with
  | nil => rfl
  | cons i inserts ih =>
    obtain ⟨hi, hinserts⟩ := List.forall_mem_cons.1 h
    exact (ih (s.insert i.1 i.2) hinserts).trans (s.get?_insert_of_not_overlaps i.2 hi)

theorem applyAll_append (s : Snapshot) (first second : List Write) :
    s.applyAll (first ++ second) = (s.applyAll first).applyAll second := List.foldl_append

theorem applyAll_eq_insertAll (s : Snapshot) (writes : List Write) :
    s.applyAll writes = s.insertAll (writes.map fun w => (w.target, w.value)) := by
  rw [insertAll, List.foldl_map]
  rfl

theorem get?_applyAll_of_not_overlaps (s : Snapshot) {writes : List Write} {other : String}
    (h : ∀ w ∈ writes, (Path.ofString w.target).overlaps (.ofString other) = false) :
    (s.applyAll writes).get? other = s.get? other := by
  rw [applyAll_eq_insertAll]
  exact s.get?_insertAll_of_not_overlaps (List.forall_mem_map.2 h)

end Snapshot

end FormLogic
