import FormLogic.Proofs.Path.Overlap
import FormLogic.Proofs.Snapshot.Frame

/-! What a write along one path makes of a lookup along another. Below the written path the written
value answers; above it stands the object that was there, or a new one, with the value put in; all
other lookups are as before. -/

namespace FormLogic

def Value.descend? : Value → List String → Option Value
  | v, [] => some v
  | .object entries, key :: below => (Entries.find? key entries).bind (·.descend? below)
  | _, _ :: _ => none

namespace Entries

theorem lookup_eq_descend? (first : String) (below : List String) (entries : Entries) :
    lookup first below entries = (entries.find? first).bind (·.descend? below) := by
  induction below generalizing first entries with
  | nil => cases hfirst : entries.find? first <;> simp [lookup, Value.descend?, hfirst]
  | cons next below ih =>
    rw [lookup]
    cases entries.find? first with
    | none => rfl
    | some v =>
      cases v with
      | object inner => exact ih next inner
      | _ => rfl

variable (value : Value) (entries : Entries)

theorem lookup_store_append (first : String) (below more : List String) :
    lookup first (below ++ more) (store value first below entries) = value.descend? more := by
  induction below generalizing first entries with
  | nil => rw [List.nil_append, lookup_eq_descend?, store, find?_put_self, Option.bind_some]
  | cons next below ih =>
    rw [List.cons_append, lookup_cons, store, find?_put_self, inside]
    exact ih _ next

theorem lookup_store_above (first : String) (below : List String) (next : String)
    (rest : List String) :
    lookup first below (store value first (below ++ next :: rest) entries) =
      some (.object (store value next rest (inside (lookup first below entries)))) := by
  induction below generalizing first entries with
  | nil => rw [List.nil_append, lookup, store, find?_put_self, lookup]
  | cons inner below ih =>
    rw [List.cons_append, lookup_cons, lookup_cons, store, find?_put_self, inside]
    exact ih _ inner

end Entries

namespace Path

theorem segments_eq_append_iff {p q : Path} {more : List String} :
    q.segments = p.segments ++ more ↔ q.first = p.first ∧ q.below = p.below ++ more := by
  rw [segments, segments, List.cons_append, List.cons.injEq]

end Path

namespace Snapshot

/-- Every lookup after a write: along the written path, below it, above it, and elsewhere. -/
theorem get?_insert (s : Snapshot) (path other : String) (value : Value) :
    (other = path → (s.insert path value).get? other = some value) ∧
    (∀ more, (Path.ofString other).segments = (Path.ofString path).segments ++ more →
      (s.insert path value).get? other = value.descend? more) ∧
    (∀ next rest,
      (Path.ofString path).segments = (Path.ofString other).segments ++ next :: rest →
      (s.insert path value).get? other =
        some (.object ((Entries.inside (s.get? other)).store value next rest))) ∧
    (¬ (Path.ofString path).segments <+: (Path.ofString other).segments →
      ¬ (Path.ofString other).segments <+: (Path.ofString path).segments →
      (s.insert path value).get? other = s.get? other) := by
  refine ⟨?_, fun more hmore => ?_, fun next rest habove => ?_, fun hbelow habove => ?_⟩
  · rintro rfl
    exact s.get?_insert_self other value
  · obtain ⟨hfirst, hmore⟩ := Path.segments_eq_append_iff.1 hmore
    rw [get?, getAt?, hfirst, hmore]
    exact Entries.lookup_store_append value s.entries _ _ more
  · obtain ⟨hfirst, habove⟩ := Path.segments_eq_append_iff.1 habove
    rw [get?, getAt?, insert, insertAt, hfirst, habove]
    exact Entries.lookup_store_above value s.entries _ _ next rest
  · exact s.get?_insert_of_not_overlaps value (Path.overlaps_eq_false_iff.2 ⟨hbelow, habove⟩)

theorem get?_insert_address :
    let s : Snapshot := ⟨[("address", .int 5), ("name", .string "Ann")]⟩
    let lines : Value := .array [.string "1 Main St"]
    let t := s.insert "address.lines" lines
    t.get? "address.lines" = some lines ∧ t.get? "address.lines.0" = none ∧
      t.get? "address" = some (.object [("lines", lines)]) ∧
      t.get? "name" = some (.string "Ann") := by
  intro s lines t
  refine ⟨(s.get?_insert "address.lines" "address.lines" lines).1 rfl, ?_, ?_, ?_⟩
  · exact (s.get?_insert "address.lines" "address.lines.0" lines).2.1 ["0"] (by decide)
  · exact (s.get?_insert "address.lines" "address" lines).2.2.1 "lines" [] (by decide)
  · exact (s.get?_insert "address.lines" "name" lines).2.2.2 (by decide) (by decide)

end Snapshot

end FormLogic
