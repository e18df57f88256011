import FormLogic.Proofs.Document.Value
import FormLogic.Proofs.Form.Restriction
import FormLogic.Proofs.Path.Texts
import FormLogic.Proofs.Snapshot.Lookup
import Mathlib

/-! Which paths a form watches. A write along a watched path can change what some formula is declared
to read, whatever the snapshot holds, and a write along any other path cannot. -/

namespace FormLogic

namespace Value

/-- Nested objects in which these keys lead to `v`, and no others to anything. -/
def behind (v : Value) : List String → Value
  | [] => v
  | key :: keys => .object [(key, v.behind keys)]

theorem descend?_behind (v : Value) (keys : List String) :
    (v.behind keys).descend? keys = some v := by
  induction keys with
  | nil => rfl
  | cons key keys ih => simpa [behind, descend?, Entries.find?] using ih

theorem ordered_behind {v : Value} (hv : v.Ordered) (keys : List String) :
    (v.behind keys).Ordered := by
  induction keys with
  | nil => exact hv
  | cons key keys ih => exact .object (List.pairwise_singleton ..) (by simpa using ih)

theorem descend?_append (v : Value) (keys more : List String) :
    v.descend? (keys ++ more) = (v.descend? keys).bind (·.descend? more) := by
  induction keys generalizing v with
  | nil => rfl
  | cons key keys ih =>
    cases v with
    | object entries =>
      simp only [List.cons_append, descend?]
      cases Entries.find? key entries with
      | none => rfl
      | some inner => exact ih inner
    | _ => rfl

theorem exists_some_ne (found : Option Value) : ∃ v : Value, v.Ordered ∧ some v ≠ found := by
  by_cases hnull : found = some .null
  · exact ⟨.bool true, .bool true, by simp [hnull]⟩
  · exact ⟨.null, .null, Ne.symm hnull⟩

end Value

namespace Snapshot

variable (s : Snapshot) {path name : String} {more : List String}

theorem get?_of_segments_append
    (h : (Path.ofString path).segments = (Path.ofString name).segments ++ more) :
    s.get? path = (s.get? name).bind (·.descend? more) := by
  obtain ⟨hfirst, hbelow⟩ := Path.segments_eq_append_iff.1 h
  rw [get?, get?, getAt?, getAt?, hfirst, hbelow, Entries.lookup_eq_descend?,
    Entries.lookup_eq_descend?, Option.bind_assoc]
  simp only [Value.descend?_append]

theorem exists_get?_insert_ne (h : (Path.ofString path).overlaps (.ofString name) = true) :
    ∃ v : Value, v.Ordered ∧ (s.insert path v).get? name ≠ s.get? name := by
  rw [Path.overlaps, Bool.or_eq_true, List.isPrefixOf_iff_prefix, List.isPrefixOf_iff_prefix] at h
  rcases h with ⟨more, hbelow⟩ | ⟨more, habove⟩
  · obtain ⟨v, hv, hne⟩ := Value.exists_some_ne (s.get? name)
    refine ⟨v.behind more, Value.ordered_behind hv more, ?_⟩
    rwa [get?_of_segments_append _ hbelow.symm, get?_insert_self, Option.bind_some,
      Value.descend?_behind]
  · obtain ⟨v, hv, hne⟩ := Value.exists_some_ne (s.get? path)
    refine ⟨v, hv, fun hsame => hne ?_⟩
    rw [← s.get?_insert_self path v, get?_of_segments_append _ habove.symm, hsame,
      ← get?_of_segments_append _ habove.symm]

end Snapshot

namespace CompiledForm

variable {form : CompiledForm} {path : String}

theorem isWatched_iff_exists_overlaps : form.isWatched path = true ↔
    ∃ name ∈ form.watched, (Path.ofString path).overlaps (.ofString name) = true := by
  simp only [isWatched, Bool.not_eq_true', List.isEmpty_eq_false_iff_exists_mem,
    mem_overlapping_iff, Path.overlaps_comm]

theorem isWatched_eq_any_texts (form : CompiledForm) (path : String) :
    form.isWatched path = form.watched.names.any (Path.textsOverlap · path) := by
  have hiff : form.isWatched path = true ↔
      form.watched.names.any (Path.textsOverlap · path) = true := by
    simp only [isWatched_iff_exists_overlaps, List.any_eq_true, ← Path.overlaps_ofString,
      Path.overlaps_comm (.ofString path)]
    rfl
  exact Bool.eq_iff_iff.2 hiff

end CompiledForm

namespace Form

variable {form : Form} {compiled : CompiledForm}

theorem mem_watched_iff_declared (h : form.compile = .ok compiled) {name : String} :
    name ∈ compiled.watched ↔ ∃ c ∈ form.calculations, name ∈ c.dependsOn := by
  rw [CompiledForm.mem_watched_iff]
  constructor
  · rintro ⟨c, hc, hname⟩
    exact ⟨c.declaration, declaration_mem h hc, hname⟩
  · rintro ⟨c, hc, hname⟩
    exact ⟨c.compile, (mem_calculations_iff h).2 ⟨c, hc, rfl⟩, hname⟩

/-- A path is watched just when some write along it changes what is looked up for a formula. That is
decided on the texts of the paths alone; in the affirmative there is such a write to every snapshot. -/
theorem isWatched_iff_exists_change (h : form.compile = .ok compiled) (path : String) :
    (compiled.isWatched path = true ↔
      ∃ (s : Snapshot) (v : Value), ∃ c ∈ form.calculations, ∃ name ∈ c.dependsOn,
        (s.insert path v).get? name ≠ s.get? name) ∧
    (compiled.isWatched path = true → ∀ s : Snapshot, ∃ v : Value, v.Ordered ∧
      ∃ c ∈ form.calculations, ∃ name ∈ c.dependsOn,
        (s.insert path v).get? name ≠ s.get? name) ∧
    compiled.isWatched path = compiled.watched.names.any (Path.textsOverlap · path) := by
  have hchange : compiled.isWatched path = true → ∀ s : Snapshot, ∃ v : Value, v.Ordered ∧
      ∃ c ∈ form.calculations, ∃ name ∈ c.dependsOn,
        (s.insert path v).get? name ≠ s.get? name := by
    intro hwatched s
    obtain ⟨name, hname, hover⟩ := CompiledForm.isWatched_iff_exists_overlaps.1 hwatched
    obtain ⟨c, hc, hname⟩ := (mem_watched_iff_declared h).1 hname
    obtain ⟨v, hv, hne⟩ := s.exists_get?_insert_ne hover
    exact ⟨v, hv, c, hc, name, hname, hne⟩
  refine ⟨⟨fun hwatched => ?_, ?_⟩, hchange, compiled.isWatched_eq_any_texts path⟩
  · obtain ⟨v, -, hchanged⟩ := hchange hwatched .empty
    exact ⟨.empty, v, hchanged⟩
  · rintro ⟨s, v, c, hc, name, hname, hne⟩
    have hover : (Path.ofString path).overlaps (.ofString name) = true := by
      by_contra hapart
      exact hne (s.get?_insert_of_not_overlaps v (by simpa using hapart))
    have hmem := (mem_watched_iff_declared h).2 ⟨c, hc, hname⟩
    exact CompiledForm.isWatched_iff_exists_overlaps.2 ⟨name, hmem, hover⟩

def parcelForm : Form := ⟨[], [⟨"fee", ["parcel.size", "rate."], "parcel.size * 2"⟩]⟩

def parcelCompiled : CompiledForm := ⟨[], parcelForm.calculations.map Calculation.compile⟩

theorem compile_parcelForm : parcelForm.compile = .ok parcelCompiled := by cbv

theorem isWatched_parcel :
    parcelForm.compile = .ok parcelCompiled ∧
      parcelCompiled.isWatched "parcel" = true ∧ parcelCompiled.isWatched "rate.x" = false ∧
      (∀ s : Snapshot, ∃ v : Value, v.Ordered ∧ ∃ c ∈ parcelForm.calculations,
        ∃ name ∈ c.dependsOn, (s.insert "parcel" v).get? name ≠ s.get? name) ∧
      ∀ (s : Snapshot) (v : Value), (s.insert "rate.x" v).get? "rate." = s.get? "rate." := by
  have hparcel : parcelCompiled.isWatched "parcel" = true := by decide +kernel
  have hneighbour : parcelCompiled.isWatched "rate.x" = false := by decide +kernel
  refine ⟨compile_parcelForm, hparcel, hneighbour,
    (isWatched_iff_exists_change compile_parcelForm "parcel").2.1 hparcel, fun s v => ?_⟩
  by_contra hne
  have hwatched := (isWatched_iff_exists_change compile_parcelForm "rate.x").1.2
    ⟨s, v, _, List.mem_singleton_self _, "rate.", by decide, hne⟩
  exact absurd (hneighbour.symm.trans hwatched) nofun

end Form

end FormLogic
