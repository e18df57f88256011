import FormLogic.Proofs.Form.Restriction

/-! Which fields a restricted pass computes: those with a dependency on, above or below the changed
path, and those that depend on the target of such a field by its very name. A field that is computed
from a part of a scheduled target, or from an object around it, need not be among them. -/

namespace FormLogic

namespace CompiledCalculation

def DependsAround (c : CompiledCalculation) (path : String) : Prop :=
  ∃ name ∈ c.declaration.dependsOn, (Path.ofString name).overlaps (.ofString path) = true

def DependsStrictlyAround (c : CompiledCalculation) (path : String) : Prop :=
  ∃ name ∈ c.declaration.dependsOn, (Path.ofString name).strictlyOverlaps (.ofString path) = true

theorem dependsAround_iff {c : CompiledCalculation} {path : String} :
    c.DependsAround path ↔ path ∈ c.declaration.dependsOn ∨ c.DependsStrictlyAround path := by
  constructor
  · rintro ⟨name, hname, hover⟩
    by_cases hsame : name = path
    · exact .inl (hsame ▸ hname)
    · refine .inr ⟨name, hname, ?_⟩
      by_contra hapart
      have hnot := Path.overlaps_ofString_of_ne hsame (by simpa using hapart)
      exact absurd (hover.symm.trans hnot) nofun
  · rintro (hname | ⟨name, hname, hover⟩)
    · exact ⟨path, hname, Path.overlaps_self _⟩
    · rw [Path.strictlyOverlaps, Bool.and_eq_true] at hover
      exact ⟨name, hname, hover.1⟩

end CompiledCalculation

namespace CompiledForm

/-- A field with a dependency on, above or below the target of a scheduled field is scheduled. -/
def ClosedUnderOverlap (form : CompiledForm) (path : String) : Prop :=
  ∀ c ∈ form.calculations, ∀ d ∈ form.calculations, d.target ∈ form.scheduled path →
    c.DependsAround d.target → c.target ∈ form.scheduled path

end CompiledForm

namespace Form

variable {form : Form} {compiled : CompiledForm} (h : form.compile = .ok compiled)
  {c : CompiledCalculation} {path : String}
include h

theorem target_mem_scheduled_iff (hc : c ∈ compiled.calculations) :
    c.target ∈ compiled.scheduled path ↔
      c.DependsAround path ∨ ∃ name ∈ c.declaration.dependsOn, name ∈ compiled.scheduled path := by
  constructor
  · intro hscheduled
    obtain ⟨declaration, hdeclared, htarget, name, hname, hreached⟩ :=
      Calculation.exists_of_mem_reached hscheduled
    obtain ⟨d, hd, rfl⟩ := List.mem_map.1 hdeclared
    obtain rfl : d = c := List.inj_on_of_nodup_map (nodup_targets h) hd hc htarget
    rcases hreached with hchanged | hscheduled
    · left
      rcases List.mem_cons.1 hchanged with rfl | hover
      · exact ⟨name, hname, Path.overlaps_self _⟩
      · exact ⟨name, hname, (CompiledForm.mem_overlapping_iff.1 hover).2⟩
    · exact .inr ⟨name, hname, hscheduled⟩
  · rintro (⟨name, hname, hover⟩ | ⟨name, hname, hscheduled⟩)
    · rw [Path.overlaps_comm] at hover
      exact CompiledForm.target_mem_scheduled hc hname (.inl hover)
    · exact CompiledForm.target_mem_scheduled hc hname (.inr hscheduled)

/-- The schedule is closed under overlap exactly where each field that is computed from a part of a
scheduled target, or from an object around it, is scheduled for another dependency: in particular
where targets and dependencies overlap only if they are equal. -/
theorem closedUnderOverlap_iff (path : String) :
    (compiled.ClosedUnderOverlap path ↔
      ∀ c ∈ compiled.calculations, ∀ d ∈ compiled.calculations,
        d.target ∈ compiled.scheduled path → c.DependsStrictlyAround d.target →
          c.DependsAround path ∨
            ∃ name ∈ c.declaration.dependsOn, name ∈ compiled.scheduled path) ∧
    ((∀ c ∈ form.calculations, ∀ d ∈ form.calculations, ∀ name ∈ c.dependsOn,
      (Path.ofString name).strictlyOverlaps (.ofString d.target) = false) →
        compiled.ClosedUnderOverlap path) := by
  have hiff : compiled.ClosedUnderOverlap path ↔
      ∀ c ∈ compiled.calculations, ∀ d ∈ compiled.calculations,
        d.target ∈ compiled.scheduled path → c.DependsStrictlyAround d.target →
          c.DependsAround path ∨
            ∃ name ∈ c.declaration.dependsOn, name ∈ compiled.scheduled path := by
    constructor
    · intro hclosed c hc d hd hscheduled hstrict
      have haround := CompiledCalculation.dependsAround_iff.2 (.inr hstrict)
      exact (target_mem_scheduled_iff h hc).1 (hclosed c hc d hd hscheduled haround)
    · intro hother c hc d hd hscheduled haround
      rcases CompiledCalculation.dependsAround_iff.1 haround with hname | hstrict
      · exact CompiledForm.target_mem_scheduled hc hname (.inr hscheduled)
      · exact (target_mem_scheduled_iff h hc).2 (hother c hc d hd hscheduled hstrict)
  refine ⟨hiff, fun hapart => hiff.2 ?_⟩
  rintro c hc d hd - ⟨name, hname, hover⟩
  have hnot := hapart _ (declaration_mem h hc) _ (declaration_mem h hd) name hname
  exact absurd (hover.symm.trans hnot) nofun

omit h

theorem closedUnderOverlap_bill :
    billForm.compile = .ok billCompiled ∧
      (∀ c ∈ billForm.calculations, ∀ d ∈ billForm.calculations, ∀ name ∈ c.dependsOn,
        (Path.ofString name).strictlyOverlaps (.ofString d.target) = false) ∧
      billCompiled.ClosedUnderOverlap "item" := by
  have hapart : ∀ c ∈ billForm.calculations, ∀ d ∈ billForm.calculations, ∀ name ∈ c.dependsOn,
      (Path.ofString name).strictlyOverlaps (.ofString d.target) = false := by decide
  exact ⟨compile_billForm, hapart, (closedUnderOverlap_iff compile_billForm "item").2 hapart⟩

def zoneForm : Form :=
  ⟨[], [⟨"address", ["customer"], "customer"⟩, ⟨"zone", ["address.zip"], "address.zip / 1000"⟩]⟩

def zoneCompiled : CompiledForm := ⟨[], zoneForm.calculations.map Calculation.compile⟩

theorem compile_zoneForm : zoneForm.compile = .ok zoneCompiled := by cbv

def newCustomer : Snapshot := ⟨[("customer", .object [("zip", .int 4000)])]⟩

theorem not_closedUnderOverlap_zone :
    zoneForm.compile = .ok zoneCompiled ∧ ¬ zoneCompiled.ClosedUnderOverlap "customer" ∧
      (zoneCompiled.recomputeAffected "customer" newCustomer).map Write.target = ["address"] ∧
      (zoneCompiled.recompute newCustomer).map Write.target = ["address", "zone"] := by
  refine ⟨compile_zoneForm, fun hclosed => ?_, by decide +kernel, rfl⟩
  have haddress : (zoneCompiled.scheduled "customer").contains "address" = true := by
    decide +kernel
  have hzone : (zoneCompiled.scheduled "customer").contains "zone" = false := by decide +kernel
  have hmem := hclosed _ (List.mem_cons_of_mem _ (List.mem_cons_self ..)) _ (List.mem_cons_self ..)
    (NameSet.contains_iff.1 haddress) ⟨"address.zip", List.mem_singleton_self _, by decide⟩
  exact absurd (hzone.symm.trans (NameSet.contains_iff.2 hmem)) nofun

end Form

end FormLogic
