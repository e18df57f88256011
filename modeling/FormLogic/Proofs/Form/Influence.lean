import FormLogic.Proofs.Calculation.Closure
import FormLogic.Proofs.Form.Confluence

/-! How far a formula reaches. Another formula for one calculated field, whether it fails, cannot be
read or gives another kind of value, shows in the reports of passes only at that field and at what
is reached from it. -/

namespace FormLogic.Form

/-- The forms are the same but for the formula of the calculated field `x`, which is `formula` in
the second. -/
structure DiffersInFormula (form other : Form) (x : Calculation) (formula : String) : Prop where
  fields : form.fields = other.fields
  calculations : ∃ before after, form.calculations = before ++ x :: after ∧
    other.calculations = before ++ { x with formula } :: after

namespace DiffersInFormula

variable {form other : Form} {x c : Calculation} {formula : String}
  (hdiffers : form.DiffersInFormula other x formula)
include hdiffers

theorem mem_of_ne (hc : c ∈ form.calculations) (hne : c ≠ x) : c ∈ other.calculations := by
  obtain ⟨before, after, hform, hother⟩ := hdiffers.calculations
  rw [hform, List.mem_append, List.mem_cons] at hc
  rw [hother, List.mem_append, List.mem_cons]
  exact hc.imp_right fun hc => .inr (hc.resolve_left hne)

theorem exists_of_mem (hc : c ∈ other.calculations) :
    ∃ d ∈ form.calculations, d.target = c.target ∧ d.dependsOn = c.dependsOn := by
  obtain ⟨before, after, hform, hother⟩ := hdiffers.calculations
  rw [hother] at hc
  rw [hform]
  rcases List.mem_append.1 hc with hbefore | hc
  · exact ⟨c, List.mem_append_left _ hbefore, rfl, rfl⟩
  · rcases List.mem_cons.1 hc with rfl | hafter
    · exact ⟨x, List.mem_append_cons_self, rfl, rfl⟩
    · exact ⟨c, List.mem_append_right _ (List.mem_cons_of_mem _ hafter), rfl, rfl⟩

theorem separated (hsep : form.Separated) : other.Separated := by
  intro c hc d hd name hname
  obtain ⟨c', hc', htarget, -⟩ := hdiffers.exists_of_mem hc
  obtain ⟨d', hd', htarget', hdependsOn⟩ := hdiffers.exists_of_mem hd
  rw [← htarget', ← hdependsOn] at hname
  rw [← htarget]
  exact hsep c' hc' d' hd' name hname

end DiffersInFormula

structure Unreached (form : Form) (x c : Calculation) : Prop where
  ne : c ≠ x
  not_mem_reached : c.target ∉ Calculation.reached form.calculations [x.target]

theorem Unreached.of_dependsOn {form : Form} {x c d : Calculation} (h : form.Unreached x c)
    (hc : c ∈ form.calculations) (hdepends : d.target ∈ c.dependsOn) : form.Unreached x d where
  ne := by
    rintro rfl
    have hchanged : d.target ∈ [d.target] := List.mem_singleton_self _
    exact h.not_mem_reached (Calculation.target_mem_reached hc hdepends (.inl hchanged))
  not_mem_reached := fun hd =>
    h.not_mem_reached (Calculation.target_mem_reached hc hdepends (.inr hd))

/-- A field other than `x` that a change of `x` does not reach fares alike under both formulas of
`x`: it is written with the same value, fails in the same way, or is left alone. -/
theorem only_report_of_differsInFormula {form other : Form} {x : Calculation} {formula : String}
    (hdiffers : form.DiffersInFormula other x formula) {compiled compiled' : CompiledForm}
    (h : form.compile = .ok compiled) (h' : other.compile = .ok compiled') (hsep : form.Separated)
    (s : Snapshot) {c : Calculation} (hc : c ∈ form.calculations) (hne : c ≠ x)
    (hreached : c.target ∉ Calculation.reached form.calculations [x.target]) :
    (compiled.report s).only c.target = (compiled'.report s).only c.target := by
  have hshared : ∀ c, c ∈ compiled.calculations ∧ form.Unreached x c.declaration →
      c ∈ compiled.calculations ∧ c ∈ compiled'.calculations := by
    rintro c ⟨hmem, hunreached⟩
    have hother := hdiffers.mem_of_ne (declaration_mem h hmem) hunreached.ne
    exact ⟨hmem, (mem_calculations_iff h').2 ⟨_, hother, compile_declaration h hmem⟩⟩
  have hmem : c.compile ∈ compiled.calculations := (mem_calculations_iff h).2 ⟨c, hc, rfl⟩
  refine (same_outcome_of_shared h h' hsep (hdiffers.separated hsep) s (c := c.compile) hshared ?_
    ⟨hmem, hne, hreached⟩).1
  rintro c ⟨hmem, hunreached⟩ name hname
  by_cases htarget : ∃ d ∈ compiled.calculations, d.target = name
  · obtain ⟨d, hd, rfl⟩ := htarget
    exact .inl ⟨d, ⟨hd, hunreached.of_dependsOn (declaration_mem h hmem) hname⟩, rfl⟩
  · -- both forms have the same targets, so that it is an input of both
    have hinput : ∀ d ∈ compiled.calculations, d.target ≠ name := by simpa using htarget
    refine .inr ⟨hinput, fun d hd hname => ?_⟩
    obtain ⟨e, he, hsame, -⟩ := hdiffers.exists_of_mem (declaration_mem h' hd)
    exact hinput e.compile ((mem_calculations_iff h).2 ⟨e, he, rfl⟩) (hsame.trans hname)

def tripFormUnreadable : Form :=
  ⟨[], [⟨"fares", ["trip.km"], "trip.km *"⟩,
    ⟨"meals", ["trip.days", "rate"], "trip.days * rate"⟩,
    ⟨"total", ["meals", "fares"], "meals + fares"⟩]⟩

def tripCompiledUnreadable : CompiledForm :=
  ⟨[], tripFormUnreadable.calculations.map Calculation.compile⟩

theorem compile_tripFormUnreadable :
    tripFormUnreadable.compile = .ok tripCompiledUnreadable := by cbv

theorem only_report_meals :
    tripForm.DiffersInFormula tripFormUnreadable ⟨"fares", ["trip.km"], "trip.km * 2"⟩ "trip.km *" ∧
      tripForm.compile = .ok tripCompiled ∧
      tripFormUnreadable.compile = .ok tripCompiledUnreadable ∧ tripForm.Separated ∧
      "meals" ∉ Calculation.reached tripForm.calculations ["fares"] ∧
      (∀ s,
        (tripCompiled.report s).only "meals" = (tripCompiledUnreadable.report s).only "meals") ∧
      ((tripCompiledUnreadable.report trip).only "meals").writes.map Write.text =
        ["meals := 6"] := by
  have hdiffers : tripForm.DiffersInFormula tripFormUnreadable
      ⟨"fares", ["trip.km"], "trip.km * 2"⟩ "trip.km *" :=
    ⟨rfl, [], tripForm.calculations.tail, rfl, rfl⟩
  have hsep : tripForm.Separated := by decide
  have hreached : "meals" ∉ Calculation.reached tripForm.calculations ["fares"] := fun hmem =>
    absurd (NameSet.contains_iff.2 hmem) (by decide +kernel)
  refine ⟨hdiffers, compile_tripForm, compile_tripFormUnreadable, hsep, hreached, fun s => ?_,
    by decide +kernel⟩
  exact only_report_of_differsInFormula hdiffers compile_tripForm compile_tripFormUnreadable hsep s
    (c := ⟨"meals", ["trip.days", "rate"], "trip.days * rate"⟩) (by decide) (by decide) hreached

end FormLogic.Form
