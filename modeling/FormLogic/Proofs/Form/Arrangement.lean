import FormLogic.Form.Pass
import FormLogic.Proofs.Calculation.Order
import FormLogic.Proofs.Path.Overlap
import Mathlib.Data.List.Induction

/-! How the calculated fields of a form that has been made ready lie to one another. Where no target
lies strictly above or below another target or a dependency, nothing that is computed later touches
what a field has been computed from. -/

namespace FormLogic

theorem firstRepeat?_eq_none_iff {seen names : List String} :
    firstRepeat? seen names = none ↔ names.Nodup ∧ ∀ name ∈ names, name ∉ seen := by
  induction names generalizing seen with
  | nil => simp [firstRepeat?]
  | cons name names ih =>
    rw [firstRepeat?, List.nodup_cons, List.forall_mem_cons]
    split
    · next hseen => simpa using fun _ _ hnew => absurd (by simpa using hseen) hnew
    · next hseen =>
      rw [ih]
      grind

namespace Form

variable {form : Form} {compiled : CompiledForm}

theorem firstRepeat?_nil_eq_none_iff {names : List String} :
    firstRepeat? [] names = none ↔ names.Nodup := by
  simp [firstRepeat?_eq_none_iff]

theorem compile_eq_ok_iff : form.compile = .ok compiled ↔
    (form.fields.map Field.path).Nodup ∧ (form.calculations.map Calculation.target).Nodup ∧
      ∃ fields ordered, form.fields.mapM Field.compile = .ok fields ∧
        Calculation.order form.calculations = .ok ordered ∧
        compiled = ⟨fields, ordered.map Calculation.compile⟩ := by
  rw [← firstRepeat?_nil_eq_none_iff, ← firstRepeat?_nil_eq_none_iff, compile]
  cases firstRepeat? [] (form.fields.map Field.path) with
  | some path => simp
  | none =>
    cases firstRepeat? [] (form.calculations.map Calculation.target) with
    | some target => simp
    | none =>
      cases form.fields.mapM Field.compile with
      | error e => simp
      | ok fields =>
        cases Calculation.order form.calculations with
        | error cycle => simp
        | ok ordered => simp [eq_comm]

/-- No target lies strictly above or below another target or a declared dependency. -/
def Separated (form : Form) : Prop :=
  ∀ c ∈ form.calculations, ∀ d ∈ form.calculations, ∀ name ∈ d.target :: d.dependsOn,
    (Path.ofString c.target).strictlyOverlaps (.ofString name) = false

instance (form : Form) : Decidable form.Separated :=
  inferInstanceAs (Decidable (∀ c ∈ form.calculations, ∀ d ∈ form.calculations,
    ∀ name ∈ d.target :: d.dependsOn,
      (Path.ofString c.target).strictlyOverlaps (.ofString name) = false))

end Form

/-- Neither `c` itself nor what is computed after it writes on, above or below a dependency of `c`,
and what is computed after it does not write on, above or below its target. -/
structure CompiledCalculation.UndisturbedBy (c : CompiledCalculation)
    (after : List CompiledCalculation) : Prop where
  dependencies : ∀ d ∈ c :: after, ∀ name ∈ c.declaration.dependsOn,
    (Path.ofString d.target).overlaps (.ofString name) = false
  target : ∀ d ∈ after, (Path.ofString d.target).overlaps (.ofString c.target) = false

namespace Form

variable {form : Form} {compiled : CompiledForm} (h : form.compile = .ok compiled)
include h

theorem ordered_of_compile : Calculation.Ordered form.calculations compiled.declarations := by
  obtain ⟨_, _, fields, ordered, _, horder, rfl⟩ := compile_eq_ok_iff.1 h
  have hsame : (⟨fields, ordered.map Calculation.compile⟩ : CompiledForm).declarations = ordered := by
    simp [CompiledForm.declarations, Function.comp_def, Calculation.compile]
  rw [hsame]
  exact Calculation.ordered_of_order horder

theorem mem_calculations_iff {c : CompiledCalculation} :
    c ∈ compiled.calculations ↔ ∃ d ∈ form.calculations, d.compile = c := by
  obtain ⟨_, hnodup, fields, ordered, _, horder, rfl⟩ := compile_eq_ok_iff.1 h
  simp only [List.mem_map, Calculation.mem_order_iff hnodup horder]

theorem compile_declaration {c : CompiledCalculation} (hc : c ∈ compiled.calculations) :
    c.declaration.compile = c := by
  obtain ⟨d, _, rfl⟩ := (mem_calculations_iff h).1 hc
  rfl

theorem declaration_mem {c : CompiledCalculation} (hc : c ∈ compiled.calculations) :
    c.declaration ∈ form.calculations := by
  obtain ⟨d, hd, rfl⟩ := (mem_calculations_iff h).1 hc
  exact hd

theorem nodup_targets : (compiled.calculations.map CompiledCalculation.target).Nodup := by
  have hnodup := (ordered_of_compile h).nodup
  rw [CompiledForm.declarations, List.map_map] at hnodup
  exact hnodup

theorem target_ne_of_split {before after : List CompiledCalculation} {c d : CompiledCalculation}
    (hsplit : compiled.calculations = before ++ c :: after) (hd : d ∈ before ∨ d ∈ after) :
    d.target ≠ c.target := by
  have hnodup := nodup_targets h
  rw [hsplit, List.map_append, List.map_cons, List.nodup_append] at hnodup
  obtain ⟨_, hafter, hbefore⟩ := hnodup
  rcases hd with hd | hd
  · exact hbefore _ (List.mem_map_of_mem hd) _ (List.mem_cons_self ..)
  · exact fun heq => (List.nodup_cons.1 hafter).1 (heq ▸ List.mem_map_of_mem hd)

theorem mem_before_of_dependsOn {before after : List CompiledCalculation}
    {c d : CompiledCalculation} (hsplit : compiled.calculations = before ++ c :: after)
    (hd : d ∈ compiled.calculations) (hdepends : d.target ∈ c.declaration.dependsOn) :
    d ∈ before := by
  have hordered := ordered_of_compile h
  have hsplit' : compiled.declarations = before.map CompiledCalculation.declaration ++
      c.declaration :: after.map CompiledCalculation.declaration := by
    rw [CompiledForm.declarations, hsplit, List.map_append, List.map_cons]
  have hbefore := hordered.closed _ _ _ hsplit' d.target hdepends
    (List.mem_map_of_mem (declaration_mem h hd))
  rw [List.map_map] at hbefore
  obtain ⟨e, he, htarget⟩ := List.mem_map.1 hbefore
  have hmem : e ∈ compiled.calculations := hsplit ▸ List.mem_append_left _ he
  exact List.inj_on_of_nodup_map (nodup_targets h) hmem hd htarget ▸ he

theorem calculations_induction {motive : CompiledCalculation → Prop}
    (step : ∀ c ∈ compiled.calculations,
      (∀ d ∈ compiled.calculations, d.target ∈ c.declaration.dependsOn → motive d) → motive c) :
    ∀ c ∈ compiled.calculations, motive c := by
  have hprefix : ∀ before after, compiled.calculations = before ++ after →
      ∀ c ∈ before, motive c := by
    intro before
    induction before using List.reverseRecOn with
    | nil => exact fun _ _ _ => nofun
    | append_singleton before c ih =>
      intro after hsplit
      have hsplit' : compiled.calculations = before ++ c :: after := by simpa using hsplit
      have hbefore := ih (c :: after) hsplit'
      refine List.forall_mem_append.2 ⟨hbefore, List.forall_mem_singleton.2 ?_⟩
      refine step c (hsplit' ▸ List.mem_append_cons_self) fun d hd hdepends => ?_
      exact hbefore d (mem_before_of_dependsOn h hsplit' hd hdepends)
  exact hprefix compiled.calculations [] (List.append_nil _).symm

variable (hsep : form.Separated)
include hsep

theorem overlaps_of_separated {c d : CompiledCalculation} (hc : c ∈ compiled.calculations)
    (hd : d ∈ compiled.calculations) {name : String}
    (hname : name ∈ c.target :: c.declaration.dependsOn) (hne : d.target ≠ name) :
    (Path.ofString d.target).overlaps (.ofString name) = false :=
  Path.overlaps_ofString_of_ne hne
    (hsep _ (declaration_mem h hd) _ (declaration_mem h hc) name hname)

theorem pairwise_apart_targets : (compiled.calculations.map CompiledCalculation.target).Pairwise
    fun a b => (Path.ofString a).overlaps (.ofString b) = false := by
  have hdistinct := List.pairwise_map.1 (nodup_targets h)
  refine List.pairwise_map.2 (hdistinct.imp_of_mem fun hc hd hne => ?_)
  exact overlaps_of_separated h hsep hd hc (List.mem_cons_self ..) hne

theorem undisturbed_of_separated {before after : List CompiledCalculation} {c : CompiledCalculation}
    (hsplit : compiled.calculations = before ++ c :: after) : c.UndisturbedBy after := by
  have hmem : ∀ d ∈ c :: after, d ∈ compiled.calculations := fun d hd =>
    hsplit ▸ List.mem_append_right before hd
  have hc := hmem c (List.mem_cons_self ..)
  constructor
  · intro d hd name hname
    have hordered := ordered_of_compile h
    rw [CompiledForm.declarations, hsplit, List.map_append, List.map_cons] at hordered
    have hnot : d.target ∉ c.declaration.dependsOn := hordered.target_not_mem_dependsOn
      (List.mem_map_of_mem (f := CompiledCalculation.declaration) hd)
    exact overlaps_of_separated h hsep hc (hmem d hd) (List.mem_cons_of_mem _ hname)
      fun heq => hnot (heq ▸ hname)
  · intro d hd
    exact overlaps_of_separated h hsep hc (hmem d (List.mem_cons_of_mem _ hd))
      (List.mem_cons_self ..) (target_ne_of_split h hsplit (.inr hd))

end Form

end FormLogic
