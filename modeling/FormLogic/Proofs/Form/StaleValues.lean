import FormLogic.Proofs.Form.Confluence
import FormLogic.Proofs.Form.Restriction
import FormLogic.Proofs.Formula.Alike

/-! Old values of calculated fields. A pass keeps an old value that agrees with the new one, also if
it is the same number in the other form. Only through such a number can what a pass settles on depend
on more than the inputs: two passes over the same inputs agree on every field that is computed from
no field at which their numbers differ in form. -/

namespace FormLogic

namespace CompiledForm

/-- The watched targets at which two passes settle on numbers of different forms. -/
def differing (form : CompiledForm) (s t : Snapshot) : List String :=
  form.order.filter fun name => form.watched.contains name &&
    ((form.settled s).get? name).any fun v => ((form.settled t).get? name).any v.formsDiffer

/-- The pass over `t` settles a target, and on a value that agrees with the one that the pass over
`s` settles on. -/
def AgreeAt (form : CompiledForm) (s t : Snapshot) (target : String) : Prop :=
  target ∉ (form.report t).failures.map Failure.target ∧
    ∃ v w, (form.settled s).get? target = some v ∧ (form.settled t).get? target = some w ∧
      (v.hasNaN = false → v.agrees w = true)

variable {form : CompiledForm} {s t : Snapshot} {name : String}

theorem mem_order_iff : name ∈ form.order ↔ ∃ c ∈ form.calculations, c.target = name := by
  simp [order, declarations, CompiledCalculation.target]

theorem formsDiffer_of_not_mem_differing {c : CompiledCalculation} {v w : Value}
    (hc : c ∈ form.calculations) (hname : name ∈ c.declaration.dependsOn)
    (htarget : name ∈ form.order) (hv : (form.settled s).get? name = some v)
    (hw : (form.settled t).get? name = some w) (h : name ∉ form.differing s t) :
    v.formsDiffer w = false := by
  by_contra hdiffer
  have hwatched : form.watched.contains name = true :=
    NameSet.contains_iff.2 (mem_watched_iff.2 ⟨c, hc, hname⟩)
  refine h (List.mem_filter.2 ⟨htarget, ?_⟩)
  rw [hwatched, hv, hw]
  simpa using hdiffer

end CompiledForm

namespace Form

open CompiledCalculation

section

variable {form : Form} {compiled : CompiledForm} (h : form.compile = .ok compiled)
  (hsep : form.Separated)
include h hsep

theorem eval_settled_cases (s : Snapshot) {c : CompiledCalculation}
    (hc : c ∈ compiled.calculations) :
    (∃ e, c.eval (compiled.settled s) = .error e ∧
      ⟨c.target, e⟩ ∈ (compiled.report s).failures) ∨
    (∃ u v, c.eval (compiled.settled s) = .ok u ∧
      (compiled.settled s).get? c.target = some v ∧ v.SameOrAgrees u ∧
      c.target ∉ (compiled.report s).failures.map Failure.target) := by
  obtain ⟨before, after, hsplit⟩ := List.append_of_mem hc
  have hfailures : ∀ f, f ∈ (compiled.report s).failures ∧ f.target = c.target ↔
      f ∈ (pass [c] (settle before s)).failures := by
    intro f
    rw [← only_report_of_split h s hsplit, Report.mem_failures_only]
  have hnone : (pass [c] (settle before s)).failures = [] →
      c.target ∉ (compiled.report s).failures.map Failure.target := by
    intro hpass hmem
    obtain ⟨f, hf, htarget⟩ := List.mem_map.1 hmem
    have hmine := (hfailures f).1 ⟨hf, htarget⟩
    rw [hpass] at hmine
    exact absurd hmine List.not_mem_nil
  rw [settled_of_split s hsplit]
  rcases settle_cases (compile_declaration h hc) (undisturbed_of_separated h hsep hsplit)
    (settle before s) with ⟨e, heval, _, hpass⟩ | ⟨u, heval, hcurrent, hpass⟩ |
    ⟨u, heval, hget, hpass⟩
  · have hmine := (hfailures ⟨c.target, e⟩).2 (by simp [hpass])
    exact .inl ⟨e, heval, hmine.1⟩
  · obtain ⟨v, hget, hagrees⟩ := (Option.any_eq_true ..).1 hcurrent
    exact .inr ⟨u, v, heval, hget, .inr hagrees, hnone (by simp [hpass])⟩
  · exact .inr ⟨u, u, heval, hget, .inl rfl, hnone (by simp [hpass])⟩

variable {s t : Snapshot}

theorem sameOrAgrees_of_sameOutcome {c : CompiledCalculation} (hc : c ∈ compiled.calculations)
    (hclean : (compiled.report s).failures = [])
    (houtcome : Formula.SameOutcome (c.eval (compiled.settled s)) (c.eval (compiled.settled t))) :
    c.target ∉ (compiled.report t).failures.map Failure.target ∧
      ∃ v w, (compiled.settled s).get? c.target = some v ∧
        (compiled.settled t).get? c.target = some w ∧ v.SameOrAgrees w := by
  rcases eval_settled_cases h hsep s hc with ⟨e, _, hfailure⟩ | ⟨u, v, hu, hv, hvu, _⟩
  · rw [hclean] at hfailure
    exact absurd hfailure List.not_mem_nil
  · rw [hu] at houtcome
    rcases eval_settled_cases h hsep t hc with ⟨e, he, _⟩ | ⟨u', w, hu', hw, hwu, hnone⟩
    · rw [he] at houtcome
      exact absurd houtcome nofun
    · rw [hu'] at houtcome
      have huu : u.SameOrAgrees u' := by
        cases houtcome with
        | value alike => exact alike.sameOrAgrees
      exact ⟨hnone, v, w, hv, hw, (hvu.trans huu).trans hwu.symm⟩

variable (hinputs : ∀ name ∈ compiled.watched, name ∉ compiled.order → s.get? name = t.get? name)
  (hclean : (compiled.report s).failures = [])
include hinputs hclean

theorem sameOrAgrees_settled : ∀ c ∈ compiled.calculations,
    c.target ∉ Calculation.reached compiled.declarations (compiled.differing s t) →
      c.target ∉ (compiled.report t).failures.map Failure.target ∧
        ∃ v w, (compiled.settled s).get? c.target = some v ∧
          (compiled.settled t).get? c.target = some w ∧ v.SameOrAgrees w := by
  refine calculations_induction h fun c hc ih hreached => ?_
  have hdeclared : c.declaration ∈ compiled.declarations := List.mem_map_of_mem hc
  -- whatever the formula reads is alike in both settled snapshots
  have halike : ∀ name ∈ c.declaration.dependsOn,
      (((compiled.settled s).get? name).getD .null).Alike
        (((compiled.settled t).get? name).getD .null) := by
    intro name hname
    have hsame : name ∉ compiled.differing s t := fun hmem =>
      hreached (Calculation.target_mem_reached hdeclared hname (.inl hmem))
    by_cases htarget : ∃ d ∈ compiled.calculations, d.target = name
    · obtain ⟨d, hd, rfl⟩ := htarget
      have hunreached : d.target ∉
          Calculation.reached compiled.declarations (compiled.differing s t) := fun hmem =>
        hreached (Calculation.target_mem_reached hdeclared hname (.inr hmem))
      obtain ⟨_, v, w, hv, hw, hvw⟩ := ih d hd hname hunreached
      have hforms := CompiledForm.formsDiffer_of_not_mem_differing hc hname
        (CompiledForm.mem_order_iff.2 ⟨d, hd, rfl⟩) hv hw hsame
      rw [hv, hw]
      exact hvw.alike hforms
    · have hinput : ∀ d ∈ compiled.calculations, d.target ≠ name := by simpa using htarget
      have hwatched := CompiledForm.mem_watched_iff.2 ⟨c, hc, hname⟩
      have hget := hinputs name hwatched fun hmem => htarget (CompiledForm.mem_order_iff.1 hmem)
      rw [get?_settled_of_input h hsep s hc hname hinput,
        get?_settled_of_input h hsep t hc hname hinput, hget]
      exact .same _
  have houtcome := c.declaration.sameOutcome_eval_compile halike
  rw [compile_declaration h hc] at houtcome
  exact sameOrAgrees_of_sameOutcome h hsep hc hclean houtcome

theorem agreeAt_of_not_reached {c : Calculation} (hc : c ∈ form.calculations)
    (hreached : c.target ∉
      Calculation.reached compiled.declarations (compiled.differing s t)) :
    compiled.AgreeAt s t c.target := by
  have hmem : c.compile ∈ compiled.calculations := (mem_calculations_iff h).2 ⟨c, hc, rfl⟩
  obtain ⟨hnone, v, w, hv, hw, hvw⟩ :=
    sameOrAgrees_settled h hsep hinputs hclean c.compile hmem hreached
  exact ⟨hnone, v, w, hv, hw, hvw.agrees⟩

end

/-- Two passes over the same inputs, the first one clean, settle each calculated field on values
that agree, unless it depends on one at which they settle on numbers of different forms. -/
theorem agreeAt_of_inputs {form : Form} {compiled : CompiledForm} (h : form.compile = .ok compiled)
    (hsep : form.Separated) {s t : Snapshot}
    (hinputs : ∀ name ∈ compiled.watched, name ∉ compiled.order → s.get? name = t.get? name)
    (hclean : (compiled.report s).failures = []) :
    (∀ c ∈ form.calculations,
      c.target ∉ Calculation.reached compiled.declarations (compiled.differing s t) →
        compiled.AgreeAt s t c.target) ∧
    (compiled.differing s t = [] →
      (compiled.report t).failures = [] ∧
        ∀ c ∈ form.calculations, compiled.AgreeAt s t c.target) := by
  have hall : compiled.differing s t = [] → ∀ c ∈ form.calculations,
      compiled.AgreeAt s t c.target := by
    intro hsame c hc
    refine agreeAt_of_not_reached h hsep hinputs hclean hc ?_
    rw [hsame]
    exact Calculation.not_mem_reached_nil
  refine ⟨fun c hc => agreeAt_of_not_reached h hsep hinputs hclean hc, fun hsame => ?_⟩
  refine ⟨List.eq_nil_iff_forall_not_mem.2 fun f hf => ?_, hall hsame⟩
  obtain ⟨c, hc, htarget⟩ := List.mem_map.1 (target_mem_of_mem_failures hf)
  have hagree := hall hsame c.declaration (declaration_mem h hc)
  have hfailed : c.target ∈ (compiled.report t).failures.map Failure.target := by
    rw [htarget]
    exact List.mem_map_of_mem hf
  exact hagree.1 hfailed

def countForm : Form :=
  ⟨[], [⟨"copy", ["count"], "count"⟩, ⟨"next", ["copy"], "copy + 1"⟩,
    ⟨"twice", ["copy"], "copy * 2"⟩]⟩

def countCompiled : CompiledForm := ⟨[], countForm.calculations.map Calculation.compile⟩

theorem compile_countForm : countForm.compile = .ok countCompiled := by cbv

theorem inputs_countForm {s t : Snapshot} (h : s.get? "count" = t.get? "count") :
    ∀ name ∈ countCompiled.watched, name ∉ countCompiled.order → s.get? name = t.get? name := by
  have hwatched : countCompiled.watched = .ofList ["count", "copy", "copy"] := rfl
  intro name hname hinput
  rw [hwatched, NameSet.mem_ofList] at hname
  rcases List.mem_cons.1 hname with rfl | hcopy
  · exact h
  · obtain rfl : name = "copy" := by simpa using hcopy
    exact absurd (by decide) hinput

theorem agreeAt_smallCount :
    countForm.compile = .ok countCompiled ∧ countForm.Separated ∧
      ∀ c ∈ countForm.calculations, countCompiled.AgreeAt
        ⟨[("count", .int 2), ("next", .float (.ofInt 3)), ("twice", .int 5)]⟩
        ⟨[("count", .int 2)]⟩ c.target := by
  have hsep : countForm.Separated := by decide
  have hagree := agreeAt_of_inputs compile_countForm hsep (t := ⟨[("count", .int 2)]⟩)
    (s := ⟨[("count", .int 2), ("next", .float (.ofInt 3)), ("twice", .int 5)]⟩)
    (inputs_countForm rfl) (List.isEmpty_iff.1 (by decide +kernel))
  exact ⟨compile_countForm, hsep, (hagree.2 (List.isEmpty_iff.1 (by decide +kernel))).2⟩

/-- The whole number `2 ^ 62`. -/
def largeCount : Snapshot := ⟨[("count", .int 4611686018427387904)]⟩

def largeCountWithCopy : Snapshot :=
  largeCount.insert "copy" (.float (.ofInt 4611686018427387904))

theorem settled_largeCount :
    countForm.compile = .ok countCompiled ∧ countForm.Separated ∧
      (∀ name ∈ countCompiled.watched, name ∉ countCompiled.order →
        largeCountWithCopy.get? name = largeCount.get? name) ∧
      (countCompiled.report largeCountWithCopy).failures = [] ∧
      (countCompiled.report largeCount).failures ≠ [] ∧
      ∃ v w, (countCompiled.settled largeCountWithCopy).get? "next" = some v ∧
        (countCompiled.settled largeCount).get? "next" = some w ∧ v.agrees w = false := by
  have hclean : (countCompiled.report largeCountWithCopy).failures.isEmpty = true := by
    decide +kernel
  have hfailed : (countCompiled.report largeCount).failures.isEmpty = false := by decide +kernel
  have hvalues : ((countCompiled.settled largeCountWithCopy).get? "next").any (fun v =>
      ((countCompiled.settled largeCount).get? "next").any fun w => !v.agrees w) = true := by
    decide +kernel
  obtain ⟨v, hv, hother⟩ := (Option.any_eq_true ..).1 hvalues
  obtain ⟨w, hw, hagrees⟩ := (Option.any_eq_true ..).1 hother
  refine ⟨compile_countForm, by decide, inputs_countForm rfl, List.isEmpty_iff.1 hclean, ?_,
    v, w, hv, hw, by simpa using hagrees⟩
  exact List.isEmpty_eq_false_iff.1 hfailed

end Form

end FormLogic
