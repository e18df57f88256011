import FormLogic.Proofs.Form.FixedPoint

/-! What a report accounts for, whatever the targets overlap: every calculated field once, in order
of computation, either as a failure, or as a write that changes something, or as a field that has
its value already. Each is as the formula says on the snapshot that the writes before it leave. -/

namespace FormLogic

namespace Report

theorem evaluated_append (r u : Report) : (r ++ u).evaluated = r.evaluated ++ u.evaluated := rfl

theorem failures_append (r u : Report) : (r ++ u).failures = r.failures ++ u.failures := rfl

theorem writes_only_eq_nil_iff {r : Report} {target : String} :
    (r.only target).writes = [] ↔ target ∉ r.writes.map Write.target := by
  simp [only, List.filter_eq_nil_iff]

theorem failures_only_eq_nil_iff {r : Report} {target : String} :
    (r.only target).failures = [] ↔ target ∉ r.failures.map Failure.target := by
  simp [only, List.filter_eq_nil_iff]

def snapshotAfter (r : Report) (fields : List Calculation) (s : Snapshot) : Snapshot :=
  s.applyAll (r.writes.filter fun w => (fields.map Calculation.target).contains w.target)

/-- The report on `s` gives an account of these calculated fields, each as the writes to the fields
before it leave the snapshot. -/
structure AccountsFor (r : Report) (ordered : List Calculation) (s : Snapshot) : Prop where
  evaluated : r.evaluated = ordered.map Calculation.target
  nodup_evaluated : r.evaluated.Nodup
  writes_sublist : (r.writes.map Write.target).Sublist r.evaluated
  failures_sublist : (r.failures.map Failure.target).Sublist r.evaluated
  nodup_outcomes : (r.writes.map Write.target ++ r.failures.map Failure.target).Nodup
  written : ∀ (done : List Write) (w : Write) (rest : List Write), r.writes = done ++ w :: rest →
    (∃ c ∈ ordered, c.target = w.target ∧
      Formula.evalText c.formula c.dependsOn (s.applyAll done) = .ok w.value) ∧
    ∀ v, (s.applyAll done).get? w.target = some v → v.agrees w.value = false
  failed : ∀ (before : List Calculation) (c : Calculation) (after : List Calculation),
    ordered = before ++ c :: after → ∀ f ∈ r.failures, f.target = c.target →
      Formula.evalText c.formula c.dependsOn (r.snapshotAfter before s) = .error f.error
  unchanged : ∀ (before : List Calculation) (c : Calculation) (after : List Calculation),
    ordered = before ++ c :: after → c.target ∉ r.writes.map Write.target →
      c.target ∉ r.failures.map Failure.target →
      ∃ v u, Formula.evalText c.formula c.dependsOn (r.snapshotAfter before s) = .ok v ∧
        (r.snapshotAfter before s).get? c.target = some u ∧ u.agrees v = true

end Report

namespace CompiledCalculation

variable {calculations : List CompiledCalculation} {s : Snapshot}

theorem evaluated_pass (calculations : List CompiledCalculation) (s : Snapshot) :
    (pass calculations s).evaluated = calculations.map target := by
  induction calculations generalizing s with
  | nil => rfl
  | cons c after ih =>
    have hfirst : (pass [c] s).evaluated = [c.target] := by
      rcases pass_cases c s with ⟨e, _, hpass⟩ | ⟨v, _, _, hpass⟩ | ⟨v, _, _, hpass⟩ <;> rw [hpass]
    rw [pass_cons, Report.evaluated_append, hfirst, ih]
    rfl

theorem map_target_failures_sublist (calculations : List CompiledCalculation) (s : Snapshot) :
    ((pass calculations s).failures.map Failure.target).Sublist (calculations.map target) := by
  induction calculations generalizing s with
  | nil => exact .slnil
  | cons c after ih =>
    rw [pass_cons, Report.failures_append, List.map_append]
    have hrest := ih (settle [c] s)
    rcases pass_cases c s with ⟨e, _, hpass⟩ | ⟨v, _, _, hpass⟩ | ⟨v, _, _, hpass⟩
    · simpa [hpass] using hrest.cons_cons c.target
    · simpa [hpass] using hrest.cons c.target
    · simpa [hpass] using hrest.cons c.target

/-- When the fields before it have made the writes `done`, `c` makes the write `w`. -/
structure Makes (c : CompiledCalculation) (before : List CompiledCalculation) (s : Snapshot)
    (done : List Write) (w : Write) : Prop where
  writes_before : (pass before s).writes = done
  target : c.target = w.target
  eval : c.eval (settle before s) = .ok w.value
  changes : c.isCurrent (settle before s) w.value = false

theorem Makes.cons {c d : CompiledCalculation} {before : List CompiledCalculation}
    {made : List Write} {w : Write} (h : d.Makes before (settle [c] s) made w) :
    d.Makes (c :: before) s ((pass [c] s).writes ++ made) w where
  writes_before := by rw [pass_cons, Report.writes_append, h.writes_before]
  target := h.target
  eval := by
    rw [settle_cons]
    exact h.eval
  changes := by
    rw [settle_cons]
    exact h.changes

theorem writes_pass_singleton (c : CompiledCalculation) (s : Snapshot) :
    (pass [c] s).writes = [] ∨ ∃ v, c.eval s = .ok v ∧ c.isCurrent s v = false ∧
      (pass [c] s).writes = [⟨c.target, v, .system⟩] := by
  rcases pass_cases c s with ⟨e, _, hpass⟩ | ⟨v, _, _, hpass⟩ | ⟨v, heval, hcurrent, hpass⟩
  · exact .inl (by rw [hpass])
  · exact .inl (by rw [hpass])
  · exact .inr ⟨v, heval, hcurrent, by rw [hpass]⟩

theorem exists_makes_of_writes {done rest : List Write} {w : Write}
    (h : (pass calculations s).writes = done ++ w :: rest) :
    ∃ before c after, calculations = before ++ c :: after ∧ c.Makes before s done w := by
  induction calculations generalizing s done with
  | nil => exact absurd h (by simp [pass, Report.empty])
  | cons c after ih =>
    rw [pass_cons, Report.writes_append] at h
    rcases writes_pass_singleton c s with hnone | ⟨v, heval, hcurrent, hone⟩
    · rw [hnone] at h
      obtain ⟨before, d, later, rfl, hmakes⟩ := ih h
      exact ⟨c :: before, d, later, rfl, by simpa [hnone] using hmakes.cons⟩
    · rw [hone] at h
      cases done with
      | nil =>
        obtain ⟨rfl, -⟩ := List.cons.inj h
        exact ⟨[], c, after, rfl, rfl, rfl, heval, hcurrent⟩
      | cons first made =>
        obtain ⟨rfl, hmade⟩ := List.cons.inj h
        obtain ⟨before, d, later, rfl, hmakes⟩ := ih hmade
        exact ⟨c :: before, d, later, rfl, by simpa [hone] using hmakes.cons⟩

theorem report_cases {r : Report} {c : CompiledCalculation} (h : r.only c.target = pass [c] s) :
    (∃ e, c.eval s = .error e ∧ c.target ∉ r.writes.map Write.target ∧
      c.target ∈ r.failures.map Failure.target ∧
      ∀ f ∈ r.failures, f.target = c.target → f.error = e) ∨
    (∃ v, c.eval s = .ok v ∧ c.isCurrent s v = true ∧ c.target ∉ r.writes.map Write.target ∧
      c.target ∉ r.failures.map Failure.target) ∨
    (∃ v, c.eval s = .ok v ∧ c.target ∈ r.writes.map Write.target ∧
      c.target ∉ r.failures.map Failure.target) := by
  rcases pass_cases c s with ⟨e, heval, hpass⟩ | ⟨v, heval, hcurrent, hpass⟩ | ⟨v, heval, _, hpass⟩
  · have hfailures : (r.only c.target).failures = [⟨c.target, e⟩] := by rw [h, hpass]
    have hmine : (⟨c.target, e⟩ : Failure) ∈ (r.only c.target).failures := by
      rw [hfailures]
      exact List.mem_singleton_self _
    refine .inl ⟨e, heval, Report.writes_only_eq_nil_iff.1 (by rw [h, hpass]),
      List.mem_map_of_mem (Report.mem_failures_only.1 hmine).1, fun f hf htarget => ?_⟩
    have hmem := Report.mem_failures_only.2 ⟨hf, htarget⟩
    rw [hfailures, List.mem_singleton] at hmem
    rw [hmem]
  · exact .inr (.inl ⟨v, heval, hcurrent, Report.writes_only_eq_nil_iff.1 (by rw [h, hpass]),
      Report.failures_only_eq_nil_iff.1 (by rw [h, hpass])⟩)
  · have hmine : (⟨c.target, v, .system⟩ : Write) ∈ (r.only c.target).writes := by
      rw [h, hpass]
      exact List.mem_singleton_self _
    exact .inr (.inr ⟨v, heval, List.mem_map_of_mem (Report.mem_writes_only.1 hmine).1,
      Report.failures_only_eq_nil_iff.1 (by rw [h, hpass])⟩)

end CompiledCalculation

namespace Form

open CompiledCalculation

section

variable {compiled : CompiledForm} {ordered : List Calculation}
  (hordered : compiled.calculations = ordered.map Calculation.compile) (s : Snapshot)
include hordered

theorem eval_of_written {done rest : List Write} {w : Write}
    (hw : (compiled.report s).writes = done ++ w :: rest) :
    (∃ c ∈ ordered, c.target = w.target ∧
      Formula.evalText c.formula c.dependsOn (s.applyAll done) = .ok w.value) ∧
    ∀ v, (s.applyAll done).get? w.target = some v → v.agrees w.value = false := by
  obtain ⟨before, c, after, hsplit, rfl, htarget, heval, hcurrent⟩ := exists_makes_of_writes hw
  have hc : c ∈ ordered.map Calculation.compile :=
    hordered ▸ hsplit ▸ List.mem_append_cons_self
  obtain ⟨d, hd, rfl⟩ := List.mem_map.1 hc
  refine ⟨⟨d, hd, htarget, (d.eval_compile _).symm.trans heval⟩, fun v hv => ?_⟩
  rw [isCurrent, htarget] at hcurrent
  simpa [settle, hv] using hcurrent

variable {form : Form} (h : form.compile = .ok compiled)
include h

omit hordered in
theorem nodup_outcomes : ((compiled.report s).writes.map Write.target ++
    (compiled.report s).failures.map Failure.target).Nodup := by
  have hnodup := nodup_targets h
  refine List.nodup_append.2 ⟨hnodup.sublist (map_target_writes_sublist _ s),
    hnodup.sublist (map_target_failures_sublist _ s), ?_⟩
  rintro target hwritten _ hfailed rfl
  have htarget := (map_target_writes_sublist _ s).subset hwritten
  obtain ⟨c, hc, rfl⟩ := List.mem_map.1 htarget
  obtain ⟨before, after, hsplit⟩ := List.append_of_mem hc
  rcases report_cases (only_report_of_split h s hsplit) with ⟨e, _, hunwritten, _⟩ |
    ⟨v, _, _, hunwritten, _⟩ | ⟨v, _, _, hclean⟩
  · exact hunwritten hwritten
  · exact hunwritten hwritten
  · exact hclean hfailed

variable {before after : List Calculation} {c : Calculation} (hsplit : ordered = before ++ c :: after)
include hsplit

theorem snapshotAfter_of_split :
    (compiled.report s).snapshotAfter before s = settle (before.map Calculation.compile) s := by
  have hcompiled : compiled.calculations =
      before.map Calculation.compile ++ (c :: after).map Calculation.compile := by
    rw [hordered, hsplit, List.map_append]
  have hnodup := nodup_targets h
  rw [hcompiled, List.map_append, List.nodup_append, List.map_map, List.map_map] at hnodup
  have hbefore : ∀ w ∈ (pass (before.map Calculation.compile) s).writes,
      (before.map Calculation.target).contains w.target = true := by
    intro w hw
    have hmem := target_mem_of_mem_writes hw
    rw [List.map_map] at hmem
    exact List.contains_iff_mem.2 hmem
  have hafter : ∀ w ∈ (pass ((c :: after).map Calculation.compile)
      (settle (before.map Calculation.compile) s)).writes,
      ¬ (before.map Calculation.target).contains w.target = true := by
    intro w hw hcontains
    have hmem := target_mem_of_mem_writes hw
    rw [List.map_map] at hmem
    exact hnodup.2.2 _ (List.contains_iff_mem.1 hcontains) _ hmem rfl
  rw [Report.snapshotAfter, CompiledForm.report, hcompiled, pass_append, Report.writes_append,
    List.filter_append, List.filter_eq_self.2 hbefore, List.filter_eq_nil_iff.2 hafter,
    List.append_nil]
  rfl

theorem only_report_eq_pass : (compiled.report s).only c.target =
    pass [c.compile] ((compiled.report s).snapshotAfter before s) := by
  have hcompiled : compiled.calculations =
      before.map Calculation.compile ++ c.compile :: after.map Calculation.compile := by
    rw [hordered, hsplit, List.map_append, List.map_cons]
  rw [snapshotAfter_of_split hordered s h hsplit]
  exact only_report_of_split h s hcompiled

theorem eval_of_failed {f : Failure} (hf : f ∈ (compiled.report s).failures)
    (htarget : f.target = c.target) :
    Formula.evalText c.formula c.dependsOn ((compiled.report s).snapshotAfter before s) =
      .error f.error := by
  have hfailed : c.target ∈ (compiled.report s).failures.map Failure.target :=
    htarget ▸ List.mem_map_of_mem hf
  rw [← Calculation.eval_compile]
  rcases report_cases (c := c.compile) (only_report_eq_pass hordered s h hsplit) with
    ⟨e, heval, _, _, herror⟩ | ⟨v, _, _, _, hclean⟩ | ⟨v, _, _, hclean⟩
  · rw [heval, herror f hf htarget]
  · exact absurd hfailed hclean
  · exact absurd hfailed hclean

theorem eval_of_unchanged (hunwritten : c.target ∉ (compiled.report s).writes.map Write.target)
    (hclean : c.target ∉ (compiled.report s).failures.map Failure.target) :
    ∃ v u, Formula.evalText c.formula c.dependsOn ((compiled.report s).snapshotAfter before s) =
        .ok v ∧
      ((compiled.report s).snapshotAfter before s).get? c.target = some u ∧ u.agrees v = true := by
  rw [← Calculation.eval_compile]
  rcases report_cases (c := c.compile) (only_report_eq_pass hordered s h hsplit) with
    ⟨e, _, _, hfailed, _⟩ | ⟨v, heval, hcurrent, _⟩ | ⟨v, _, hwritten, _⟩
  · exact absurd hfailed hclean
  · obtain ⟨u, hu, hagrees⟩ := (Option.any_eq_true ..).1 hcurrent
    exact ⟨v, u, heval, hu, hagrees⟩
  · exact absurd hwritten hunwritten

end

/-- A full pass gives an account of all calculated fields in the order of their computation. -/
theorem exists_order_accountsFor {form : Form} {compiled : CompiledForm}
    (h : form.compile = .ok compiled) (s : Snapshot) :
    ∃ ordered, Calculation.order form.calculations = .ok ordered ∧
      (compiled.report s).AccountsFor ordered s := by
  obtain ⟨_, _, fields, ordered, _, horder, hcompiled⟩ := compile_eq_ok_iff.1 h
  have hordered : compiled.calculations = ordered.map Calculation.compile :=
    congrArg CompiledForm.calculations hcompiled
  have hevaluated : (compiled.report s).evaluated =
      compiled.calculations.map CompiledCalculation.target := evaluated_pass _ s
  refine ⟨ordered, horder, ?_⟩
  constructor
  case evaluated =>
    rw [hevaluated, hordered, List.map_map]
    rfl
  case nodup_evaluated => exact hevaluated ▸ nodup_targets h
  case writes_sublist => exact hevaluated ▸ map_target_writes_sublist _ s
  case failures_sublist => exact hevaluated ▸ map_target_failures_sublist _ s
  case nodup_outcomes => exact nodup_outcomes s h
  case written => exact fun _ _ _ => eval_of_written hordered s
  case failed => exact fun _ _ _ hsplit _ => eval_of_failed hordered s h hsplit
  case unchanged => exact fun _ _ _ => eval_of_unchanged hordered s h

theorem accountsFor_staleBill :
    billForm.compile = .ok billCompiled ∧
      (billCompiled.report staleBill).failures.map Failure.target = ["net"] ∧
      (billCompiled.report staleBill).writes.map Write.target = ["tax", "total"] ∧
      (billCompiled.report staleBill).AccountsFor billForm.calculations.reverse staleBill := by
  obtain ⟨ordered, horder, haccount⟩ := exists_order_accountsFor compile_billForm staleBill
  have horder' : Calculation.order billForm.calculations =
      .ok billForm.calculations.reverse := by cbv
  obtain rfl := Except.ok.inj (horder.symm.trans horder')
  exact ⟨compile_billForm, by decide +kernel, by decide +kernel, haccount⟩

end Form

end FormLogic
