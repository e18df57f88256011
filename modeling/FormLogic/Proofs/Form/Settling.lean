import FormLogic.Proofs.Form.Arrangement
import FormLogic.Proofs.Formula.Dependence

/-! What a pass leaves behind. A field that nothing computed later disturbs keeps the value that the
pass has given it, and on the final snapshot its formula still gives what it gave when the field was
computed. A second pass has nothing to write where every field agrees with its formula. -/

namespace FormLogic

namespace Report

instance : Append Report :=
  ⟨fun r u => ⟨r.writes ++ u.writes, r.failures ++ u.failures, r.evaluated ++ u.evaluated⟩⟩

def only (r : Report) (target : String) : Report where
  writes := r.writes.filter (·.target == target)
  failures := r.failures.filter (·.target == target)
  evaluated := r.evaluated.filter (· == target)

variable {r : Report} {target : String}

theorem writes_append (r u : Report) : (r ++ u).writes = r.writes ++ u.writes := rfl

theorem empty_append (r : Report) : empty ++ r = r := rfl

theorem append_empty (r : Report) : r ++ empty = r := by
  show Report.mk (r.writes ++ []) (r.failures ++ []) (r.evaluated ++ []) = r
  simp only [List.append_nil]

theorem only_append (r u : Report) (target : String) :
    (r ++ u).only target = r.only target ++ u.only target := by
  show Report.mk ((r.writes ++ u.writes).filter _) ((r.failures ++ u.failures).filter _)
    ((r.evaluated ++ u.evaluated).filter _) = _
  simp only [List.filter_append]
  rfl

theorem mem_writes_only {w : Write} :
    w ∈ (r.only target).writes ↔ w ∈ r.writes ∧ w.target = target := by simp [only]

theorem mem_failures_only {f : Failure} :
    f ∈ (r.only target).failures ↔ f ∈ r.failures ∧ f.target = target := by simp [only]

end Report

namespace CompiledCalculation

variable {c : CompiledCalculation} {calculations before after : List CompiledCalculation}
  {s t : Snapshot}

def settle (calculations : List CompiledCalculation) (s : Snapshot) : Snapshot :=
  s.applyAll (pass calculations s).writes

/-- The formula has no value, or one that agrees with the present value of the target. -/
def SettledIn (c : CompiledCalculation) (s : Snapshot) : Prop :=
  ∀ v, c.eval s = .ok v → c.isCurrent s v = true

/-- The three ways in which a field can be computed: it fails, its value agrees with the present
one, or its value is written. -/
theorem pass_cases (c : CompiledCalculation) (s : Snapshot) :
    (∃ e, c.eval s = .error e ∧ pass [c] s = ⟨[], [⟨c.target, e⟩], [c.target]⟩) ∨
    (∃ v, c.eval s = .ok v ∧ c.isCurrent s v = true ∧ pass [c] s = ⟨[], [], [c.target]⟩) ∨
    (∃ v, c.eval s = .ok v ∧ c.isCurrent s v = false ∧
      pass [c] s = ⟨[⟨c.target, v, .system⟩], [], [c.target]⟩) := by
  cases heval : c.eval s with
  | error e => exact .inl ⟨e, rfl, by simp [pass, heval, Report.empty]⟩
  | ok v =>
    right
    cases hcurrent : c.isCurrent s v with
    | true => exact .inl ⟨v, rfl, hcurrent, by simp [pass, heval, hcurrent, Report.empty]⟩
    | false => exact .inr ⟨v, rfl, hcurrent, by simp [pass, heval, hcurrent, Report.empty]⟩

theorem pass_append (before after : List CompiledCalculation) (s : Snapshot) :
    pass (before ++ after) s = pass before s ++ pass after (settle before s) := by
  induction before generalizing s with
  | nil => rfl
  | cons c before ih =>
    rw [List.cons_append, settle, pass, pass]
    cases c.eval s with
    | error e => simp only [ih, settle]; rfl
    | ok v =>
      cases hcurrent : c.isCurrent s v with
      | true => simp only [ih, hcurrent, settle, ↓reduceIte]; rfl
      | false => simp only [ih, hcurrent, settle, Bool.false_eq_true, ↓reduceIte]; rfl

theorem settle_append (before after : List CompiledCalculation) (s : Snapshot) :
    settle (before ++ after) s = settle after (settle before s) := by
  rw [settle, pass_append, Report.writes_append, Snapshot.applyAll_append]
  rfl

theorem pass_cons (c : CompiledCalculation) (after : List CompiledCalculation) (s : Snapshot) :
    pass (c :: after) s = pass [c] s ++ pass after (settle [c] s) := pass_append [c] after s

theorem settle_cons (c : CompiledCalculation) (after : List CompiledCalculation) (s : Snapshot) :
    settle (c :: after) s = settle after (settle [c] s) := settle_append [c] after s

theorem only_pass_self (c : CompiledCalculation) (s : Snapshot) :
    (pass [c] s).only c.target = pass [c] s := by
  rcases pass_cases c s with ⟨e, _, hpass⟩ | ⟨v, _, _, hpass⟩ | ⟨v, _, _, hpass⟩ <;>
    simp [hpass, Report.only]

theorem only_pass_of_not_mem {name : String} (h : name ∉ calculations.map target) (s : Snapshot) :
    (pass calculations s).only name = .empty := by
  induction calculations generalizing s with
  | nil => rfl
  | cons c after ih =>
    rw [List.map_cons, List.mem_cons, not_or] at h
    obtain ⟨hne, hafter⟩ := h
    have hfirst : (pass [c] s).only name = .empty := by
      rcases pass_cases c s with ⟨e, _, hpass⟩ | ⟨v, _, _, hpass⟩ | ⟨v, _, _, hpass⟩ <;>
        simp [hpass, Report.only, Report.empty, Ne.symm hne]
    rw [pass_cons, Report.only_append, hfirst, ih hafter, Report.empty_append]

theorem target_mem_of_mem_writes {w : Write} (hw : w ∈ (pass calculations s).writes) :
    w.target ∈ calculations.map target := by
  by_contra hnone
  have hmem := Report.mem_writes_only.2 ⟨hw, rfl⟩
  rw [only_pass_of_not_mem hnone] at hmem
  exact absurd hmem List.not_mem_nil

theorem target_mem_of_mem_failures {f : Failure} (hf : f ∈ (pass calculations s).failures) :
    f.target ∈ calculations.map target := by
  by_contra hnone
  have hmem := Report.mem_failures_only.2 ⟨hf, rfl⟩
  rw [only_pass_of_not_mem hnone] at hmem
  exact absurd hmem List.not_mem_nil

theorem map_target_writes_sublist (calculations : List CompiledCalculation) (s : Snapshot) :
    ((pass calculations s).writes.map Write.target).Sublist (calculations.map target) := by
  induction calculations generalizing s with
  | nil => exact .slnil
  | cons c after ih =>
    rw [pass_cons, Report.writes_append, List.map_append]
    have hrest := ih (settle [c] s)
    rcases pass_cases c s with ⟨e, _, hpass⟩ | ⟨v, _, _, hpass⟩ | ⟨v, _, _, hpass⟩
    · simpa [hpass] using hrest.cons c.target
    · simpa [hpass] using hrest.cons c.target
    · simpa [hpass] using hrest.cons_cons c.target

theorem get?_settle_of_not_overlaps {path : String}
    (h : ∀ c ∈ calculations, (Path.ofString c.target).overlaps (.ofString path) = false) :
    (settle calculations s).get? path = s.get? path := by
  refine s.get?_applyAll_of_not_overlaps fun w hw => ?_
  obtain ⟨c, hc, htarget⟩ := List.mem_map.1 (target_mem_of_mem_writes hw)
  exact htarget ▸ h c hc

/-! ### What the pass has computed is final -/

theorem eval_congr (hc : c.declaration.compile = c)
    (h : ∀ path ∈ c.declaration.dependsOn, s.get? path = t.get? path) : c.eval s = c.eval t := by
  rw [← hc]
  exact c.declaration.eval_compile_congr h

theorem isCurrent_congr (h : s.get? c.target = t.get? c.target) (v : Value) :
    c.isCurrent s v = c.isCurrent t v := by rw [isCurrent, isCurrent, h]

theorem settledIn_congr (hc : c.declaration.compile = c)
    (h : ∀ path ∈ c.target :: c.declaration.dependsOn, s.get? path = t.get? path) :
    c.SettledIn s ↔ c.SettledIn t := by
  obtain ⟨htarget, hdependencies⟩ := List.forall_mem_cons.1 h
  simp only [SettledIn, eval_congr hc hdependencies, isCurrent_congr htarget]

theorem eval_settle (hc : c.declaration.compile = c) (h : c.UndisturbedBy after) (s : Snapshot) :
    c.eval (settle (c :: after) s) = c.eval s :=
  eval_congr hc fun path hpath =>
    get?_settle_of_not_overlaps fun d hd => h.dependencies d hd path hpath

theorem pass_congr (heval : c.eval s = c.eval t) (hget : s.get? c.target = t.get? c.target) :
    pass [c] s = pass [c] t := by
  rw [pass, pass, heval]
  simp only [isCurrent_congr hget]
  rfl

theorem get?_settle_congr (heval : c.eval s = c.eval t) (hget : s.get? c.target = t.get? c.target) :
    (settle [c] s).get? c.target = (settle [c] t).get? c.target := by
  have hsame := pass_congr heval hget
  rcases pass_cases c s with ⟨e, _, hpass⟩ | ⟨v, _, _, hpass⟩ | ⟨v, _, _, hpass⟩ <;>
    rw [settle, settle, ← hsame, hpass]
  · exact hget
  · exact hget
  · exact (s.get?_insert_self c.target v).trans (t.get?_insert_self c.target v).symm

theorem get?_settle_target (h : c.UndisturbedBy after) (s : Snapshot) :
    (settle (c :: after) s).get? c.target = (settle [c] s).get? c.target := by
  rw [settle_cons]
  exact get?_settle_of_not_overlaps h.target

theorem settle_cases (hc : c.declaration.compile = c) (h : c.UndisturbedBy after) (s : Snapshot) :
    (∃ e, c.eval (settle (c :: after) s) = .error e ∧
      (settle (c :: after) s).get? c.target = s.get? c.target ∧
      pass [c] s = ⟨[], [⟨c.target, e⟩], [c.target]⟩) ∨
    (∃ v, c.eval (settle (c :: after) s) = .ok v ∧ c.isCurrent (settle (c :: after) s) v = true ∧
      pass [c] s = ⟨[], [], [c.target]⟩) ∨
    (∃ v, c.eval (settle (c :: after) s) = .ok v ∧
      (settle (c :: after) s).get? c.target = some v ∧
      pass [c] s = ⟨[⟨c.target, v, .system⟩], [], [c.target]⟩) := by
  have hget := get?_settle_target h s
  rw [eval_settle hc h s]
  rcases pass_cases c s with ⟨e, heval, hpass⟩ | ⟨v, heval, hcurrent, hpass⟩ |
    ⟨v, heval, _, hpass⟩
  · have hget : (settle (c :: after) s).get? c.target = s.get? c.target := by
      rw [hget, settle, hpass]
      rfl
    exact .inl ⟨e, heval, hget, hpass⟩
  · have hget : (settle (c :: after) s).get? c.target = s.get? c.target := by
      rw [hget, settle, hpass]
      rfl
    exact .inr (.inl ⟨v, heval, (isCurrent_congr hget v).trans hcurrent, hpass⟩)
  · have hget : (settle (c :: after) s).get? c.target = some v := by
      rw [hget, settle, hpass]
      exact s.get?_insert_self c.target v
    exact .inr (.inr ⟨v, heval, hget, hpass⟩)

theorem settle_eq_self (h : (pass calculations s).writes = []) : settle calculations s = s := by
  rw [settle, h]
  rfl

theorem writes_eq_nil_iff :
    (pass calculations s).writes = [] ↔ ∀ c ∈ calculations, c.SettledIn s := by
  induction calculations with
  | nil => simp [pass, Report.empty]
  | cons c after ih =>
    rw [pass_cons, Report.writes_append, List.append_eq_nil_iff, List.forall_mem_cons]
    rcases pass_cases c s with ⟨e, heval, hpass⟩ | ⟨v, heval, hcurrent, hpass⟩ |
      ⟨v, heval, hcurrent, hpass⟩
    · have hsame : settle [c] s = s := settle_eq_self (by rw [hpass])
      simp [hpass, hsame, ih, SettledIn, heval]
    · have hsame : settle [c] s = s := settle_eq_self (by rw [hpass])
      simp [hpass, hsame, ih, SettledIn, heval, hcurrent]
    · simp [hpass, SettledIn, heval, hcurrent]

theorem hasNaN_of_mem_writes (hcalculations : ∀ c ∈ calculations, c.declaration.compile = c)
    (hs : s.hasNaN = false) {w : Write} (hw : w ∈ (pass calculations s).writes) :
    w.value.hasNaN = false := by
  induction calculations generalizing s with
  | nil => exact absurd hw List.not_mem_nil
  | cons c after ih =>
    obtain ⟨hc, hafter⟩ := List.forall_mem_cons.1 hcalculations
    have hfirst : ∀ w ∈ (pass [c] s).writes, w.value.hasNaN = false := by
      intro w hw
      rcases pass_cases c s with ⟨e, _, hpass⟩ | ⟨v, _, _, hpass⟩ | ⟨v, heval, _, hpass⟩ <;>
        rw [hpass] at hw
      · exact absurd hw List.not_mem_nil
      · exact absurd hw List.not_mem_nil
      · rw [List.mem_singleton.1 hw]
        exact c.declaration.hasNaN_of_eval_compile hs (hc.symm ▸ heval)
    rw [pass_cons, Report.writes_append, List.mem_append] at hw
    exact hw.elim (hfirst w) (ih hafter (Snapshot.hasNaN_applyAll hs hfirst))

end CompiledCalculation

end FormLogic
