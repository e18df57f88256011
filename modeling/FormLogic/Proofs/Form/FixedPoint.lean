import FormLogic.Proofs.Form.Settling
import Mathlib

/-! The snapshot on which a full pass settles: when a second pass over it proposes nothing, and what
the formulas give on it. -/

namespace FormLogic

namespace CompiledForm

def settled (form : CompiledForm) (s : Snapshot) : Snapshot := s.applyAll (form.recompute s)

end CompiledForm

namespace Form

open CompiledCalculation

section

variable {form : Form} {compiled : CompiledForm} (h : form.compile = .ok compiled) (s : Snapshot)
  {before after : List CompiledCalculation} {c : CompiledCalculation}
  (hsplit : compiled.calculations = before ++ c :: after)

theorem settled_of_split (hsplit : compiled.calculations = before ++ c :: after) :
    compiled.settled s = settle (c :: after) (settle before s) := by
  rw [← settle_append, ← hsplit]
  rfl

include h hsplit

theorem only_report_of_split :
    (compiled.report s).only c.target = pass [c] (settle before s) := by
  have hnot : ∀ others : List CompiledCalculation, (∀ d ∈ others, d ∈ before ∨ d ∈ after) →
      c.target ∉ others.map CompiledCalculation.target := by
    intro others hothers hmem
    obtain ⟨d, hd, htarget⟩ := List.mem_map.1 hmem
    exact target_ne_of_split h hsplit (hothers d hd) htarget
  rw [CompiledForm.report, hsplit, pass_append, pass_cons, Report.only_append, Report.only_append,
    only_pass_of_not_mem (hnot before fun _ => .inl), only_pass_self,
    only_pass_of_not_mem (hnot after fun _ => .inr), Report.empty_append, Report.append_empty]

theorem settledIn_settled_iff (hund : c.UndisturbedBy after) :
    c.SettledIn (compiled.settled s) ↔
      ∀ w ∈ compiled.recompute s, w.target = c.target → w.value.hasNaN = false := by
  have hc := compile_declaration h (hsplit ▸ List.mem_append_right before (List.mem_cons_self ..))
  have hwrites : (∀ w ∈ compiled.recompute s, w.target = c.target → w.value.hasNaN = false) ↔
      ∀ w ∈ (pass [c] (settle before s)).writes, w.value.hasNaN = false := by
    rw [← only_report_of_split h s hsplit]
    simp only [Report.mem_writes_only, and_imp]
    rfl
  rw [hwrites, settled_of_split s hsplit]
  rcases settle_cases hc hund (settle before s) with ⟨e, heval, _, hpass⟩ |
    ⟨v, heval, hcurrent, hpass⟩ | ⟨v, heval, hget, hpass⟩
  · simp [hpass, SettledIn, heval]
  · simp [hpass, SettledIn, heval, hcurrent]
  · simp [hpass, SettledIn, heval, isCurrent, hget, Value.agrees_self]

omit hsplit

theorem hasNaN_of_mem_recompute (hs : s.hasNaN = false) {w : Write}
    (hw : w ∈ compiled.recompute s) : w.value.hasNaN = false :=
  hasNaN_of_mem_writes (fun _ => compile_declaration h) hs hw

theorem recompute_settled_iff_of_separated (hsep : form.Separated) :
    compiled.recompute (compiled.settled s) = [] ↔
      ∀ w ∈ compiled.recompute s, w.value.hasNaN = false := by
  have hfields : compiled.recompute (compiled.settled s) = [] ↔
      ∀ c ∈ compiled.calculations, ∀ w ∈ compiled.recompute s, w.target = c.target →
        w.value.hasNaN = false := by
    rw [CompiledForm.recompute, CompiledForm.report, writes_eq_nil_iff]
    refine forall₂_congr fun c hc => ?_
    obtain ⟨before, after, hsplit⟩ := List.append_of_mem hc
    exact settledIn_settled_iff h s hsplit (undisturbed_of_separated h hsep hsplit)
  rw [hfields]
  constructor
  · intro hall w hw
    obtain ⟨c, hc, htarget⟩ := List.mem_map.1 (target_mem_of_mem_writes hw)
    exact hall c hc w hw htarget.symm
  · exact fun hall c _ w hw _ => hall w hw

theorem recompute_settled_of_separated (hsep : form.Separated) (hs : s.hasNaN = false) :
    compiled.recompute (compiled.settled s) = [] :=
  (recompute_settled_iff_of_separated h s hsep).2 fun _ => hasNaN_of_mem_recompute h s hs

end

/-- When a pass is its own fixed point: in any form; where targets are separated; and where there is
no NaN at the start either. -/
theorem recompute_settled_eq_nil_iff {form : Form} {compiled : CompiledForm}
    (h : form.compile = .ok compiled) (s : Snapshot) :
    (compiled.recompute (compiled.settled s) = [] ↔
      ∀ before c after, compiled.calculations = before ++ c :: after →
        (c.UndisturbedBy after →
          ∀ w ∈ compiled.recompute s, w.target = c.target → w.value.hasNaN = false) ∧
        (¬ c.UndisturbedBy after → c.SettledIn (compiled.settled s))) ∧
    (form.Separated → (compiled.recompute (compiled.settled s) = [] ↔
      ∀ w ∈ compiled.recompute s, w.value.hasNaN = false)) ∧
    (form.Separated → s.hasNaN = false → compiled.recompute (compiled.settled s) = []) := by
  refine ⟨?_, recompute_settled_iff_of_separated h s, recompute_settled_of_separated h s⟩
  rw [CompiledForm.recompute, CompiledForm.report, writes_eq_nil_iff]
  constructor
  · intro hall before c after hsplit
    have hc := hall c (hsplit ▸ List.mem_append_right before (List.mem_cons_self ..))
    exact ⟨fun hund => (settledIn_settled_iff h s hsplit hund).1 hc, fun _ => hc⟩
  · intro hall c hc
    obtain ⟨before, after, hsplit⟩ := List.append_of_mem hc
    by_cases hund : c.UndisturbedBy after
    · exact (settledIn_settled_iff h s hsplit hund).2 ((hall before c after hsplit).1 hund)
    · exact (hall before c after hsplit).2 hund

def copyForm : Form := ⟨[], [⟨"copy", ["list"], "list"⟩]⟩

def copyCompiled : CompiledForm := ⟨[], copyForm.calculations.map Calculation.compile⟩

theorem compile_copyForm : copyForm.compile = .ok copyCompiled := by cbv

def partForm : Form := ⟨[], [⟨"a", ["a.b"], "a.b"⟩]⟩

def partCompiled : CompiledForm := ⟨[], partForm.calculations.map Calculation.compile⟩

theorem compile_partForm : partForm.compile = .ok partCompiled := by cbv

/-- A copied NaN is written again by every pass, and a field that replaces what it is computed from
is computed from nothing by the next pass. -/
theorem recompute_settled_ne_nil :
    (copyForm.compile = .ok copyCompiled ∧
      copyCompiled.recompute (copyCompiled.settled ⟨[("list", .array [.float .nan])]⟩) =
        [⟨"copy", .array [.float .nan], .system⟩]) ∧
    (partForm.compile = .ok partCompiled ∧
      partCompiled.recompute (partCompiled.settled ⟨[("a", .object [("b", .int 1)])]⟩) =
        [⟨"a", .null, .system⟩]) :=
  ⟨⟨compile_copyForm, rfl⟩, ⟨compile_partForm, rfl⟩⟩

theorem recompute_settled_copy :
    copyForm.compile = .ok copyCompiled ∧ copyForm.Separated ∧
      Snapshot.hasNaN ⟨[("list", .array [.int 1, .null])]⟩ = false ∧
      copyCompiled.recompute (copyCompiled.settled ⟨[("list", .array [.int 1, .null])]⟩) = [] :=
  ⟨compile_copyForm, by decide, by decide,
    (recompute_settled_eq_nil_iff compile_copyForm _).2.2 (by decide) (by decide)⟩

/-- On the settled snapshot every formula gives what its field has. A field whose formula fails
keeps its old value. -/
theorem settled_satisfies_formulas {form : Form} {compiled : CompiledForm}
    (h : form.compile = .ok compiled) (hsep : form.Separated) (s : Snapshot) {c : Calculation}
    (hc : c ∈ form.calculations) :
    (∀ f ∈ (compiled.report s).failures, f.target = c.target →
      Formula.evalText c.formula c.dependsOn (compiled.settled s) = .error f.error ∧
      (compiled.settled s).get? c.target = s.get? c.target) ∧
    (c.target ∉ (compiled.report s).failures.map Failure.target →
      ∃ v, Formula.evalText c.formula c.dependsOn (compiled.settled s) = .ok v ∧
        (c.target ∈ (compiled.report s).writes.map Write.target →
          (compiled.settled s).get? c.target = some v) ∧
        (c.target ∉ (compiled.report s).writes.map Write.target →
          ∃ u, (compiled.settled s).get? c.target = some u ∧ u.agrees v = true)) := by
  have hmem : c.compile ∈ compiled.calculations := (mem_calculations_iff h).2 ⟨c, hc, rfl⟩
  obtain ⟨before, after, hsplit⟩ := List.append_of_mem hmem
  have hund := undisturbed_of_separated h hsep hsplit
  have hreport := only_report_of_split h s hsplit
  have hfailures : ∀ f, f ∈ (compiled.report s).failures ∧ f.target = c.target ↔
      f ∈ (pass [c.compile] (settle before s)).failures := fun f =>
    hreport ▸ Report.mem_failures_only.symm
  have hwrites : ∀ w, w ∈ (compiled.report s).writes ∧ w.target = c.target ↔
      w ∈ (pass [c.compile] (settle before s)).writes := fun w =>
    hreport ▸ Report.mem_writes_only.symm
  have hbefore : (settle before s).get? c.target = s.get? c.target :=
    get?_settle_of_not_overlaps fun d hd =>
      overlaps_of_separated h hsep hmem (hsplit ▸ List.mem_append_left _ hd) (List.mem_cons_self ..)
        (target_ne_of_split h hsplit (.inl hd))
  rw [← Calculation.eval_compile, settled_of_split s hsplit]
  rcases settle_cases rfl hund (settle before s) with ⟨e, heval, hget, hpass⟩ |
    ⟨v, heval, hcurrent, hpass⟩ | ⟨v, heval, hget, hpass⟩
  -- the formula has failed
  · rw [hpass] at hfailures
    refine ⟨fun f hf htarget => ?_, fun hnone => ?_⟩
    · rw [List.mem_singleton.1 ((hfailures f).1 ⟨hf, htarget⟩)]
      exact ⟨heval, hget.trans hbefore⟩
    · have hmine := (hfailures ⟨c.target, e⟩).2 (List.mem_singleton.2 rfl)
      exact absurd (List.mem_map_of_mem hmine.1) hnone
  -- the field had an equal value
  · rw [hpass] at hfailures hwrites
    refine ⟨fun f hf htarget => absurd ((hfailures f).1 ⟨hf, htarget⟩) List.not_mem_nil,
      fun _ => ⟨v, heval, fun hwritten => ?_, fun _ => ?_⟩⟩
    · obtain ⟨w, hw, htarget⟩ := List.mem_map.1 hwritten
      exact absurd ((hwrites w).1 ⟨hw, htarget⟩) List.not_mem_nil
    · exact (Option.any_eq_true ..).1 hcurrent
  -- the field has been written
  · rw [hpass] at hfailures hwrites
    refine ⟨fun f hf htarget => absurd ((hfailures f).1 ⟨hf, htarget⟩) List.not_mem_nil,
      fun _ => ⟨v, heval, fun _ => hget, fun hunwritten => ?_⟩⟩
    have hmine := (hwrites ⟨c.target, v, .system⟩).2 (List.mem_singleton.2 rfl)
    exact absurd (List.mem_map_of_mem hmine.1) hunwritten

def billForm : Form :=
  ⟨[], [⟨"total", ["net", "tax"], "net + tax"⟩, ⟨"tax", ["net"], "net * 2"⟩,
    ⟨"net", ["item.fee", "item.count"], "item.fee * item.count"⟩]⟩

def billCompiled : CompiledForm := ⟨[], billForm.calculations.reverse.map Calculation.compile⟩

theorem compile_billForm : billForm.compile = .ok billCompiled := by cbv

theorem separated_billForm : billForm.Separated := by decide

def staleBill : Snapshot :=
  ⟨[("item", .object [("count", .int 4), ("fee", .null)]), ("net", .int 3)]⟩

theorem settled_staleBill :
    billForm.compile = .ok billCompiled ∧ billForm.Separated ∧
      (Formula.evalText "item.fee * item.count" ["item.fee", "item.count"]
          (billCompiled.settled staleBill) = .error (.operands (.arithmetic .mul) .null .number) ∧
        (billCompiled.settled staleBill).get? "net" = some (.int 3)) ∧
      ∃ v, Formula.evalText "net + tax" ["net", "tax"] (billCompiled.settled staleBill) = .ok v ∧
        (billCompiled.settled staleBill).get? "total" = some v := by
  have hfailures : (billCompiled.report staleBill).failures =
      [⟨"net", .operands (.arithmetic .mul) .null .number⟩] := rfl
  have hwrites : (billCompiled.report staleBill).writes.map Write.target = ["tax", "total"] := rfl
  have hnet := (settled_satisfies_formulas compile_billForm separated_billForm staleBill
    (c := ⟨"net", ["item.fee", "item.count"], "item.fee * item.count"⟩) (by decide)).1
    ⟨"net", .operands (.arithmetic .mul) .null .number⟩ (by simp [hfailures]) rfl
  obtain ⟨v, heval, hget, -⟩ := (settled_satisfies_formulas compile_billForm separated_billForm
    staleBill (c := ⟨"total", ["net", "tax"], "net + tax"⟩) (by decide)).2 (by simp [hfailures])
  exact ⟨compile_billForm, separated_billForm, ⟨hnet.1, hnet.2.trans rfl⟩, v, heval,
    hget (by simp [hwrites])⟩

end Form

end FormLogic
