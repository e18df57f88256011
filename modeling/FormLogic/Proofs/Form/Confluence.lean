import FormLogic.Proofs.Calculation.Rank
import FormLogic.Proofs.Form.FixedPoint
import FormLogic.Proofs.Snapshot.Commute

/-! The order of declaration. Where targets are separated, what a pass makes of a field depends only
on the value of its formula in the settled snapshot and on what its target had before. Two orders of
the same calculated fields therefore settle on the same snapshot. -/

namespace FormLogic.Form

open CompiledCalculation

section

variable {form : Form} {compiled : CompiledForm} (h : form.compile = .ok compiled)
  (hsep : form.Separated) (s : Snapshot)
include h hsep

theorem eval_settled_of_split {before after : List CompiledCalculation} {c : CompiledCalculation}
    (hsplit : compiled.calculations = before ++ c :: after) :
    c.eval (compiled.settled s) = c.eval (settle before s) := by
  have hc := compile_declaration h (hsplit ▸ List.mem_append_cons_self)
  rw [settled_of_split s hsplit]
  exact eval_settle hc (undisturbed_of_separated h hsep hsplit) _

theorem get?_settle_before {before after : List CompiledCalculation} {c : CompiledCalculation}
    (hsplit : compiled.calculations = before ++ c :: after) :
    (settle before s).get? c.target = s.get? c.target := by
  have hc : c ∈ compiled.calculations := hsplit ▸ List.mem_append_cons_self
  refine get?_settle_of_not_overlaps fun d hd => ?_
  exact overlaps_of_separated h hsep hc (hsplit ▸ List.mem_append_left _ hd) (List.mem_cons_self ..)
    (target_ne_of_split h hsplit (.inl hd))

theorem get?_settled_of_input {c : CompiledCalculation} (hc : c ∈ compiled.calculations)
    {name : String} (hname : name ∈ c.declaration.dependsOn)
    (hinput : ∀ d ∈ compiled.calculations, d.target ≠ name) :
    (compiled.settled s).get? name = s.get? name :=
  get?_settle_of_not_overlaps fun d hd =>
    overlaps_of_separated h hsep hc hd (List.mem_cons_of_mem _ hname) (hinput d hd)

end

theorem only_report_congr {form other : Form} {compiled compiled' : CompiledForm}
    (h : form.compile = .ok compiled) (h' : other.compile = .ok compiled')
    (hsep : form.Separated) (hsep' : other.Separated) {s t : Snapshot} {c : CompiledCalculation}
    (hc : c ∈ compiled.calculations) (hc' : c ∈ compiled'.calculations)
    (heval : c.eval (compiled.settled s) = c.eval (compiled'.settled t))
    (hget : s.get? c.target = t.get? c.target) :
    (compiled.report s).only c.target = (compiled'.report t).only c.target ∧
      (compiled.settled s).get? c.target = (compiled'.settled t).get? c.target := by
  obtain ⟨before, after, hsplit⟩ := List.append_of_mem hc
  obtain ⟨before', after', hsplit'⟩ := List.append_of_mem hc'
  rw [eval_settled_of_split h hsep s hsplit, eval_settled_of_split h' hsep' t hsplit'] at heval
  rw [← get?_settle_before h hsep s hsplit, ← get?_settle_before h' hsep' t hsplit'] at hget
  refine ⟨?_, ?_⟩
  · rw [only_report_of_split h s hsplit, only_report_of_split h' t hsplit']
    exact pass_congr heval hget
  · rw [settled_of_split s hsplit, settled_of_split t hsplit',
      get?_settle_target (undisturbed_of_separated h hsep hsplit),
      get?_settle_target (undisturbed_of_separated h' hsep' hsplit')]
    exact get?_settle_congr heval hget

section

variable {form other : Form} {compiled compiled' : CompiledForm} (h : form.compile = .ok compiled)
  (h' : other.compile = .ok compiled') (hsep : form.Separated) (hsep' : other.Separated)
  (s : Snapshot)
include h h' hsep hsep'

/-- Fields that two forms share come out the same, if whatever they depend on is shared as well or
is no target of either form. -/
theorem same_outcome_of_shared {shared : CompiledCalculation → Prop}
    (hshared : ∀ c, shared c → c ∈ compiled.calculations ∧ c ∈ compiled'.calculations)
    (hneeds : ∀ c, shared c → ∀ name ∈ c.declaration.dependsOn,
      (∃ d, shared d ∧ d.target = name) ∨
        (∀ d ∈ compiled.calculations, d.target ≠ name) ∧
          ∀ d ∈ compiled'.calculations, d.target ≠ name) {c : CompiledCalculation}
    (hc : shared c) :
    (compiled.report s).only c.target = (compiled'.report s).only c.target ∧
      (compiled.settled s).get? c.target = (compiled'.settled s).get? c.target := by
  have hall : ∀ c ∈ compiled.calculations, shared c →
      (compiled.report s).only c.target = (compiled'.report s).only c.target ∧
        (compiled.settled s).get? c.target = (compiled'.settled s).get? c.target := by
    refine calculations_induction h fun c hmem ih hc => ?_
    refine only_report_congr h h' hsep hsep' hmem (hshared c hc).2 ?_ rfl
    refine eval_congr (compile_declaration h hmem) fun name hname => ?_
    rcases hneeds c hc name hname with ⟨d, hd, rfl⟩ | ⟨hinput, hinput'⟩
    · exact (ih d (hshared d hd).1 hname hd).2
    · rw [get?_settled_of_input h hsep s hmem hname hinput,
        get?_settled_of_input h' hsep' s (hshared c hc).2 hname hinput']
  exact hall c (hshared c hc).1 hc

end

section Permutation

variable {form other : Form} (hperm : form.calculations.Perm other.calculations)
include hperm

theorem Separated.perm (hsep : form.Separated) : other.Separated := fun c hc d hd =>
  hsep c (hperm.mem_iff.2 hc) d (hperm.mem_iff.2 hd)

theorem exists_compile_of_perm (hfields : form.fields = other.fields) {compiled : CompiledForm}
    (h : form.compile = .ok compiled) : ∃ compiled', other.compile = .ok compiled' := by
  obtain ⟨hpaths, htargets, fields, ordered, hconditions, horder, -⟩ := compile_eq_ok_iff.1 h
  obtain ⟨ordered', horder'⟩ := Calculation.exists_order_of_perm hperm htargets horder
  have htargets' := (hperm.map Calculation.target).nodup_iff.1 htargets
  exact ⟨_, compile_eq_ok_iff.2 ⟨hfields ▸ hpaths, htargets', fields, ordered',
    hfields ▸ hconditions, horder', rfl⟩⟩

variable {compiled compiled' : CompiledForm} (h : form.compile = .ok compiled)
  (h' : other.compile = .ok compiled') (hsep : form.Separated) (s : Snapshot)
include h h'

theorem mem_calculations_iff_of_perm {c : CompiledCalculation} :
    c ∈ compiled.calculations ↔ c ∈ compiled'.calculations := by
  rw [mem_calculations_iff h, mem_calculations_iff h']
  simp only [hperm.mem_iff]

include hsep

theorem same_outcome_of_perm : ∀ c ∈ compiled.calculations,
    (compiled.report s).only c.target = (compiled'.report s).only c.target ∧
      (compiled.settled s).get? c.target = (compiled'.settled s).get? c.target := by
  have hshared : ∀ c, c ∈ compiled.calculations ↔ c ∈ compiled'.calculations := fun c =>
    mem_calculations_iff_of_perm hperm h h'
  refine fun c hc => same_outcome_of_shared h h' hsep (hsep.perm hperm) s
    (fun c hc => ⟨hc, (hshared c).1 hc⟩) (fun c hc name hname => ?_) hc
  by_cases htarget : ∃ d ∈ compiled.calculations, d.target = name
  · exact .inl htarget
  · have hinput : ∀ d ∈ compiled.calculations, d.target ≠ name := by simpa using htarget
    exact .inr ⟨hinput, fun d hd => hinput d ((hshared d).2 hd)⟩

theorem report_subset_of_perm :
    (compiled.report s).writes ⊆ (compiled'.report s).writes ∧
      (compiled.report s).failures ⊆ (compiled'.report s).failures := by
  have hsame := same_outcome_of_perm hperm h h' hsep s
  constructor
  · intro w hw
    obtain ⟨c, hc, htarget⟩ := List.mem_map.1 (target_mem_of_mem_writes hw)
    have honly := Report.mem_writes_only.2 ⟨hw, htarget.symm⟩
    rw [(hsame c hc).1] at honly
    exact (Report.mem_writes_only.1 honly).1
  · intro f hf
    obtain ⟨c, hc, htarget⟩ := List.mem_map.1 (target_mem_of_mem_failures hf)
    have honly := Report.mem_failures_only.2 ⟨hf, htarget.symm⟩
    rw [(hsame c hc).1] at honly
    exact (Report.mem_failures_only.1 honly).1

end Permutation

section

variable {form : Form} {compiled : CompiledForm} (h : form.compile = .ok compiled) (s : Snapshot)
include h

theorem nodup_writes : (compiled.report s).writes.Nodup :=
  .of_map _ ((nodup_targets h).sublist (map_target_writes_sublist compiled.calculations s))

theorem pairwise_apart_writes (hsep : form.Separated) :
    (compiled.report s).writes.Pairwise fun w u =>
      (Path.ofString w.target).overlaps (.ofString u.target) = false :=
  List.pairwise_map.1
    ((pairwise_apart_targets h hsep).sublist (map_target_writes_sublist compiled.calculations s))

end

/-- The order in which calculated fields are declared decides neither whether a form can be used nor
what a pass over it reports and settles on. -/
theorem report_of_perm {form other : Form} (hfields : form.fields = other.fields)
    (hperm : form.calculations.Perm other.calculations) (hsep : form.Separated) :
    form.compile.isOk = other.compile.isOk ∧
      ∀ compiled compiled', form.compile = .ok compiled → other.compile = .ok compiled' →
        ∀ s, (∀ w, w ∈ (compiled.report s).writes ↔ w ∈ (compiled'.report s).writes) ∧
          (∀ f, f ∈ (compiled.report s).failures ↔ f ∈ (compiled'.report s).failures) ∧
          compiled.settled s = compiled'.settled s := by
  constructor
  · cases h : form.compile with
    | ok compiled =>
      obtain ⟨compiled', h'⟩ := exists_compile_of_perm hperm hfields h
      rw [h']
      rfl
    | error e =>
      cases h' : other.compile with
      | ok compiled' =>
        obtain ⟨compiled, hcompiled⟩ := exists_compile_of_perm hperm.symm hfields.symm h'
        exact absurd (h.symm.trans hcompiled) nofun
      | error e' => rfl
  · intro compiled compiled' h h' s
    have hforth := report_subset_of_perm hperm h h' hsep s
    have hback := report_subset_of_perm hperm.symm h' h (hsep.perm hperm) s
    have hwrites : ∀ w, w ∈ (compiled.report s).writes ↔ w ∈ (compiled'.report s).writes :=
      fun w => ⟨fun hw => hforth.1 hw, fun hw => hback.1 hw⟩
    refine ⟨hwrites, fun f => ⟨fun hf => hforth.2 hf, fun hf => hback.2 hf⟩, ?_⟩
    have hsame : (compiled.report s).writes.Perm (compiled'.report s).writes :=
      (List.perm_ext_iff_of_nodup (nodup_writes h s) (nodup_writes h' s)).2 hwrites
    exact s.applyAll_perm hsame (pairwise_apart_writes h s hsep)

def tripForm : Form :=
  ⟨[], [⟨"fares", ["trip.km"], "trip.km * 2"⟩,
    ⟨"meals", ["trip.days", "rate"], "trip.days * rate"⟩,
    ⟨"total", ["meals", "fares"], "meals + fares"⟩]⟩

def tripCompiled : CompiledForm := ⟨[], tripForm.calculations.map Calculation.compile⟩

def tripFormTotalFirst : Form := ⟨[], tripForm.calculations.reverse⟩

def tripCompiledTotalFirst : CompiledForm :=
  ⟨[], [⟨"meals", ["trip.days", "rate"], "trip.days * rate"⟩,
    ⟨"fares", ["trip.km"], "trip.km * 2"⟩,
    ⟨"total", ["meals", "fares"], "meals + fares"⟩].map Calculation.compile⟩

theorem compile_tripForm : tripForm.compile = .ok tripCompiled := by cbv

theorem compile_tripFormTotalFirst : tripFormTotalFirst.compile = .ok tripCompiledTotalFirst := by
  cbv

def trip : Snapshot := ⟨[("rate", .int 3), ("trip", .object [("days", .int 2), ("km", .int 10)])]⟩

theorem settled_trip :
    tripForm.fields = tripFormTotalFirst.fields ∧
      tripForm.calculations.Perm tripFormTotalFirst.calculations ∧ tripForm.Separated ∧
      tripForm.compile = .ok tripCompiled ∧
      tripFormTotalFirst.compile = .ok tripCompiledTotalFirst ∧
      (∀ s, tripCompiled.settled s = tripCompiledTotalFirst.settled s) ∧
      (tripCompiled.report trip).writes.map Write.text =
        ["fares := 20", "meals := 6", "total := 26"] ∧
      ∀ w ∈ (tripCompiled.report trip).writes, w ∈ (tripCompiledTotalFirst.report trip).writes := by
  have hfields : tripForm.fields = tripFormTotalFirst.fields := rfl
  have hperm : tripForm.calculations.Perm tripFormTotalFirst.calculations :=
    (List.reverse_perm _).symm
  have hsep : tripForm.Separated := by decide
  have hreport := (report_of_perm hfields hperm hsep).2 tripCompiled tripCompiledTotalFirst
    compile_tripForm compile_tripFormTotalFirst
  exact ⟨hfields, hperm, hsep, compile_tripForm, compile_tripFormTotalFirst,
    fun s => (hreport s).2.2, by decide +kernel, fun w => ((hreport trip).1 w).1⟩

end FormLogic.Form
