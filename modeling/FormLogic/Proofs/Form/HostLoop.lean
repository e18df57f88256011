import FormLogic.Proofs.Form.Restriction

/-! A host that keeps a form up to date. It starts from a full pass; from then on it writes inputs
and takes over what the form proposes for the changed paths. After every step the form is settled:
a full pass has nothing left to propose. -/

namespace FormLogic

/-- What a host writes in one step, and how it has the form computed afterwards. -/
inductive HostStep
  /-- Any inputs; the form is told that these paths have changed. -/
  | edit (inserts : List (String × Value)) (changed : List String)
  /-- One input, once or more often; only what it reaches is computed. -/
  | editAt (path : String) (values : List Value)

namespace HostStep

def inserts : HostStep → List (String × Value)
  | edit inserts _ => inserts
  | editAt path values => values.map fun v => (path, v)

def changed : HostStep → List String
  | edit _ changed => changed
  | editAt path _ => [path]

/-- A step writes no NaN, and nothing on, above or below a target; of every path that it writes the
form is told. -/
structure Allowed (form : Form) (step : HostStep) : Prop where
  noNaN : ∀ i ∈ step.inserts, i.2.hasNaN = false
  told : ∀ i ∈ step.inserts, i.1 ∈ step.changed
  inputs : ∀ path ∈ step.changed, form.IsInput path

instance (form : Form) (step : HostStep) : Decidable (step.Allowed form) :=
  decidable_of_iff ((∀ i ∈ step.inserts, i.2.hasNaN = false) ∧
    (∀ i ∈ step.inserts, i.1 ∈ step.changed) ∧ ∀ path ∈ step.changed, form.IsInput path)
    ⟨fun ⟨noNaN, told, inputs⟩ => ⟨noNaN, told, inputs⟩,
      fun ⟨noNaN, told, inputs⟩ => ⟨noNaN, told, inputs⟩⟩

end HostStep

namespace CompiledForm

variable (form : CompiledForm)

def proposals (s : Snapshot) (step : HostStep) : List Write :=
  match step with
  | .edit _ changed => form.onChange changed s
  | .editAt path _ => form.recomputeAffected path s

def hostStep (s : Snapshot) (step : HostStep) : Snapshot :=
  (s.insertAll step.inserts).applyAll (form.proposals (s.insertAll step.inserts) step)

def hostRun (s : Snapshot) (steps : List HostStep) : Snapshot :=
  steps.foldl form.hostStep (form.settled s)

structure Upheld (form : CompiledForm) (s : Snapshot) : Prop where
  noNaN : s.hasNaN = false
  settled : form.recompute s = []

end CompiledForm

namespace Form

section

variable {form : Form} {compiled : CompiledForm} (h : form.compile = .ok compiled)
  (hsep : form.Separated)
include h hsep

theorem upheld_settled {s : Snapshot} (hs : s.hasNaN = false) :
    compiled.Upheld (compiled.settled s) :=
  ⟨Snapshot.hasNaN_applyAll hs fun _ => hasNaN_of_mem_recompute h s hs,
    recompute_settled_of_separated h s hsep hs⟩

theorem upheld_hostStep {s : Snapshot} (hs : compiled.Upheld s) {step : HostStep}
    (hstep : step.Allowed form) : compiled.Upheld (compiled.hostStep s step) := by
  have hnan := Snapshot.hasNaN_insertAll hs.noNaN hstep.noNaN
  cases step with
  | edit inserts changed =>
    cases hany : changed.any compiled.isWatched with
    | true =>
      have hfull : compiled.hostStep s (.edit inserts changed) =
          compiled.settled (s.insertAll inserts) := by
        rw [CompiledForm.hostStep, CompiledForm.proposals, CompiledForm.onChange, if_pos hany]
        rfl
      exact hfull ▸ upheld_settled h hsep hnan
    | false =>
      have hnone : compiled.hostStep s (.edit inserts changed) = s.insertAll inserts := by
        rw [CompiledForm.hostStep, CompiledForm.proposals, CompiledForm.onChange,
          if_neg (by simp [hany])]
        rfl
      have hunwatched : ∀ path ∈ changed, compiled.isWatched path = false := by simpa using hany
      exact hnone ▸ ⟨hnan, recompute_insertAll_of_unwatched h hs.settled
        (fun i hi => hstep.inputs i.1 (hstep.told i hi))
        fun i hi => hunwatched i.1 (hstep.told i hi)⟩
  | editAt path values =>
    have hsame : ∀ name, (Path.ofString path).overlaps (.ofString name) = false →
        s.get? name = (s.insertAll (values.map fun v => (path, v))).get? name := fun name hname =>
      (s.get?_insertAll_of_not_overlaps (by simpa using fun _ _ => hname)).symm
    have hinput := hstep.inputs path (List.mem_cons_self ..)
    have hagree := recomputeAffected_eq_of_same h hsep hinput hs.settled hsame
    have hfull : compiled.hostStep s (.editAt path values) =
        compiled.settled (s.insertAll (values.map fun v => (path, v))) :=
      congrArg (Snapshot.applyAll _) hagree
    exact hfull ▸ upheld_settled h hsep hnan

theorem upheld_hostRun {s : Snapshot} (hs : s.hasNaN = false) {steps : List HostStep}
    (hsteps : ∀ step ∈ steps, step.Allowed form) : compiled.Upheld (compiled.hostRun s steps) := by
  -- the steps start from the settled snapshot, the induction needs any snapshot
  have hrun : ∀ t, compiled.Upheld t → compiled.Upheld (steps.foldl compiled.hostStep t) := by
    induction steps with
    | nil => exact fun t ht => ht
    | cons step steps ih =>
      obtain ⟨hstep, hsteps⟩ := List.forall_mem_cons.1 hsteps
      exact fun t ht => ih hsteps _ (upheld_hostStep h hsep ht hstep)
  exact hrun _ (upheld_settled h hsep hs)

end

/-- After every step of every allowed run, a full pass proposes nothing. -/
theorem recompute_hostRun_eq_nil {form : Form} {compiled : CompiledForm}
    (h : form.compile = .ok compiled) (hsep : form.Separated) {s : Snapshot}
    (hs : s.hasNaN = false) {steps : List HostStep} (hsteps : ∀ step ∈ steps, step.Allowed form)
    (done : Nat) : compiled.recompute (compiled.hostRun s (steps.take done)) = [] :=
  (upheld_hostRun h hsep hs fun step hstep => hsteps step (List.mem_of_mem_take hstep)).settled

def billCharge : HostStep :=
  .edit [("item.fee", .int 5), ("note", .string "late")] ["note", "item.fee"]

def billSteps : List HostStep :=
  [billCharge, .editAt "item" [.object [("count", .int 2), ("fee", .int 7)]],
    .edit [("note", .null)] ["note"],
    .editAt "item.fee" [.string "none"]]

theorem recompute_hostRun_billSteps :
    billForm.compile = .ok billCompiled ∧ billForm.Separated ∧ staleBill.hasNaN = false ∧
      (∀ step ∈ billSteps, step.Allowed billForm) ∧
      ((billCompiled.recompute staleBill).map Write.text = ["tax := 6", "total := 9"] ∧
        billCompiled.recompute (billCompiled.hostRun staleBill (billSteps.take 0)) = []) ∧
      ((billCompiled.proposals ((billCompiled.settled staleBill).insertAll billCharge.inserts)
          billCharge).map Write.text = ["net := 20", "tax := 40", "total := 60"] ∧
        billCompiled.recompute (billCompiled.hostRun staleBill (billSteps.take 1)) = []) ∧
      billCompiled.recompute (billCompiled.hostRun staleBill billSteps) = [] := by
  have hsteps : ∀ step ∈ billSteps, step.Allowed billForm := by decide
  have hsettled := recompute_hostRun_eq_nil compile_billForm separated_billForm (s := staleBill)
    (by decide) hsteps
  exact ⟨compile_billForm, separated_billForm, by decide, hsteps, ⟨by decide +kernel, hsettled 0⟩,
    ⟨by decide +kernel, hsettled 1⟩, hsettled 4⟩

end Form

end FormLogic
