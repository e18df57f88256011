import FormLogic.Proofs.Calculation.Closure
import FormLogic.Proofs.Form.FixedPoint

/-! Passes over the part of a form that a change reaches. What they leave out was settled before the
change, and neither the change nor any field that they compute touches it. Where a change reaches
nothing at all, the whole pass can be left out. -/

namespace FormLogic

namespace CompiledCalculation

/-- Leaving out fields that are settled in `s` changes no write, if the snapshot and the writes of
the other fields differ from `s` only where the fields left out do not look. -/
theorem writes_pass_filter {calculations : List CompiledCalculation}
    (hcompiled : ∀ c ∈ calculations, c.declaration.compile = c)
    (wanted : CompiledCalculation → Bool) {s t : Snapshot}
    (hsettled : ∀ c ∈ calculations, wanted c = false → c.SettledIn s)
    (hsame : ∀ c ∈ calculations, wanted c = false →
      ∀ name ∈ c.target :: c.declaration.dependsOn, s.get? name = t.get? name)
    (hapart : ∀ d ∈ calculations, wanted d = true → ∀ c ∈ calculations, wanted c = false →
      ∀ name ∈ c.target :: c.declaration.dependsOn,
        (Path.ofString d.target).overlaps (.ofString name) = false) :
    (pass (calculations.filter wanted) t).writes = (pass calculations t).writes := by
  induction calculations generalizing t with
  | nil => rfl
  | cons c after ih =>
    obtain ⟨hc, hafter⟩ := List.forall_mem_cons.1 hcompiled
    obtain ⟨hcsettled, hsettled⟩ := List.forall_mem_cons.1 hsettled
    have hrest := fun u hsame => ih (t := u) hafter hsettled hsame fun d hd hwanted e he =>
      hapart d (List.mem_cons_of_mem _ hd) hwanted e (List.mem_cons_of_mem _ he)
    cases hwanted : wanted c with
    | true =>
      have hfirst : ∀ d ∈ after, wanted d = false → ∀ name ∈ d.target :: d.declaration.dependsOn,
          s.get? name = (settle [c] t).get? name := by
        intro d hd hskip name hname
        have hoff := hapart c (List.mem_cons_self ..) hwanted d (List.mem_cons_of_mem _ hd) hskip
          name hname
        rw [get?_settle_of_not_overlaps (by simpa using hoff)]
        exact hsame d (List.mem_cons_of_mem _ hd) hskip name hname
      rw [List.filter_cons_of_pos hwanted, pass_cons, pass_cons c after, Report.writes_append,
        Report.writes_append, hrest _ hfirst]
    | false =>
      -- left out: `c` was settled in `s`, and sees no difference in `t`
      have hstill : c.SettledIn t := (settledIn_congr hc
        (hsame c (List.mem_cons_self ..) hwanted)).1 (hcsettled hwanted)
      have hnone : (pass [c] t).writes = [] := writes_eq_nil_iff.2 (by simpa using hstill)
      have hkept : settle [c] t = t := by rw [settle, hnone]; rfl
      rw [List.filter_cons_of_neg (by simp [hwanted]), pass_cons, Report.writes_append, hnone, hkept,
        List.nil_append]
      exact hrest t fun d hd => hsame d (List.mem_cons_of_mem _ hd)

end CompiledCalculation

namespace CompiledForm

variable {form : CompiledForm} {name path : String}

theorem mem_watched_iff :
    name ∈ form.watched ↔ ∃ c ∈ form.calculations, name ∈ c.declaration.dependsOn := by
  simp [watched, NameSet.mem_ofList, declarations]

theorem mem_overlapping_iff : name ∈ form.overlapping path ↔
    name ∈ form.watched ∧ (Path.ofString name).overlaps (.ofString path) = true := List.mem_filter

theorem target_mem_scheduled {c : CompiledCalculation} (hc : c ∈ form.calculations)
    (hname : name ∈ c.declaration.dependsOn)
    (h : (Path.ofString path).overlaps (.ofString name) = true ∨ name ∈ form.scheduled path) :
    c.target ∈ form.scheduled path := by
  have hdeclared : c.declaration ∈ form.declarations := List.mem_map_of_mem hc
  refine Calculation.target_mem_reached hdeclared hname (h.imp_left fun hover => ?_)
  rw [Path.overlaps_comm] at hover
  exact List.mem_cons_of_mem _ (mem_overlapping_iff.2 ⟨mem_watched_iff.2 ⟨c, hc, hname⟩, hover⟩)

end CompiledForm

namespace Form

/-- A path that lies neither on nor above nor below a target. -/
def IsInput (form : Form) (path : String) : Prop :=
  ∀ c ∈ form.calculations, (Path.ofString path).overlaps (.ofString c.target) = false

instance (form : Form) (path : String) : Decidable (form.IsInput path) :=
  inferInstanceAs (Decidable (∀ c ∈ form.calculations,
    (Path.ofString path).overlaps (.ofString c.target) = false))

theorem recomputeAffected_eq_of_same {form : Form} {compiled : CompiledForm}
    (h : form.compile = .ok compiled) (hsep : form.Separated) {s t : Snapshot} {path : String}
    (hpath : form.IsInput path) (hsettled : compiled.recompute s = [])
    (hsame : ∀ name, (Path.ofString path).overlaps (.ofString name) = false →
      s.get? name = t.get? name) :
    compiled.recomputeAffected path t = compiled.recompute t := by
  have hleft : ∀ c ∈ compiled.calculations, (compiled.scheduled path).contains c.target = false →
      c.target ∉ compiled.scheduled path := fun c _ hskip hmem => by
    rw [NameSet.contains_iff.2 hmem] at hskip
    exact absurd hskip nofun
  refine CompiledCalculation.writes_pass_filter (fun _ => compile_declaration h) _
    (fun c hc _ => CompiledCalculation.writes_eq_nil_iff.1 hsettled c hc) ?_ ?_
  -- the change is out of sight for the fields that are left out
  · intro c hc hskip name hname
    apply hsame
    rcases List.mem_cons.1 hname with rfl | hname
    · exact hpath _ (declaration_mem h hc)
    · by_contra hover
      exact hleft c hc hskip (CompiledForm.target_mem_scheduled hc hname (.inl (by simpa using hover)))
  -- and so is every field that is computed
  · intro d hd hwanted c hc hskip name hname
    have hscheduled := NameSet.contains_iff.1 hwanted
    refine overlaps_of_separated h hsep hc hd hname ?_
    rintro rfl
    rcases List.mem_cons.1 hname with heq | hname
    · exact hleft c hc hskip (heq ▸ hscheduled)
    · exact hleft c hc hskip (CompiledForm.target_mem_scheduled hc hname (.inr hscheduled))

theorem recomputeAffected_eq_recompute {form : Form} {compiled : CompiledForm}
    (h : form.compile = .ok compiled) (hsep : form.Separated) {s : Snapshot}
    (hsettled : compiled.recompute s = []) {path : String} (hpath : form.IsInput path) (v : Value) :
    compiled.recomputeAffected path (s.insert path v) = compiled.recompute (s.insert path v) :=
  recomputeAffected_eq_of_same h hsep hpath hsettled fun _ hname =>
    (s.get?_insert_of_not_overlaps v hname).symm

def chargedBill : Snapshot :=
  (billCompiled.settled staleBill).insert "item" (.object [("count", .int 4), ("fee", .int 5)])

theorem recomputeAffected_staleBill :
    billForm.compile = .ok billCompiled ∧ billForm.Separated ∧
      billCompiled.recompute (billCompiled.settled staleBill) = [] ∧ billForm.IsInput "item" ∧
      billCompiled.recomputeAffected "item" chargedBill = billCompiled.recompute chargedBill ∧
      (billCompiled.recomputeAffected "item" chargedBill).map Write.text =
        ["net := 20", "tax := 40", "total := 60"] := by
  have hsettled : billCompiled.recompute (billCompiled.settled staleBill) = [] :=
    recompute_settled_of_separated compile_billForm _ separated_billForm (by decide)
  have hinput : billForm.IsInput "item" := by decide
  exact ⟨compile_billForm, separated_billForm, hsettled, hinput,
    recomputeAffected_eq_recompute compile_billForm separated_billForm hsettled hinput _,
    by decide +kernel⟩

theorem recompute_insertAll_of_unwatched {form : Form} {compiled : CompiledForm}
    (h : form.compile = .ok compiled) {s : Snapshot} (hsettled : compiled.recompute s = [])
    {inserts : List (String × Value)} (hinputs : ∀ i ∈ inserts, form.IsInput i.1)
    (hunwatched : ∀ i ∈ inserts, compiled.isWatched i.1 = false) :
    compiled.recompute (s.insertAll inserts) = [] := by
  refine CompiledCalculation.writes_eq_nil_iff.2 fun c hc => ?_
  have hbefore := CompiledCalculation.writes_eq_nil_iff.1 hsettled c hc
  refine (CompiledCalculation.settledIn_congr (compile_declaration h hc) fun name hname => ?_).1
    hbefore
  refine (s.get?_insertAll_of_not_overlaps fun i hi => ?_).symm
  rcases List.mem_cons.1 hname with rfl | hname
  · exact hinputs i hi _ (declaration_mem h hc)
  · have hnone : compiled.overlapping i.1 = [] := by
      simpa [CompiledForm.isWatched] using hunwatched i hi
    by_contra hover
    have hmem : name ∈ compiled.overlapping i.1 := CompiledForm.mem_overlapping_iff.2
      ⟨CompiledForm.mem_watched_iff.2 ⟨c, hc, hname⟩, by simpa [Path.overlaps_comm] using hover⟩
    rw [hnone] at hmem
    exact absurd hmem List.not_mem_nil

/-- In a settled form, whatever its targets overlap, the form may skip the pass after a change that
is not watched. -/
theorem onChange_eq_recompute {form : Form} {compiled : CompiledForm}
    (h : form.compile = .ok compiled) {s : Snapshot} (hsettled : compiled.recompute s = [])
    {inserts : List (String × Value)}
    (hinserts : ∀ i ∈ inserts, compiled.isWatched i.1 = true ∨ form.IsInput i.1) :
    compiled.onChange (inserts.map Prod.fst) (s.insertAll inserts) =
      compiled.recompute (s.insertAll inserts) := by
  rw [CompiledForm.onChange]
  cases hany : (inserts.map Prod.fst).any compiled.isWatched with
  | true => rw [if_pos rfl]
  | false =>
    have hunwatched : ∀ i ∈ inserts, compiled.isWatched i.1 = false := by simpa using hany
    have hinputs : ∀ i ∈ inserts, form.IsInput i.1 := fun i hi =>
      (hinserts i hi).resolve_left (by simp [hunwatched i hi])
    rw [if_neg Bool.false_ne_true, recompute_insertAll_of_unwatched h hsettled hinputs hunwatched]

def emptyPart : Snapshot := ⟨[("a", .null), ("note", .int 1)]⟩

theorem onChange_unwatchedNotes :
    partForm.compile = .ok partCompiled ∧ partCompiled.recompute emptyPart = [] ∧
      (∀ i ∈ [("note.day", Value.int 5), ("remark", .string "late")],
        partCompiled.isWatched i.1 = true ∨ partForm.IsInput i.1) ∧
      partCompiled.onChange ["note.day", "remark"]
          (emptyPart.insertAll [("note.day", .int 5), ("remark", .string "late")]) =
        partCompiled.recompute
          (emptyPart.insertAll [("note.day", .int 5), ("remark", .string "late")]) ∧
      partCompiled.onChange ["a"] (emptyPart.insertAll [("a", .object [("b", .int 1)])]) =
        partCompiled.recompute (emptyPart.insertAll [("a", .object [("b", .int 1)])]) ∧
      (partCompiled.onChange ["a"] (emptyPart.insertAll [("a", .object [("b", .int 1)])])).map
        Write.text = ["a := 1"] := by
  have hsettled : partCompiled.recompute emptyPart = [] := rfl
  have hnotes : ∀ i ∈ [("note.day", Value.int 5), ("remark", .string "late")],
      partCompiled.isWatched i.1 = true ∨ partForm.IsInput i.1 :=
    List.forall_mem_cons.2 ⟨.inr (by decide), by simpa using .inr (by decide)⟩
  have hpart : ∀ i ∈ [("a", Value.object [("b", .int 1)])],
      partCompiled.isWatched i.1 = true ∨ partForm.IsInput i.1 :=
    List.forall_mem_singleton.2 (.inl (by decide))
  exact ⟨compile_partForm, hsettled, hnotes, onChange_eq_recompute compile_partForm hsettled hnotes,
    onChange_eq_recompute compile_partForm hsettled hpart, by decide +kernel⟩

end Form

end FormLogic
