import FormLogic.Proofs.Form.FixedPoint
import FormLogic.Proofs.Rule.Congruence
import FormLogic.Proofs.Snapshot.Resemblance
import Mathlib

/-! The states of fields do not hang on the form of numbers. Whether a pass leaves a value in place that
agrees with the new one, or writes the new one, the same fields are hidden, required and read only.
Formulas do tell forms apart, so in both cases the values are those that the pass has computed. -/

namespace FormLogic

open Value

theorem Formula.ordered_of_eval {source : String} {declared : List String} {formula : Formula}
    (hread : read source declared = .ok formula) {s : Snapshot} (hs : s.Ordered) {v : Value}
    (h : formula.eval s = .ok v) : v.Ordered := by
  cases hsingle : v.isSingle with
  | false =>
    obtain ⟨path, -, -, hget⟩ := passed_of_isSingle_eq_false hread h hsingle
    exact hs.get? hget
  | true =>
    cases v with
    | null => exact .null
    | bool b => exact .bool b
    | int n => exact .int n
    | float x => exact .float x
    | string text => exact .string text
    | _ => exact absurd hsingle nofun

namespace CompiledCalculation

variable {calculations : List CompiledCalculation} {c : CompiledCalculation} {s t : Snapshot}

theorem ordered_of_eval (hc : c.declaration.compile = c) (hs : s.Ordered) {v : Value}
    (h : c.eval s = .ok v) : v.Ordered := by
  rw [← hc, Calculation.eval_compile, Formula.evalText] at h
  split at h
  · next hread => exact Formula.ordered_of_eval hread hs h
  · cases h

/-- Every value that a pass computes, with its target, also where the present one agrees with it. -/
def computed : List CompiledCalculation → Snapshot → List (String × Value)
  | [], _ => []
  | c :: rest, s =>
    match c.eval s with
    | .error _ => computed rest s
    | .ok v => (c.target, v) :: computed rest (settle [c] s)

theorem settle_resembles (hcalculations : ∀ c ∈ calculations, c.declaration.compile = c)
    (hs : s.Ordered) (ht : t.Ordered) (h : s.Resembles t) :
    (settle calculations s).Resembles (t.insertAll (computed calculations s)) := by
  induction calculations generalizing s t with
  | nil => exact h
  | cons c after ih =>
    obtain ⟨hc, hafter⟩ := List.forall_mem_cons.1 hcalculations
    rw [settle_cons, computed]
    rcases pass_cases c s with ⟨e, heval, hpass⟩ | ⟨v, heval, hcurrent, hpass⟩ |
      ⟨v, heval, -, hpass⟩
    · have hsame : settle [c] s = s := settle_eq_self (by rw [hpass])
      rw [hsame, heval]
      exact ih hafter hs ht h
    · have hsame : settle [c] s = s := settle_eq_self (by rw [hpass])
      have hv := ordered_of_eval hc hs heval
      obtain ⟨old, hold, hagrees⟩ := (Option.any_eq_true ..).1 hcurrent
      rw [hsame, heval]
      exact ih hafter hs (ht.insert c.target hv) (h.insert_right ht hold (.agreeing hagrees))
    · have hwritten : settle [c] s = s.insert c.target v := by rw [settle, hpass]; rfl
      have hv := ordered_of_eval hc hs heval
      rw [hwritten, heval]
      exact ih hafter (hs.insert c.target hv) (ht.insert c.target hv) (h.insert c.target (.same v))

end CompiledCalculation

namespace CompiledForm

variable (form : CompiledForm) {s t : Snapshot}

theorem states_congr (h : ∀ field ∈ form.fields, ∀ effect rule,
    field.condition? effect = some rule → rule.holds s = rule.holds t) :
    form.states s = form.states t := by
  have haffected : ∀ effect, Field.affected form.fields s effect =
      Field.affected form.fields t effect := by
    intro effect
    have hfilter : form.fields.filter (fun field => (field.condition? effect).any (·.holds s)) =
        form.fields.filter fun field => (field.condition? effect).any (·.holds t) := by
      refine List.filter_congr fun field hfield => ?_
      cases hcondition : field.condition? effect with
      | none => rfl
      | some rule => exact h field hfield effect rule hcondition
    rw [Field.affected, Field.affected, hfilter]
  simp only [states, FieldStates.ofFields, haffected]

theorem states_of_resembles (h : s.Resembles t) : form.states s = form.states t :=
  form.states_congr fun _ _ _ rule _ => rule.holds_congr fun field _ => h.get?_rel field

theorem states_insert_of_agrees (hs : s.Ordered) {path : String} {v : Value}
    (h : (s.get? path).any (·.agrees v) = true) : form.states (s.insert path v) = form.states s := by
  obtain ⟨old, hold, hagrees⟩ := (Option.any_eq_true ..).1 h
  exact (form.states_of_resembles
    (Snapshot.Resembles.insert_right (.refl s) hs hold (.agreeing hagrees))).symm

end CompiledForm

namespace Form

/-- No rule tells agreeing values apart, so the states of fields are the same whether a value that
agrees with the new one is kept or replaced, in one write and in a whole pass. -/
theorem states_eq_of_agreeing :
    (∀ (rule : Rule) (s t : Snapshot),
      (∀ name ∈ rule.fields, optionsAgree (s.get? name) (t.get? name) = true) →
        rule.holds s = rule.holds t) ∧
    (∀ (form : CompiledForm) (s t : Snapshot),
      (∀ field ∈ form.fields, ∀ effect rule, field.condition? effect = some rule →
        ∀ name ∈ rule.fields, optionsAgree (s.get? name) (t.get? name) = true) →
      form.states s = form.states t) ∧
    (∀ (form : CompiledForm) (s : Snapshot) (path : String) (v : Value), s.Ordered →
      (s.get? path).any (·.agrees v) = true → form.states (s.insert path v) = form.states s) ∧
    ∀ (form : Form) (compiled : CompiledForm) (s : Snapshot), form.compile = .ok compiled →
      s.Ordered → compiled.states (compiled.settled s) =
        compiled.states (s.insertAll (CompiledCalculation.computed compiled.calculations s)) := by
  have hrule : ∀ (rule : Rule) (s t : Snapshot),
      (∀ name ∈ rule.fields, optionsAgree (s.get? name) (t.get? name) = true) →
        rule.holds s = rule.holds t := fun rule s t hagree =>
    rule.holds_congr fun name hname => rel_of_optionsAgree (hagree name (Rule.mem_fields_iff.2 hname))
  refine ⟨hrule, fun form s t hagree => ?_, fun form s path v hs hcurrent => ?_,
    fun form compiled s h hs => ?_⟩
  · exact form.states_congr fun field hfield effect rule hcondition =>
      hrule rule s t (hagree field hfield effect rule hcondition)
  · exact form.states_insert_of_agrees hs hcurrent
  · exact compiled.states_of_resembles (CompiledCalculation.settle_resembles
      (fun c hc => compile_declaration h hc) hs hs (.refl s))

def pairForm (rule : Rule) : Form :=
  ⟨[⟨"details", false, some (.rule rule), none, none⟩], [⟨"copy", ["pair"], "pair"⟩]⟩

def pairCompiled (rule : Rule) : CompiledForm where
  fields := [⟨"details", false, some rule, none, none⟩]
  calculations := (pairForm rule).calculations.map Calculation.compile

theorem compile_pairForm (rule : Rule) : (pairForm rule).compile = .ok (pairCompiled rule) := by cbv

def copyRule : Rule :=
  .compare "copy" .isIn (some (.array [.float .nan, pairOf (.int 1) (.float (.ofInt 2))]))

def pairSnapshot : Snapshot :=
  ⟨[("copy", pairOf (.float (.ofInt 1)) (.int 2)), ("pair", pairOf (.int 1) (.int 2))]⟩

theorem ordered_pairSnapshot : pairSnapshot.Ordered :=
  .object (by decide) (List.forall_mem_cons.2 ⟨ordered_pairOf (.float _) (.int 2),
    List.forall_mem_singleton.2 (ordered_pairOf (.int 1) (.int 2))⟩)

theorem states_pairSnapshot :
    let form := pairCompiled copyRule
    let other : Snapshot := ⟨[("copy", pairOf (.int 1) (.float (.ofInt 2)))]⟩
    let written := pairSnapshot.insert "copy" (pairOf (.int 1) (.int 2))
    copyRule.holds pairSnapshot = true ∧ copyRule.holds pairSnapshot = copyRule.holds other ∧
      form.states pairSnapshot = form.states other ∧
      form.states written = form.states pairSnapshot ∧
      (pairForm copyRule).compile = .ok form ∧ form.recompute pairSnapshot = [] ∧
      form.states (form.settled pairSnapshot) = form.states
        (pairSnapshot.insertAll (CompiledCalculation.computed form.calculations pairSnapshot)) := by
  intro form other written
  obtain ⟨hrules, hforms, hinsert, hpass⟩ := states_eq_of_agreeing
  have hagree : ∀ name ∈ copyRule.fields,
      optionsAgree (pairSnapshot.get? name) (other.get? name) = true :=
    List.forall_mem_singleton.2 (by decide +kernel)
  have hcompile := compile_pairForm copyRule
  refine ⟨by decide +kernel, hrules copyRule _ _ hagree, ?_, ?_, hcompile,
    List.isEmpty_iff.1 (by decide +kernel), hpass _ _ _ hcompile ordered_pairSnapshot⟩
  · refine hforms form _ _ (List.forall_mem_singleton.2 fun effect rule hcondition => ?_)
    cases effect with
    | hidden => exact Option.some.inj hcondition ▸ hagree
    | required => cases hcondition
    | readOnly => cases hcondition
  · exact hinsert form _ "copy" _ ordered_pairSnapshot (by decide +kernel)

end Form

end FormLogic
